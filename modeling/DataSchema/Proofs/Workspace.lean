import DataSchema.Proofs.Store.Building
import DataSchema.Workspace

/-!
Whatever is done in a workspace leaves a proper store proper: building, changing and rendering. What
only reads does not come up here.
-/

namespace DataSchema

section Leaves

variable {σ α β : Type} {store : σ → Store}

/-- An operation that leaves a proper store proper, also where it fails. -/
def LeavesProper (store : σ → Store) (action : ExceptT Error (StateM σ) α) : Prop :=
  ∀ s, (store s).Proper → (store (action.run.run s).2).Proper

namespace LeavesProper

theorem pure (a : α) : LeavesProper store (Pure.pure a) := fun _ h => h

theorem throw (e : Error) : LeavesProper store (MonadExcept.throw e : ExceptT Error (StateM σ) α) :=
  fun _ h => h

theorem bind {action : ExceptT Error (StateM σ) α} {next : α → ExceptT Error (StateM σ) β}
    (h : LeavesProper store action) (hnext : ∀ a, LeavesProper store (next a)) :
    LeavesProper store (action >>= next) := by
  intro s hs
  have hfirst := h s hs
  rw [ExceptT.run_bind, StateT.run_bind]
  cases hrun : action.run.run s with
  | mk result s' =>
    rw [hrun] at hfirst
    cases result with
    | ok a => exact hnext a s' hfirst
    | error e => exact hfirst

theorem get {next : σ → ExceptT Error (StateM σ) α}
    (h : ∀ s, (store s).Proper → LeavesProper store (next s)) :
    LeavesProper store (MonadState.get >>= next) :=
  fun s hs => h s hs s hs

theorem modify {f : σ → σ} (h : ∀ s, (store s).Proper → (store (f s)).Proper) :
    LeavesProper store (modify f : ExceptT Error (StateM σ) PUnit) :=
  fun s hs => h s hs

theorem ofExcept {r : Except Error α} :
    LeavesProper store (MonadExcept.ofExcept r : ExceptT Error (StateM σ) α) := by
  cases r with
  | ok a => exact pure a
  | error e => exact throw e

theorem ofExcept_bind {r : Except Error α} {next : α → ExceptT Error (StateM σ) β}
    (h : ∀ a, r = .ok a → LeavesProper store (next a)) :
    LeavesProper store (MonadExcept.ofExcept r >>= next) := by
  cases r with
  | ok a => exact h a rfl
  | error e => exact fun _ hs => hs

theorem sequential :
    Sequential fun α (action : ExceptT Error (StateM σ) α) => LeavesProper store action :=
  ⟨pure, bind⟩

end LeavesProper

end Leaves

namespace Registry

theorem ofLogged_leavesProper {α : Type} (action : Log.Logged α) :
    LeavesProper Effects.store (ofLogged action) :=
  .bind (.modify fun _ hproper => hproper) fun _ => .ofExcept

theorem ofBuild_leavesProper {α : Type} {action : Build α} (h : Build.Keeps action) :
    LeavesProper Effects.store (ofBuild action) := by
  refine .get fun effects hproper => .ofExcept_bind fun result hrun => ?_
  refine .bind (.modify fun _ _ => ?_) fun _ => .pure result.1
  exact h effects.store hproper result hrun

theorem add_leavesProper {cell : Cell} (h : cell.Proper) :
    LeavesProper Effects.store (add cell) :=
  ofBuild_leavesProper (Build.add_keeps h)

theorem text_leavesProper (s : String) : LeavesProper Effects.store (text s) :=
  ofBuild_leavesProper (Build.text_keeps s)

theorem send_leavesProper (v : Ref) : LeavesProper Effects.store (send v) :=
  .modify fun _ hproper => hproper

/-- What is twice an object is put down as properly as the object. -/
theorem proper_of_doubled? {cell twice : Cell} (h : doubled? cell = .ok twice) : twice.Proper := by
  unfold doubled? at h
  split at h
  case h_5 d =>
    split at h
    · contradiction
    · split at h
      · obtain rfl := Except.ok.inj h
        rfl
      · contradiction
  case h_10 => contradiction
  all_goals
    obtain rfl := Except.ok.inj h
    first | rfl | trivial

/-- Parts are rendered so that stores stay proper if edits leave them so. -/
def PartLeavesProper (part : RenderPart) : Prop :=
  ∀ d v edit, (∀ r, LeavesProper Effects.store (edit r)) →
    LeavesProper Effects.store (part d v edit)

variable {part : RenderPart} {edit : Ref → Rendering Ref}

theorem renderFields_leavesProper (hpart : PartLeavesProper part) (configuration v : Ref)
    (hedit : ∀ r, LeavesProper Effects.store (edit r)) :
    LeavesProper Effects.store (renderFields part configuration v edit) := by
  refine .get fun effects _ => ?_
  extract_lets store render
  have hrender : ∀ current, LeavesProper Effects.store (render current) := by
    intro current
    unfold render
    split
    · exact .throw (.noAttribute "items")
    · next fields _ =>
      refine .bind (LeavesProper.sequential.mapM fun field _ => ?_) fun outputs => ?_
      · refine .get fun effects _ => ?_
        split
        · exact .throw (.noAttribute "get")
        · refine .ofExcept_bind fun found _ => .bind (hpart _ _ _ fun new => ?_) fun output => ?_
          · refine .get fun effects _ => .ofExcept_bind fun written _ => ?_
            exact .bind (add_leavesProper trivial) fun r => hedit r
          · exact add_leavesProper trivial
      · exact add_leavesProper trivial
  split
  · exact .bind (.pure v) hrender
  · exact .bind (add_leavesProper trivial) hrender

theorem renderItems_leavesProper (hpart : PartLeavesProper part) (configuration v : Ref)
    (hedit : ∀ r, LeavesProper Effects.store (edit r)) :
    LeavesProper Effects.store (renderItems part configuration v edit) := by
  refine .get fun effects hproper => ?_
  split
  · exact .throw .notIterable
  · next parts hparts =>
    have hsettle : Build.Keeps (parts.mapM Build.settle) :=
      Build.Keeps.sequential.mapM fun p hp => Build.settle_keeps (hproper.of_mem_parts? hparts hp)
    refine .bind (ofBuild_leavesProper hsettle) fun items => ?_
    refine .bind (LeavesProper.sequential.mapM fun item _ => ?_) fun outputs => ?_
    · refine .get fun effects _ => .ofExcept_bind fun d _ => hpart _ _ _ fun new => ?_
      exact .bind (add_leavesProper trivial) fun r => hedit r
    · exact add_leavesProper trivial

theorem renderActive_leavesProper (hpart : PartLeavesProper part) (configuration v : Ref)
    (hedit : ∀ r, LeavesProper Effects.store (edit r)) :
    LeavesProper Effects.store (renderActive part configuration v edit) := by
  refine .bind (ofBuild_leavesProper (Build.make_keeps rfl configuration)) fun union => ?_
  refine .get fun effects _ => .ofExcept_bind fun position _ => ?_
  split
  · exact text_leavesProper "none"
  · refine .bind (ofBuild_leavesProper (Build.plain_keeps rfl)) fun r => ?_
    refine .bind (hpart _ _ _ hedit) fun output => ?_
    exact add_leavesProper trivial

theorem apply_leavesProper (renderer : Renderer) (registry : Registry Renderer)
    (hpart : PartLeavesProper part) (configuration v : Ref)
    (hedit : ∀ r, LeavesProper Effects.store (edit r)) :
    LeavesProper Effects.store (renderer.apply registry part configuration v edit) := by
  cases renderer with
  | text => exact .get fun effects _ => text_leavesProper _
  | config => exact .bind (text_leavesProper _) fun key => add_leavesProper trivial
  | fields => exact renderFields_leavesProper hpart configuration v hedit
  | items => exact renderItems_leavesProper hpart configuration v hedit
  | active => exact renderActive_leavesProper hpart configuration v hedit
  | inner =>
    refine .get fun effects _ => ?_
    split
    · exact text_leavesProper "absent"
    · exact .get fun effects _ => .ofExcept_bind fun d _ => hpart d v edit hedit
  | clear =>
    refine .bind (hedit Store.absent) fun edited => .bind (send_leavesProper edited) fun _ => ?_
    exact text_leavesProper "clear"
  | double =>
    refine .get fun effects _ => .ofExcept_bind fun twice htwice => ?_
    refine .bind (add_leavesProper (proper_of_doubled? htwice)) fun new => ?_
    refine .bind (hedit new) fun edited => .bind (send_leavesProper edited) fun _ => ?_
    refine .bind (ofLogged_leavesProper _) fun found => ?_
    split
    · exact text_leavesProper _
    · exact .pure Store.absent

theorem renderWithin_leavesProper (registry : Registry Renderer) (levels : Nat) :
    PartLeavesProper (renderWithin registry levels) := by
  induction levels with
  | zero => exact fun _ _ _ _ => .throw .endless
  | succ levels ih =>
    intro d v edit hedit
    refine .get fun effects _ => .ofExcept_bind fun kind _ => ?_
    refine .bind (ofLogged_leavesProper _) fun found => ?_
    refine .bind (ofBuild_leavesProper (Build.configuration_keeps d)) fun configuration => ?_
    split
    · exact text_leavesProper _
    · next renderer => exact apply_leavesProper renderer registry ih configuration v hedit

theorem render_leavesProper (registry : Registry Renderer) (d v : Ref) :
    LeavesProper Effects.store (render registry d v) :=
  renderWithin_leavesProper registry renderLevels d v pure fun r => .pure r

end Registry

namespace Workspace

theorem ofBuild_leavesProper {α : Type} {action : Build α} (h : Build.Keeps action) :
    LeavesProper Workspace.store (ofBuild action) := by
  refine .get fun workspace hproper => .ofExcept_bind fun result hrun => ?_
  refine .bind (fun _ _ => ?_) fun _ => .pure result.1
  exact h workspace.store hproper result hrun

theorem append_leavesProper (record : Log.Record) :
    LeavesProper Workspace.store (append record) :=
  .modify fun _ hproper => hproper

theorem eval_leavesProper {e : Expression} (h : e.Proper) :
    LeavesProper Workspace.store (eval e) :=
  .get fun workspace _ => ofBuild_leavesProper (Build.eval_keeps workspace.names e h)

theorem setCell_leavesProper {r : Ref} {cell : Cell} (hr : r ≠ Store.absent) (hcell : cell.Proper) :
    LeavesProper Workspace.store (setCell r cell) :=
  .modify fun _ hproper => hproper.set hr hcell

theorem setLoose_leavesProper (face : Value) (field : String) :
    LeavesProper Workspace.store (setLoose face field) := by
  unfold setLoose
  extract_lets taken
  split
  · exact .throw _
  · exact .pure ()

/-- A field takes any object, but stays one of its kind. -/
theorem tie_leavesProper (d : Ref) (field : String) (v : Ref) :
    LeavesProper Workspace.store (tie d field v) := by
  refine .get fun workspace hproper => ?_
  dsimp only
  split
  · next kind held hcell =>
    split
    · have hd : d ≠ Store.absent := hproper.ne_absent (by simp [hcell])
      exact setCell_leavesProper hd (hproper.field hcell)
    · exact .throw _
  · exact setLoose_leavesProper _ field

/-- What can grow is a list, which it still is when the new element is there. -/
theorem growing_leavesProper (r : Ref) {element : Work Ref}
    (h : LeavesProper Workspace.store element) :
    LeavesProper Workspace.store (do
      let items ← growing r
      appendTo r items (← element)) := by
  rw [growing, bind_assoc]
  refine .get fun workspace hproper => ?_
  split
  · next items hcell =>
    have hr : r ≠ Store.absent := hproper.ne_absent (by simp [hcell])
    rw [pure_bind]
    exact .bind h fun v => setCell_leavesProper hr trivial
  · exact .throw _

theorem setItem_leavesProper (r key v : Ref) :
    LeavesProper Workspace.store (setItem r key v) := by
  refine .get fun workspace hproper => ?_
  dsimp only
  split
  · next entries hcell =>
    have hr : r ≠ Store.absent := hproper.ne_absent (by simp [hcell])
    refine .bind (ofBuild_leavesProper (Build.put_keeps key v entries)) fun written => ?_
    exact setCell_leavesProper hr trivial
  · next items hcell =>
    have hr : r ≠ Store.absent := hproper.ne_absent (by simp [hcell])
    exact .ofExcept_bind fun position _ => setCell_leavesProper hr trivial
  · split
    · exact .throw .wrongPosition
    · exact .throw .readOnly

theorem aspects_leavesProper (r : Ref) : LeavesProper Workspace.store (aspects r) := by
  refine .get fun workspace _ => ?_
  split
  · exact .pure _
  · refine .bind (ofBuild_leavesProper (Build.configuration_keeps r)) fun configuration => ?_
    refine .get fun _ _ => .ofExcept_bind fun tree _ => .ofExcept_bind fun _ _ => ?_
    refine .bind (ofBuild_leavesProper (Build.derive_keeps r)) fun derived => ?_
    exact .get fun _ _ => .ofExcept_bind fun shape _ => .pure (tree, shape)

theorem render_leavesProper (registry : Registry Registry.Renderer) (d v : Ref) :
    LeavesProper Workspace.store (render registry d v) := by
  refine .get fun workspace hproper => ?_
  have heffects := Registry.render_leavesProper registry d v ⟨workspace.store, #[], #[]⟩ hproper
  generalize (Registry.render registry d v).run.run _ = run at heffects ⊢
  obtain ⟨result, effects⟩ := run
  refine .bind (.modify fun _ _ => heffects) fun _ => ?_
  refine .bind ?_ fun _ => .pure _
  rw [Array.forM, ← Array.foldlM_toList]
  exact LeavesProper.sequential.foldlM (fun _ record _ => append_leavesProper record) ⟨⟩

end Workspace

end DataSchema
