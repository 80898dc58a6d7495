import DataSchema.Proofs.Plan
import DataSchema.Proofs.Threshold
import DataSchema.Proofs.Agreement
import Mathlib.Data.List.Forall2
import Mathlib.Data.Option.Defs

/-!
Two engines compared plan by plan. If what the one engine says of a descriptor and a value mirrors
what the other says of theirs, and a relation between tests respects all ways of putting tests
together, then the relation holds between their checks. From this follow the laws of all engines: a
check only adds to what is written down, does not depend on the place where it is made, and comes
out the same with more levels.
-/

namespace DataSchema

/-- Issues of two runs that stand for each other; those of the first run lie below a base. -/
structure Issue.Matches (base : Path) (M : Reason → Reason → Prop) (i j : Issue) : Prop where
  path : i.path = base ++ j.path
  kind : i.kind = j.kind
  reason : M i.reason j.reason

variable {D V D' V' : Type} {X : Error → Error → Prop} {M : Reason → Reason → Prop}
  {R : D → V → D' → V' → Prop}

/-- Two parts that are related and lie under the same step, or two matching failures. -/
inductive Item.Rel (X : Error → Error → Prop) (M : Reason → Reason → Prop)
    (R : D → V → D' → V' → Prop) : Item D V → Item D' V' → Prop where
  | part {d : D} {v : V} {d' : D'} {v' : V'} (step : Step) (h : R d v d' v') :
    Rel X M R (.part d v step) (.part d' v' step)
  | blemish {r r' : Reason} (h : M r r') : Rel X M R (.blemish r) (.blemish r')
  | stuck {e e' : Error} (h : X e e') : Rel X M R (.stuck e) (.stuck e')

/-- Two plans that do the same with related parts. -/
inductive Plan.Rel (X : Error → Error → Prop) (M : Reason → Reason → Prop)
    (R : D → V → D' → V' → Prop) (v : V) (v' : V') : Plan D V → Plan D' V' → Prop where
  | answer (holds : Bool) (below : Path) {r r' : Reason} (h : M r r') :
    Rel X M R v v' (.answer holds below r) (.answer holds below r')
  | stuck {e e' : Error} (h : X e e') : Rel X M R v v' (.stuck e) (.stuck e')
  | every {items : List (Item D V)} {items' : List (Item D' V')}
    (h : List.Forall₂ (Item.Rel X M R) items items') :
    Rel X M R v v' (.every items) (.every items')
  | oneOf {ds : List D} {ds' : List D'} {r r' : Reason}
    (h : List.Forall₂ (fun d d' => R d v d' v') ds ds') (hr : M r r') :
    Rel X M R v v' (.oneOf ds r) (.oneOf ds' r')

/-- A plan does the same as itself. -/
theorem Plan.rel_refl {R : D → V → D → V → Prop} (hX : ∀ e, X e e) (hM : ∀ reason, M reason reason)
    (hR : ∀ d v, R d v d v) (v : V) (plan : Plan D V) : Plan.Rel X M R v v plan plan := by
  cases plan with
  | answer holds below reason => exact .answer holds below (hM reason)
  | stuck e => exact .stuck (hX e)
  | oneOf ds reason => exact .oneOf (List.forall₂_same.mpr fun d _ => hR d v) (hM reason)
  | every items =>
    refine .every (List.forall₂_same.mpr fun item _ => ?_)
    cases item with
    | part d w step => exact .part step (hR d w)
    | blemish reason => exact .blemish (hM reason)
    | stuck e => exact .stuck (hX e)

/-- What a relation between the tests of two runs has to respect, where the issues of the first run
lie below a base and failures correspond by `X`. Alternatives are tested silently. -/
structure Accord (one two : Recording) (base : Path) (X : Error → Error → Prop)
    (M : Reason → Reason → Prop) (Silent Related : Test → Test → Prop) : Prop where
  pass : Related .pass .pass
  fail {i j : Issue} (h : i.Matches base M j) : Related (.fail one i) (.fail two j)
  raise {e e' : Error} (h : X e e') : Related (.raise e) (.raise e')
  andThen {s s' t t' : Test} (hs : Related s s') (ht : Related t t') :
    Related (s.andThen t) (s'.andThen t')
  orElse {s s' t t' : Test} (hs : Silent s s') (ht : Related t t') :
    Related (s.orElse t) (s'.orElse t')
  also {s s' t t' : Test} (hs : Related s s') (ht : Related t t') :
    Related (.also one s t) (.also two s' t')

/-- A law of runs in lockstep is one of engines if it has nothing against any failure. -/
theorem Lockstep.accord {one two : Recording} {Silent Related : Test → Test → Prop}
    (h : Lockstep one two [] Silent Related) (hraise : ∀ e, Related (.raise e) (.raise e)) :
    Accord one two [] Eq Eq Silent Related where
  pass := h.pass
  fail := by
    rintro ⟨path, kind, reason⟩ ⟨_, _, _⟩ ⟨hpath, hkind, hreason⟩
    obtain ⟨rfl, rfl, rfl⟩ : path = _ ∧ kind = _ ∧ reason = _ := ⟨hpath, hkind, hreason⟩
    exact h.fail _ _ _
  raise := by
    rintro e _ rfl
    exact hraise e
  andThen := h.andThen
  orElse := h.orElse
  also := h.also

/-- The other way round, what reasons change nothing about is a law of runs in lockstep. -/
theorem Accord.lockstep {one two : Recording} {base : Path} {Silent Related : Test → Test → Prop}
    (h : Accord one two base X Eq Silent Related) (hX : ∀ e, e.family ≠ .nesting → X e e) :
    Lockstep one two base Silent Related where
  pass := h.pass
  fail := fun _ _ _ => h.fail ⟨rfl, rfl, rfl⟩
  raise := fun he => h.raise (hX _ he)
  andThen := h.andThen
  orElse := h.orElse
  also := h.also

section Run

variable {one two : Recording} {base : Path} {Silent Related : Test → Test → Prop}
  {further : Further D V} {further' : Further D' V'}

theorem Accord.all_map {α β : Type} (h : Accord one two base X M Silent Related)
    {S : α → β → Prop} {xs : List α} {ys : List β} (hxs : List.Forall₂ S xs ys) {f : α → Test}
    {g : β → Test} (hfg : ∀ x y, S x y → Related (f x) (g y)) :
    Related (.all one (xs.map f)) (.all two (ys.map g)) := by
  induction hxs with
  | nil => exact h.pass
  | cons hxy _ ih =>
    rw [List.map_cons, List.map_cons, Test.all_cons, Test.all_cons]
    exact h.also (hfg _ _ hxy) ih

theorem Accord.orElse_map {α β : Type} (h : Accord one two base X M Silent Related)
    {S : α → β → Prop} {xs : List α} {ys : List β} (hxs : List.Forall₂ S xs ys) {f : α → Test}
    {g : β → Test} (hfg : ∀ x y, S x y → Silent (f x) (g y)) {last last' : Test}
    (hlast : Related last last') :
    Related ((xs.map f).foldr .orElse last) ((ys.map g).foldr .orElse last') := by
  induction hxs with
  | nil => exact hlast
  | cons hxy _ ih => exact h.orElse (hfg _ _ hxy) ih

/-- Related plans run alike if their parts do. -/
theorem Plan.run_related (h : Accord one two base X M Silent Related) {v : V} {v' : V'}
    {plan : Plan D V} {plan' : Plan D' V'} (hplan : Plan.Rel X M R v v' plan plan')
    (hpart : ∀ d w d' w' q, R d w d' w' →
      Related (further one d w (base ++ q)) (further' two d' w' q))
    (hsilent : ∀ d w d' w' q, R d w d' w' →
      Silent (further .silent d w (base ++ q)) (further' .silent d' w' q))
    (kind : Kind) (path : Path) :
    Related (plan.run further one kind v (base ++ path)) (plan'.run further' two kind v' path) := by
  cases hplan with
  | answer holds below hr =>
    cases holds with
    | true => exact h.pass
    | false => exact h.fail ⟨List.append_assoc _ _ _, rfl, hr⟩
  | stuck he => exact h.raise he
  | every hitems =>
    apply h.all_map hitems
    intro item item' hitem
    cases hitem with
    | part step hd =>
      have hpath := hpart _ _ _ _ (path ++ [step]) hd
      rwa [← List.append_assoc] at hpath
    | blemish hr => exact h.fail ⟨rfl, rfl, hr⟩
    | stuck he => exact h.raise he
  | oneOf hds hr =>
    apply h.orElse_map hds
    · exact fun d d' hd => hsilent _ _ _ _ path hd
    · exact h.fail ⟨rfl, rfl, hr⟩

/-- A plan runs with a property that all ways of putting tests together keep, if its parts do. -/
theorem Plan.run_keeps {mode : Recording} {S T : Test → Prop}
    (h : Accord mode mode [] X M (fun t _ => S t) fun t _ => T t) {P : D → V → Prop} {v : V}
    {plan : Plan D V}
    (hplan : Plan.Rel X M (fun d w d' w' => P d w ∧ d = d' ∧ w = w') v v plan plan)
    (hpart : ∀ d w q, P d w → T (further mode d w q))
    (hsilent : ∀ d w q, P d w → S (further .silent d w q)) (kind : Kind) (path : Path) :
    T (plan.run further mode kind v path) :=
  @Plan.run_related D V D V X M _ mode mode [] _ _ further further h v v plan plan hplan
    (fun d w _ _ q hd => hpart d w q hd.1) (fun d w _ _ q hd => hsilent d w q hd.1) kind path

end Run

namespace Engine

/-- What one engine says of a descriptor and a value mirrors what another says of those that they
are related to. -/
structure Mirrors (E : Engine D V) (E' : Engine D' V') (X : Error → Error → Prop)
    (M : Reason → Reason → Prop) (R : D → V → D' → V' → Prop) : Prop where
  kind {d : D} {v : V} {d' : D'} {v' : V'} (h : R d v d' v') : E.kind d = E'.kind d'
  derived? {d : D} {v : V} {d' : D'} {v' : V'} (h : R d v d' v') :
    Option.Rel (fun s s' => R s v s' v') (E.derived? d) (E'.derived? d')
  plan {d : D} {v : V} {d' : D'} {v' : V'} (h : R d v d' v') :
    Plan.Rel X M R v v' (E.plan d v) (E'.plan d' v')

variable {E : Engine D V} {E' : Engine D' V'}

/-- One level of two engines, if their rules and the checks of what they derive are related. -/
theorem check_succ_of_run {one two : Recording} {base : Path} {Silent Related : Test → Test → Prop}
    (h : Accord one two base X M Silent Related) {limit limit' : Limit} {levels levels' : Nat}
    {d : D} {v : V} {d' : D'} {v' : V'} {path : Path}
    (hderived : Option.Rel (fun s s' => Related (E.check limit levels one s v (base ++ path))
      (E'.check limit' levels' two s' v' path)) (E.derived? d) (E'.derived? d'))
    (hrule : Related
      ((E.plan d v).run (E.check limit levels) one (E.kind d) v (base ++ path))
      ((E'.plan d' v').run (E'.check limit' levels') two (E'.kind d') v' path)) :
    Related (E.check limit (levels + 1) one d v (base ++ path))
      (E'.check limit' (levels' + 1) two d' v' path) := by
  generalize hs : E.derived? d = derived, hs' : E'.derived? d' = derived' at hderived
  cases hderived with
  | none =>
    rw [E.check_of_none _ _ _ _ _ hs, E'.check_of_none _ _ _ _ _ hs']
    exact hrule
  | some hshape =>
    rw [E.check_of_some _ _ _ _ _ hs, E'.check_of_some _ _ _ _ _ hs']
    exact h.andThen hshape hrule

/-- One level of two engines that mirror each other, if the checks a level below are related. -/
theorem check_succ_related (hE : E.Mirrors E' X M R) {one two : Recording} {base : Path}
    {Silent Related : Test → Test → Prop} (h : Accord one two base X M Silent Related)
    {limit limit' : Limit} {levels levels' : Nat}
    (hpart : ∀ d w d' w' q, R d w d' w' →
      Related (E.check limit levels one d w (base ++ q)) (E'.check limit' levels' two d' w' q))
    (hsilent : ∀ d w d' w' q, R d w d' w' →
      Silent (E.check limit levels .silent d w (base ++ q))
        (E'.check limit' levels' .silent d' w' q))
    {d : D} {v : V} {d' : D'} {v' : V'} (hd : R d v d' v') (path : Path) :
    Related (E.check limit (levels + 1) one d v (base ++ path))
      (E'.check limit' (levels' + 1) two d' v' path) := by
  refine check_succ_of_run h ?_ ?_
  · have hderived := hE.derived? hd
    generalize E.derived? d = derived, E'.derived? d' = derived' at hderived
    cases hderived with
    | none => exact .none
    | some hshape => exact .some (hpart _ _ _ _ path hshape)
  · rw [← hE.kind hd]
    exact Plan.run_related h (hE.plan hd) hpart hsilent (E.kind d) path

/-- An engine mirrors itself, whatever failures and reasons are taken for the same. -/
theorem mirrors_refl (E : Engine D V) (hX : ∀ e, X e e) (hM : ∀ reason, M reason reason) :
    E.Mirrors E X M fun d v d' v' => d = d' ∧ v = v' where
  kind := fun ⟨hd, _⟩ => congrArg E.kind hd
  derived? := by
    rintro d v _ _ ⟨rfl, rfl⟩
    cases E.derived? d with
    | none => exact .none
    | some shape => exact .some ⟨rfl, rfl⟩
  plan := by
    rintro d v _ _ ⟨rfl, rfl⟩
    exact Plan.rel_refl hX hM (fun _ _ => ⟨rfl, rfl⟩) v (E.plan d v)

theorem mirrors_self (E : Engine D V) : E.Mirrors E Eq Eq fun d v d' v' => d = d' ∧ v = v' :=
  E.mirrors_refl (fun _ => rfl) fun _ => rfl

/-- One level of an engine, for a property that all ways of putting tests together keep. -/
theorem check_succ_keeps (E : Engine D V) {mode : Recording} {S T : Test → Prop}
    (h : Accord mode mode [] Eq Eq (fun t _ => S t) fun t _ => T t) {limit : Limit} {levels : Nat}
    (hpart : ∀ d w q, T (E.check limit levels mode d w q))
    (hsilent : ∀ d w q, S (E.check limit levels .silent d w q)) (d : D) (v : V) (path : Path) :
    T (E.check limit (levels + 1) mode d v path) :=
  @check_succ_related D V D V Eq Eq _ E E E.mirrors_self mode mode [] _ _ h limit limit levels
    levels (fun d w _ _ q _ => hpart d w q) (fun d w _ _ q _ => hsilent d w q) d v d v ⟨rfl, rfl⟩
    path

end Engine

end DataSchema
