import DataSchema.Proofs.Levels
import DataSchema.Proofs.Store.Lockstep
import Mathlib.Data.Nat.Find

/-!
More levels never change an outcome. Two runs under different limits come out the same until the
one with fewer levels wants one more; so for each question there is a number of levels below which
it fails for want of levels, and from which on the outcome stays. Descriptors that hold themselves
are among those for which no limit that settings allow is enough.
-/

namespace DataSchema

/-- The outcome under a limit, and that under one with as many levels or more. -/
inductive Lengthened (limit : Limit) : Outcome → Outcome → Prop where
  | short (kind : Kind) (r : Outcome) : Lengthened limit (.error (limit.overrun kind)) r
  | same (r : Outcome) : Lengthened limit r r

def Test.Extends (limit : Limit) (s t : Test) : Prop :=
  ∀ issues, Lengthened limit (s issues) (t issues)

namespace Lengthened

variable {limit : Limit} {r r' : Outcome} {t t' : Test}

theorem andThen (hr : Lengthened limit r r') (ht : Test.Extends limit t t') :
    Lengthened limit (r.andThen t) (r'.andThen t') := by
  cases hr with
  | short kind => exact .short kind _
  | same =>
    rcases r with e | ⟨ok, rest⟩
    · exact .same _
    · cases ok with
      | true => exact ht rest
      | false => exact .same _

theorem orElse (hr : Lengthened limit r r') (ht : Test.Extends limit t t') :
    Lengthened limit (r.orElse t) (r'.orElse t') := by
  cases hr with
  | short kind => exact .short kind _
  | same =>
    rcases r with e | ⟨ok, rest⟩
    · exact .same _
    · cases ok with
      | true => exact .same _
      | false => exact ht rest

theorem also (mode : Recording) (hr : Lengthened limit r r') (ht : Test.Extends limit t t') :
    Lengthened limit (r.also mode t) (r'.also mode t') := by
  cases hr with
  | short kind => exact .short kind _
  | same =>
    rcases r with e | ⟨ok, rest⟩
    · exact .same _
    · cases ok with
      | true => exact ht rest
      | false =>
        cases hm : mode.stopsEarly with
        | true =>
          rw [Outcome.also_false_early hm, Outcome.also_false_early hm]
          exact .same _
        | false =>
          rw [Outcome.also_false_all hm, Outcome.also_false_all hm]
          have hrest := ht rest
          generalize t rest = later, t' rest = later' at hrest ⊢
          cases hrest with
          | short kind => exact .short kind _
          | same => exact .same _

end Lengthened

theorem lockstep_extends (limit : Limit) (mode : Recording) :
    Lockstep mode mode [] (Test.Extends limit) (Test.Extends limit) where
  pass := fun _ => .same _
  fail := fun _ _ _ _ => .same _
  raise := fun _ _ => .same _
  andThen := fun hs ht issues => (hs issues).andThen ht
  orElse := fun hs ht issues => (hs issues).orElse ht
  also := fun hs ht issues => (hs issues).also mode ht

theorem check_extends (limit limit' : Limit) {levels levels' : Nat} (h : levels ≤ levels')
    (mode : Recording) (d : Descriptor) (v : Value) (path : Path) :
    Test.Extends limit (check limit levels mode d v path) (check limit' levels' mode d v path) := by
  induction levels generalizing levels' mode d v path with
  | zero => exact fun _ => .short d.kind _
  | succ levels ih =>
    obtain ⟨fewer, rfl⟩ : ∃ n, levels' = n + 1 := ⟨levels' - 1, by omega⟩
    have hle : levels ≤ fewer := by omega
    apply check_succ_related (lockstep_extends limit mode)
    · exact fun e _ w q => ih hle mode e w q
    · exact fun e _ w q => ih hle .silent e w q

namespace Store

/-- A field without a step of a path fails to be written down in both runs. -/
theorem checkField_extends {limit : Limit} {part part' : SubjectCheck}
    (hpart : ∀ mode e w q, Test.Extends limit (part mode e w q) (part' mode e w q))
    (mode : Recording) (name : Value) (d : Subject) (v : Ref) (path : Path) :
    Test.Extends limit (checkField part mode name d v path)
      (checkField part' mode name d v path) := by
  cases hname : Step.ofValue? name with
  | some step => exact checkField_related (hpart mode) hname d v path
  | none =>
    have hfirst : Lengthened limit (part .first d v path #[]) (part' .first d v path #[]) :=
      hpart .first d v path #[]
    intro issues
    simp only [checkField, hname]
    cases mode with
    | silent => exact hpart .silent d v path issues
    | first | all =>
      generalize part .first d v path #[] = r, part' .first d v path #[] = r' at hfirst ⊢
      cases hfirst with
      | short kind => exact .short kind _
      | same => exact .same _

theorem check_extends (store : Store) (limit limit' : Limit) {levels levels' : Nat}
    (h : levels ≤ levels') (mode : Recording) (d : Subject) (v : Ref) (path : Path) :
    Test.Extends limit (store.check limit levels mode d v path)
      (store.check limit' levels' mode d v path) := by
  induction levels generalizing levels' mode d v path with
  | zero =>
    cases hk : store.kindOf? d with
    | ok kind =>
      simp only [check, hk]
      exact fun _ => .short kind _
    | error e =>
      rw [store.check_of_kindOf?_error hk, store.check_of_kindOf?_error hk]
      exact fun _ => .same _
  | succ levels ih =>
    obtain ⟨fewer, rfl⟩ : ∃ n, levels' = n + 1 := ⟨levels' - 1, by omega⟩
    have hle : levels ≤ fewer := by omega
    apply check_succ_related store (lockstep_extends limit mode)
    · exact fun _ => .same _
    · exact fun e _ w q => ih hle mode e w q
    · exact fun e _ w q => ih hle .silent e w q
    · intro fields _ name e _ w
      exact checkField_extends (fun mode e w q => ih hle mode e w q) mode name e w path

end Store

/-- There is a number of levels below which the run fails for want of levels, and from which on it
has one and the same other outcome. The run is asked under all settings that are admitted and bound
the levels. -/
def HasThreshold {α : Type} (admitted : Settings → Prop) (run : Settings → Except Error α) : Prop :=
  ∃ (threshold : Nat) (outcome : Except Error α), ¬LacksLevels outcome ∧
    ∀ settings levels, admitted settings → settings.depth.limit.levels = some levels →
      (levels < threshold → LacksLevels (run settings)) ∧
      (threshold ≤ levels → run settings = outcome)

/-- A run that only ever fails for want of levels under the tighter of two settings, or else comes
out the same under both, has a threshold. -/
theorem hasThreshold_of_extends {α : Type} {admitted : Settings → Prop}
    {run : Settings → Except Error α}
    (h : ∀ settings settings' levels levels', admitted settings → admitted settings' →
      settings.depth.limit.levels = some levels → settings'.depth.limit.levels = some levels' →
      levels ≤ levels' → LacksLevels (run settings) ∨ run settings = run settings') :
    HasThreshold admitted run := by
  classical
  let Enough : Nat → Prop := fun levels => ∃ settings, admitted settings ∧
    settings.depth.limit.levels = some levels ∧ ¬LacksLevels (run settings)
  by_cases hex : ∃ levels, Enough levels
  · obtain ⟨settings, hadm, hlevels, henough⟩ := Nat.find_spec hex
    refine ⟨Nat.find hex, run settings, henough, ?_⟩
    intro settings' levels' hadm' hlevels'
    constructor
    · intro hlt
      by_contra hnot
      exact Nat.find_min hex hlt ⟨settings', hadm', hlevels', hnot⟩
    · intro hle
      have hrun := h settings settings' _ _ hadm hadm' hlevels hlevels' hle
      exact (hrun.resolve_left henough).symm
  · -- No settings allow enough levels, so the threshold lies beyond the ceiling.
    refine ⟨Depth.ceiling + 1, .error .endless, ?_, ?_⟩
    · rintro ⟨e, he, hfamily⟩
      obtain rfl := Except.error.inj he
      contradiction
    · intro settings levels hadm hlevels
      have hceiling := settings.depth.levels_le_ceiling hlevels
      constructor
      · intro _
        by_contra hnot
        exact hex ⟨levels, settings, hadm, hlevels, hnot⟩
      · intro hle
        omega

theorem Lengthened.lacksLevels_or_eq {limit : Limit} {levels : Nat} {r r' : Outcome}
    (hlevels : limit.levels = some levels) (h : Lengthened limit r r') :
    LacksLevels r ∨ r = r' := by
  cases h with
  | short kind => exact .inl ⟨limit.overrun kind, rfl, Limit.family_overrun hlevels kind⟩
  | same => exact .inr rfl

theorem runCheck_extends {settings settings' : Settings} {levels levels' : Nat}
    (h : settings.depth.limit.levels = some levels)
    (h' : settings'.depth.limit.levels = some levels') (hle : levels ≤ levels') (mode : Recording)
    (d : Descriptor) (v : Value) : LacksLevels (runCheck settings mode d v) ∨
      runCheck settings mode d v = runCheck settings' mode d v := by
  have hbound := Nat.succ_le_succ (Limit.bound_le_bound h h' hle)
  exact (check_extends _ _ hbound mode d v [] #[]).lacksLevels_or_eq h

theorem Store.runCheck_extends (store : Store) {settings settings' : Settings}
    {levels levels' : Nat} (h : settings.depth.limit.levels = some levels)
    (h' : settings'.depth.limit.levels = some levels') (hle : levels ≤ levels') (mode : Recording)
    (d : Subject) (v : Ref) : LacksLevels (store.runCheck settings mode d v) ∨
      store.runCheck settings mode d v = store.runCheck settings' mode d v := by
  have hbound := Nat.succ_le_succ (Limit.bound_le_bound h h' hle)
  exact (store.check_extends _ _ hbound mode d v [] #[]).lacksLevels_or_eq h

theorem validate_hasThreshold (d : Descriptor) (v : Value) :
    HasThreshold (fun _ => True) (fun settings => validate settings d v) := by
  apply hasThreshold_of_extends
  intro settings settings' levels levels' _ _ h h' hle
  rcases runCheck_extends h h' hle .silent d v with hlack | heq
  · exact .inl ((lacksLevels_map _).mpr hlack)
  · refine .inr ?_
    unfold validate
    rw [heq]

theorem explain_hasThreshold (d : Descriptor) (v : Value) (collects : Bool) :
    HasThreshold (fun settings => settings.collectAll.truthy = collects)
      (fun settings => explain settings d v) := by
  apply hasThreshold_of_extends
  intro settings settings' levels levels' hc hc' h h' hle
  simp only [explain, hc, hc']
  rcases runCheck_extends h h' hle (if collects then .all else .first) d v with hlack | heq
  · exact .inl ((lacksLevels_map _).mpr hlack)
  · exact .inr (by rw [heq])

namespace Store

theorem validate_hasThreshold (store : Store) (d v : Ref) :
    HasThreshold (fun _ => True) (fun settings => store.validate settings d v) := by
  unfold validate
  cases store.trees? d v with
  | some pair => exact DataSchema.validate_hasThreshold pair.1 pair.2
  | none =>
    apply hasThreshold_of_extends
    intro settings settings' levels levels' _ _ h h' hle
    dsimp only
    rcases store.runCheck_extends h h' hle .silent (.object d) v with hlack | heq
    · exact .inl ((lacksLevels_map _).mpr hlack)
    · exact .inr (by rw [heq])

theorem explain_hasThreshold (store : Store) (d v : Ref) (collects : Bool) :
    HasThreshold (fun settings => settings.collectAll.truthy = collects)
      (fun settings => store.explain settings d v) := by
  unfold explain
  cases store.trees? d v with
  | some pair => exact DataSchema.explain_hasThreshold pair.1 pair.2 collects
  | none =>
    apply hasThreshold_of_extends
    intro settings settings' levels levels' hc hc' h h' hle
    simp only [hc, hc']
    rcases store.runCheck_extends h h' hle (if collects then .all else .first) (.object d) v with
      hlack | heq
    · exact .inl (hlack.bind _)
    · exact .inr (by rw [heq])

end Store

/-- Validations and explanations have a threshold, for all descriptors and values and for all
objects, which may hold themselves. An explanation that lists all failures has one of its own. -/
theorem outcomes_have_thresholds :
    (∀ d v, HasThreshold (fun _ => True) (fun settings => validate settings d v) ∧
      ∀ collects, HasThreshold (fun settings => settings.collectAll.truthy = collects)
        (fun settings => explain settings d v)) ∧
    ∀ (store : Store) (d v : Ref),
      HasThreshold (fun _ => True) (fun settings => store.validate settings d v) ∧
      ∀ collects, HasThreshold (fun settings => settings.collectAll.truthy = collects)
        (fun settings => store.explain settings d v) :=
  ⟨fun d v => ⟨validate_hasThreshold d v, explain_hasThreshold d v⟩,
    fun store d v => ⟨store.validate_hasThreshold d v, store.explain_hasThreshold d v⟩⟩

end DataSchema
