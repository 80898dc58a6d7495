import DataSchema.Proofs.Store.Lockstep

/-!
Depths of any form act as whole numbers up to the ceiling. Main statement: under settings that are
accepted the engine comes out as under such a whole number, but for the limit that a failure for
want of levels shows. The one exception is a depth that is no number: it bounds nothing, and there
is no whole number in whose place it stands.
-/

namespace DataSchema

/-! ### Outcomes under limits that allow the same levels -/

/-- Outcomes that differ at most in the limit that a failure for want of levels shows. -/
inductive Reworded {α : Type} : Except Error α → Except Error α → Prop where
  | same (r : Except Error α) : Reworded r r
  | limit (shown shown' : Value) (kind : Kind) :
    Reworded (.error (.nestedTooDeep shown kind)) (.error (.nestedTooDeep shown' kind))

namespace Reworded

variable {α β : Type} {r r' : Except Error α}

theorem bind {f f' : α → Except Error β} (hr : Reworded r r') (hf : ∀ a, Reworded (f a) (f' a)) :
    Reworded (r >>= f) (r' >>= f') := by
  cases hr with
  | limit shown shown' kind => exact .limit shown shown' kind
  | same =>
    cases r with
    | error e => exact .same _
    | ok a => exact hf a

theorem map (f : α → β) (hr : Reworded r r') : Reworded (r.map f) (r'.map f) :=
  hr.bind fun a => .same (.ok (f a))

end Reworded

/-- A limit that bounds the levels fails for want of them as any other that does. -/
theorem Limit.overrun_reworded {limit limit' : Limit} {levels levels' : Nat} {α : Type}
    (h : limit.levels = some levels) (h' : limit'.levels = some levels') (kind : Kind) :
    Reworded (.error (limit.overrun kind) : Except Error α) (.error (limit'.overrun kind)) := by
  simp only [overrun, h, h', Option.isSome_some, if_true]
  exact .limit limit.shown limit'.shown kind

/-- Tests that come out alike, whatever was written down before. -/
def Test.Reworded (s t : Test) : Prop := ∀ issues, DataSchema.Reworded (s issues) (t issues)

theorem lockstep_reworded (mode : Recording) :
    Lockstep mode mode [] Test.Reworded Test.Reworded where
  pass := fun _ => .same _
  fail := fun _ _ _ _ => .same _
  raise := fun _ _ => .same _
  andThen := by
    intro s s' t t' hs ht issues
    refine (hs issues).bind ?_
    rintro ⟨ok, later⟩
    cases ok with
    | true => exact ht later
    | false => exact .same _
  orElse := by
    intro s s' t t' hs ht issues
    refine (hs issues).bind ?_
    rintro ⟨ok, later⟩
    cases ok with
    | true => exact .same _
    | false => exact ht later
  also := by
    intro s s' t t' hs ht issues
    refine (hs issues).bind ?_
    rintro ⟨ok, later⟩
    cases ok with
    | true => exact ht later
    | false =>
      cases mode.stopsEarly with
      | true => exact .same _
      | false => exact (ht later).bind fun _ => .same _

section Check

variable {limit limit' : Limit} {bound bound' : Nat} (h : limit.levels = some bound)
  (h' : limit'.levels = some bound')
include h h'

theorem check_reworded (levels : Nat) (mode : Recording) (d : Descriptor) (v : Value)
    (path : Path) :
    Test.Reworded (check limit levels mode d v path) (check limit' levels mode d v path) := by
  induction levels generalizing mode d v path with
  | zero => exact fun _ => Limit.overrun_reworded h h' d.kind
  | succ levels ih =>
    apply check_succ_related (lockstep_reworded mode)
    · exact fun e _ w q => ih mode e w q
    · exact fun e _ w q => ih .silent e w q

namespace Store

omit h h' in
theorem checkField_reworded {part part' : SubjectCheck}
    (hpart : ∀ mode e w q, Test.Reworded (part mode e w q) (part' mode e w q)) (mode : Recording)
    (name : Value) (d : Subject) (v : Ref) (path : Path) :
    Test.Reworded (checkField part mode name d v path) (checkField part' mode name d v path) := by
  cases hname : Step.ofValue? name with
  | some step => exact checkField_related (hpart mode) hname d v path
  | none =>
    intro issues
    simp only [checkField, hname]
    cases mode with
    | silent => exact hpart .silent d v path issues
    | first | all => exact (hpart .first d v path #[]).bind fun _ => .same _

theorem check_reworded (store : Store) (levels : Nat) (mode : Recording) (d : Subject) (v : Ref)
    (path : Path) : Test.Reworded (store.check limit levels mode d v path)
      (store.check limit' levels mode d v path) := by
  induction levels generalizing mode d v path with
  | zero =>
    cases hkind : store.kindOf? d with
    | ok kind =>
      simp only [check, hkind]
      exact fun _ => Limit.overrun_reworded h h' kind
    | error e =>
      simp only [check, hkind]
      exact fun _ => .same _
  | succ levels ih =>
    apply check_succ_related store (lockstep_reworded mode)
    · exact fun _ => .same _
    · exact fun e _ w q => ih mode e w q
    · exact fun e _ w q => ih .silent e w q
    · exact fun _ _ name e _ w => checkField_reworded ih mode name e w path

end Store

end Check

/-! ### Depths -/

namespace Depth

/-- A depth that is a number bounds the levels as a whole number up to the ceiling does. -/
theorem exists_levels (depth : Depth) (h : depth.number ≠ .nan) :
    ∃ m : Nat, 1 ≤ m ∧ m ≤ ceiling ∧ depth.limit.levels = some m := by
  obtain ⟨m, hm, hpos⟩ : ∃ m, depth.limit.levels = some m ∧ 1 ≤ m := by
    have hone := depth.not_below_one
    cases hnumber : depth.number with
    | nan => contradiction
    | minusInfinity => simp [hnumber, Extended.below] at hone
    | plusInfinity =>
      refine ⟨ceiling, ?_, by decide⟩
      simp [limit, hnumber, Extended.below]
    | finite q =>
      rw [hnumber, Extended.below_finite, decide_eq_false_iff_not, Rat.not_lt] at hone
      exact exists_levels_of_le hnumber (by exact_mod_cast hone) (by decide)
  exact ⟨m, hpos, depth.levels_le_ceiling hm, hm⟩

/-- Of all depths that are accepted only one is no number. -/
theorem number_ne_nan {given : Value} {depth : Depth} (h : make? given = .ok depth)
    (hgiven : given ≠ .float .nan) : depth.number ≠ .nan := by
  unfold make? at h
  split at h
  · contradiction
  · next number hnumber =>
    split at h
    · contradiction
    · next hdefined =>
      split at h
      · contradiction
      · obtain rfl := Except.ok.inj h
        rintro rfl
        cases given with
        | float x =>
          cases x with
          | nan => exact hgiven rfl
          | infinite negative => cases negative <;> cases hnumber
          | finite x => cases hnumber
        | decimal d =>
          cases d with
          | nan => exact hdefined rfl
          | infinite negative => cases negative <;> cases hnumber
          | finite negative digits => cases hnumber
        | _ => cases hnumber

end Depth

namespace Settings

/-- Settings under which the engine comes out as under others. -/
structure ActsAs (settings other : Settings) : Prop where
  validate (d : Descriptor) (v : Value) :
    Reworded (validate settings d v) (validate other d v)
  explain (d : Descriptor) (v : Value) : Reworded (explain settings d v) (explain other d v)
  validateObject (store : Store) (r v : Ref) :
    Reworded (store.validate settings r v) (store.validate other r v)
  explainObject (store : Store) (r v : Ref) :
    Reworded (store.explain settings r v) (store.explain other r v)

variable {settings other : Settings} {levels : Nat}

theorem runCheck_reworded (h : settings.depth.limit.levels = some levels)
    (h' : other.depth.limit.levels = some levels) (mode : Recording) (d : Descriptor) (v : Value) :
    Reworded (runCheck settings mode d v) (runCheck other mode d v) := by
  simp only [runCheck, Limit.bound_eq h, Limit.bound_eq h']
  exact check_reworded h h' (levels + 1) mode d v [] #[]

theorem runCheckObject_reworded (h : settings.depth.limit.levels = some levels)
    (h' : other.depth.limit.levels = some levels) (store : Store) (mode : Recording)
    (d : Store.Subject) (v : Ref) :
    Reworded (store.runCheck settings mode d v) (store.runCheck other mode d v) := by
  simp only [Store.runCheck, Limit.bound_eq h, Limit.bound_eq h']
  exact store.check_reworded h h' (levels + 1) mode d v [] #[]

/-- Of settings the engine sees no more than the levels that they allow and what they record. -/
theorem actsAs_of_levels (h : settings.depth.limit.levels = some levels)
    (h' : other.depth.limit.levels = some levels)
    (hcollect : other.collectAll = settings.collectAll) :
    settings.ActsAs other := by
  have hvalidate (d : Descriptor) (v : Value) :
      Reworded (DataSchema.validate settings d v) (DataSchema.validate other d v) :=
    (runCheck_reworded h h' .silent d v).map _
  have hexplain (d : Descriptor) (v : Value) :
      Reworded (DataSchema.explain settings d v) (DataSchema.explain other d v) := by
    simp only [DataSchema.explain, hcollect]
    exact (runCheck_reworded h h' _ d v).map _
  refine ⟨hvalidate, hexplain, ?_, ?_⟩
  · intro store r v
    unfold Store.validate
    cases store.trees? r v with
    | some pair => exact hvalidate pair.1 pair.2
    | none => exact (runCheckObject_reworded h h' store .silent (.object r) v).map _
  · intro store r v
    unfold Store.explain
    cases store.trees? r v with
    | some pair => exact hexplain pair.1 pair.2
    | none =>
      simp only [hcollect]
      exact (runCheckObject_reworded h h' store _ (.object r) v).bind fun _ => .same _

theorem number_ne_nan_of_make? {depth collectAll : Option Value}
    (h : make? depth collectAll = .ok settings) (hdepth : depth ≠ some (.float .nan)) :
    settings.depth.number ≠ .nan := by
  cases depth with
  | none =>
    obtain rfl := Except.ok.inj h
    exact fun hnan => nomatch hnan
  | some given =>
    obtain ⟨accepted, haccepted, h⟩ := exists_of_bind_eq_ok h
    obtain rfl := Except.ok.inj h
    exact Depth.number_ne_nan haccepted fun hgiven => hdepth (congrArg some hgiven)

end Settings

/-! ### Lists within each other -/

/-- Lists of lists, so many levels down. -/
def Descriptor.lists : Nat → Descriptor
  | 0 => .any
  | n + 1 => .list (lists n)

/-- Lists that hold each other, so many levels down. -/
def Value.lists : Nat → Value
  | 0 => .null
  | n + 1 => .list [lists n]

theorem check_lists_succ (limit : Limit) (levels n : Nat) (path : Path) (issues : Array Issue)
    {r : Outcome} (h : check limit levels .silent (.lists n) (.lists n) (path ++ [.index 0])
      issues = r) (hr : r = .ok (true, issues) ∨ ∃ e, r = .error e) :
    check limit (levels + 1) .silent (.lists (n + 1)) (.lists (n + 1)) path issues = r := by
  have hrule : check limit (levels + 1) .silent (.lists (n + 1)) (.lists (n + 1)) path =
      .all .silent [check limit levels .silent (.lists n) (.lists n) (path ++ [.index 0])] := rfl
  rw [hrule]
  simp only [Test.all, h]
  rcases hr with rfl | ⟨e, rfl⟩ <;> rfl

theorem check_lists (limit : Limit) (issues : Array Issue) {n levels : Nat} (h : n < levels)
    (path : Path) : check limit levels .silent (.lists n) (.lists n) path issues =
      .ok (true, issues) := by
  induction n generalizing levels path with
  | zero =>
    obtain ⟨levels, rfl⟩ : ∃ k, levels = k + 1 := ⟨levels - 1, by omega⟩
    rfl
  | succ n ih =>
    obtain ⟨levels, rfl⟩ : ∃ k, levels = k + 1 := ⟨levels - 1, by omega⟩
    exact check_lists_succ limit levels n path issues (ih (by omega) _) (.inl rfl)

theorem check_lists_overrun (limit : Limit) (issues : Array Issue) {n levels : Nat}
    (h : levels ≤ n) (path : Path) : ∃ kind, check limit levels .silent (.lists n) (.lists n) path
      issues = .error (limit.overrun kind) := by
  induction n generalizing levels path with
  | zero =>
    obtain rfl : levels = 0 := by omega
    exact ⟨_, rfl⟩
  | succ n ih =>
    match levels with
    | 0 => exact ⟨_, rfl⟩
    | levels + 1 =>
      obtain ⟨kind, hkind⟩ := ih (show levels ≤ n by omega) (path ++ [.index 0])
      exact ⟨kind, check_lists_succ limit levels n path issues hkind (.inr ⟨_, rfl⟩)⟩

/-- Under levels enough, lists that hold each other conform. -/
theorem validate_lists {settings : Settings} {n : Nat} (h : n ≤ settings.depth.limit.bound) :
    validate settings (.lists n) (.lists n) = .ok true := by
  rw [validate, runCheck, check_lists _ _ (Nat.lt_succ_of_le h)]
  rfl

/-- Under levels too few, lists that hold each other fail for want of them. -/
theorem validate_lists_overrun {settings : Settings} {n : Nat}
    (h : settings.depth.limit.bound < n) : ∃ kind,
    validate settings (.lists n) (.lists n) = .error (settings.depth.limit.overrun kind) := by
  obtain ⟨kind, hkind⟩ := check_lists_overrun settings.depth.limit #[] (Nat.succ_le_of_lt h) []
  refine ⟨kind, ?_⟩
  rw [validate, runCheck, hkind]
  rfl

namespace Settings

/-- Settings of the depth that is no number, which are accepted. -/
def ofNan (collectAll : Value) : Settings :=
  ⟨⟨.float .nan, .nan, rfl, rfl⟩, collectAll⟩

theorem make?_nan (collectAll : Option Value) :
    make? (some (.float .nan)) collectAll = .ok (ofNan (collectAll.getD default.collectAll)) := rfl

/-- Lists that hold each other past the ceiling tell the depth that is no number from every whole
number: under that depth they conform, under a whole number they lack levels. -/
theorem not_actsAs_ofNan (collectAll : Value) {m : Int} (hm : 1 ≤ m) :
    ¬(ofNan collectAll).ActsAs ⟨.ofInt m hm, collectAll⟩ := by
  intro hacts
  obtain ⟨levels, -, hceiling, hlevels⟩ := (Depth.ofInt m hm).exists_levels fun h => nomatch h
  have hroom : Depth.ceiling + 1 ≤ (ofNan collectAll).depth.limit.bound :=
    show Depth.ceiling + 1 ≤ Limit.room by decide
  have hshort : (Settings.mk (.ofInt m hm) collectAll).depth.limit.bound < Depth.ceiling + 1 := by
    rw [Limit.bound_eq hlevels]
    exact Nat.lt_succ_of_le hceiling
  have hsame := hacts.validate (.lists (Depth.ceiling + 1)) (.lists (Depth.ceiling + 1))
  obtain ⟨kind, hoverrun⟩ := validate_lists_overrun hshort
  rw [validate_lists hroom, hoverrun] at hsame
  cases hsame

end Settings

/-- Settings that are accepted act as those of a whole number of levels between one and the ceiling,
which they allow, unless the depth is the float that is no number. With that depth they bound
nothing: lists that hold each other conform as far as there is room, and no whole number acts
alike. -/
theorem depth_acts_as_whole_number {depth collectAll : Option Value} {settings : Settings}
    (h : Settings.make? depth collectAll = .ok settings) :
    (depth ≠ some (.float .nan) → ∃ (m : Int) (hm : 1 ≤ m), m ≤ Depth.ceiling ∧
      settings.depth.limit.levels = some m.toNat ∧
      settings.ActsAs ⟨.ofInt m hm, settings.collectAll⟩) ∧
    (depth = some (.float .nan) → settings.depth.limit.levels = none ∧
      (∀ n ≤ Limit.room, validate settings (.lists n) (.lists n) = .ok true) ∧
      ∀ (m : Int) (hm : 1 ≤ m), ¬settings.ActsAs ⟨.ofInt m hm, settings.collectAll⟩) := by
  constructor
  · intro hdepth
    obtain ⟨m, hone, hceiling, hlevels⟩ :=
      settings.depth.exists_levels (Settings.number_ne_nan_of_make? h hdepth)
    have hm : 1 ≤ (m : Int) := by exact_mod_cast hone
    refine ⟨m, hm, by exact_mod_cast hceiling, hlevels, ?_⟩
    exact Settings.actsAs_of_levels hlevels (Depth.levels_ofInt hm (by exact_mod_cast hceiling)) rfl
  · rintro rfl
    obtain rfl := Except.ok.inj h
    exact ⟨rfl, fun n hn => validate_lists hn, fun m hm => Settings.not_actsAs_ofNan _ hm⟩

/-- Five halves as a depth. -/
def Depth.fiveHalves : Depth where
  given := .fraction ⟨5, 2, by decide, by decide⟩
  number := .finite ⟨5, 2, by decide, by decide⟩
  number_eq := rfl
  not_below_one := by decide

/-- Under a depth of five halves all comes out as under two levels, and under the depth that is no
number lists conform at the last level that there is room for. -/
theorem depth_acts_as_whole_number_cases :
    (∃ (m : Int) (hm : 1 ≤ m), m.toNat = 2 ∧
      Settings.ActsAs ⟨.fiveHalves, .bool false⟩ ⟨.ofInt m hm, .bool false⟩) ∧
    validate (.ofNan (.bool true)) (.lists 494) (.lists 494) = .ok true := by
  constructor
  · have haccepted : Settings.make? (some Depth.fiveHalves.given) (some (.bool false)) =
        .ok ⟨.fiveHalves, .bool false⟩ := rfl
    have hdepth : some Depth.fiveHalves.given ≠ some (.float .nan) :=
      fun h => nomatch Option.some.inj h
    obtain ⟨m, hm, -, hlevels, hacts⟩ := (depth_acts_as_whole_number haccepted).1 hdepth
    have htwo : Depth.fiveHalves.limit.levels = some 2 := rfl
    exact ⟨m, hm, (Option.some.inj (htwo.symm.trans hlevels)).symm, hacts⟩
  · exact ((depth_acts_as_whole_number (Settings.make?_nan none)).2 rfl).2.1 494 (Nat.le_refl _)

/-- The depth that is no number is accepted, though lists that hold each other past the ceiling
conform under it, and under every whole number fail for want of levels. -/
theorem undefined_depth_bounds_nothing :
    ∃ settings, Settings.make? (some (.float .nan)) none = .ok settings ∧
      settings.depth.limit.levels = none ∧
      validate settings (.lists 460) (.lists 460) = .ok true ∧
      ∀ (m : Int) (hm : 1 ≤ m), ¬settings.ActsAs ⟨.ofInt m hm, settings.collectAll⟩ :=
  ⟨_, Settings.make?_nan none, rfl,
    validate_lists (show 460 ≤ Limit.room by decide),
    fun _ hm => Settings.not_actsAs_ofNan _ hm⟩

end DataSchema
