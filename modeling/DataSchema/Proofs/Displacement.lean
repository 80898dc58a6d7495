import DataSchema.Proofs.FirstFailure

/-!
Checks in the middle of a run. A check is made at a depth, below a place and after some issues, and
its outcome depends on none of them: it is that of a check from the start with as many levels left,
and what it writes down comes after the issues from before, below the place where it is made. Both
the engine for values and the one for objects, which may hold themselves, obey this law.
-/

namespace DataSchema

/-! ### Displaced outcomes -/

/-- The same failure under another limit, which only failures for want of levels show. -/
def Error.underLimit (shown : Value) : Error → Error
  | nestedTooDeep _ kind => nestedTooDeep shown kind
  | e => e

theorem Error.eq_underLimit {e : Error} (shown : Value) (h : e.family ≠ .nesting) :
    e = e.underLimit shown := by
  cases e with
  | nestedTooDeep => exact absurd rfl h
  | _ => rfl

/-- Limits that both bound the levels, or both do not, fail alike but for what they are shown as. -/
theorem Limit.overrun_eq_underLimit {limit limit' : Limit}
    (h : limit'.levels.isSome = limit.levels.isSome) (kind : Kind) :
    limit'.overrun kind = (limit.overrun kind).underLimit limit'.shown := by
  unfold overrun
  rw [h]
  cases limit.levels.isSome <;> rfl

namespace Outcome

/-- What comes of a check that is made below a base, after other issues and under another limit. -/
def displaced (shown : Value) (base : Path) (before : Array Issue) : Outcome → Outcome
  | .ok (ok, new) => .ok (ok, before ++ new.map (·.under base))
  | .error e => .error (e.underLimit shown)

/-- The outcome without what was written down, after issues from before. -/
def unwritten (before : Array Issue) : Outcome → Outcome
  | .ok (ok, _) => .ok (ok, before)
  | .error e => .error e

end Outcome

/-- The first test does elsewhere what the second does, whatever was written down before. -/
def Test.Displaces (shown : Value) (base : Path) : Test → Test → Prop :=
  Test.Records (fun e e' => e = e'.underLimit shown) fun i j => i = j.under base

variable {shown : Value} {base : Path}

namespace Test.Displaces

variable {s t t' : Test}

theorem eq_displaced (h : s.Displaces shown base t) (before : Array Issue) :
    s before = Outcome.displaced shown base before (t #[]) := by
  have hrecorded := h before #[]
  generalize s before = r, t #[] = r' at hrecorded ⊢
  cases hrecorded with
  | error he => exact congrArg Except.error he
  | @answer ok after after' new new' hafter hafter' hmatch =>
    obtain rfl : new = new'.map (·.under base) := by
      rwa [← List.forall₂_eq_eq_eq, List.forall₂_map_right_iff]
    have hnew : after'.toList = new' := hafter'
    have hall : after = before ++ after'.map (·.under base) := by
      apply Array.toList_inj.mp
      rw [hafter, Array.toList_append, Array.toList_map, hnew]
    rw [hall]
    rfl

/-- A test that writes nothing down does elsewhere what one does that writes something down, apart
from that. -/
theorem eq_unwritten (h : s.Displaces shown base t) (hmute : s.Mute s) (ht : t.SameAnswer t')
    (before : Array Issue) :
    s before = (Outcome.displaced shown base before (t' #[])).unwritten before := by
  have hsame : (Outcome.displaced shown base before (t #[])).unwritten before =
      (Outcome.displaced shown base before (t' #[])).unwritten before := by
    have houtcome := ht #[] #[]
    generalize t #[] = r, t' #[] = r' at houtcome ⊢
    cases houtcome <;> rfl
  rw [← hsame, ← h.eq_displaced before]
  have hmuted := hmute before before
  generalize s before = r at hmuted ⊢
  cases hmuted <;> rfl

end Test.Displaces

theorem lockstep_displaces (mode : Recording) (shown : Value) (base : Path) :
    Lockstep mode mode base (Test.Displaces shown base) (Test.Displaces shown base) :=
  (accord_records mode base _ Eq fun _ _ => Issue.matches_eq_iff.mp).lockstep fun _ =>
    Error.eq_underLimit shown

section Check

variable {limit limit' : Limit} (h : limit'.levels.isSome = limit.levels.isSome)
include h

theorem check_displaces (levels : Nat) (mode : Recording) (d : Descriptor) (v : Value)
    (path : Path) : Test.Displaces limit'.shown base (check limit' levels mode d v (base ++ path))
      (check limit levels mode d v path) := by
  induction levels generalizing mode d v path with
  | zero => exact fun _ _ => .error (Limit.overrun_eq_underLimit h d.kind)
  | succ levels ih =>
    apply check_succ_related (lockstep_displaces mode limit'.shown base)
    · exact fun e _ w q => ih mode e w q
    · exact fun e _ w q => ih .silent e w q

namespace Store

omit h in
/-- A name that is no step of a path can be written down nowhere. -/
theorem checkField_displaces {part part' : SubjectCheck}
    (hpart : ∀ mode e w q,
      Test.Displaces shown base (part mode e w (base ++ q)) (part' mode e w q))
    (mode : Recording) (name : Value) (d : Subject) (v : Ref) (path : Path) :
    Test.Displaces shown base (checkField part mode name d v (base ++ path))
      (checkField part' mode name d v path) := by
  cases hname : Step.ofValue? name with
  | some step =>
    rw [checkField_of_step hname, checkField_of_step hname, List.append_assoc]
    exact hpart mode d v _
  | none =>
    have hfirst := hpart .first d v path #[] #[]
    intro before before'
    simp only [checkField, hname]
    cases mode with
    | silent => exact hpart .silent d v path before before'
    | first | all =>
      generalize part .first d v (base ++ path) #[] = r, part' .first d v path #[] = r' at hfirst ⊢
      cases hfirst with
      | error he => exact .error he
      | answer ok =>
        cases ok with
        | true => exact .answer true (List.append_nil _).symm (List.append_nil _).symm .nil
        | false => exact .error rfl

theorem check_displaces (store : Store) (levels : Nat) (mode : Recording) (s : Subject) (v : Ref)
    (path : Path) :
    Test.Displaces limit'.shown base (store.check limit' levels mode s v (base ++ path))
      (store.check limit levels mode s v path) := by
  have hlockstep := fun mode => lockstep_displaces mode limit'.shown base
  induction levels generalizing mode s v path with
  | zero =>
    simp only [check]
    cases hkind : store.kindOf? s with
    | ok kind => exact fun _ _ => .error (Limit.overrun_eq_underLimit h kind)
    | error e => exact (hlockstep mode).raise_of_error (store.not_lacksLevels_kindOf? s) hkind
  | succ levels ih =>
    apply check_succ_related store (hlockstep mode) (hlockstep .silent).pass
    · exact fun e _ w q => ih mode e w q
    · exact fun e _ w q => ih .silent e w q
    · exact fun _ _ name e _ w => checkField_displaces ih mode name e w path

end Store

end Check

/-! ### Depths -/

/-- A check takes nothing from its limit but how the want of levels fails. -/
theorem check_congr {limit limit' : Limit} (h : ∀ kind, limit.overrun kind = limit'.overrun kind)
    (levels : Nat) : check limit levels = check limit' levels := by
  induction levels with
  | zero =>
    funext mode d v path
    simp only [check, h]
  | succ levels ih =>
    funext mode d v path
    simp only [check, ih]

theorem Store.check_congr (store : Store) {limit limit' : Limit}
    (h : ∀ kind, limit.overrun kind = limit'.overrun kind) (levels : Nat) :
    store.check limit levels = store.check limit' levels := by
  induction levels with
  | zero =>
    funext mode s v path
    simp only [check, h]
  | succ levels ih =>
    funext mode s v path
    simp only [check, ih]

namespace Extended

/-- A number and so many more. -/
def plus (n : Int) : Extended → Extended
  | finite q => finite (q + n)
  | number => number

theorem below_intCast_iff (q : Rat) (n : Int) :
    (finite q).below (finite n) = true ↔ q.floor < n := by
  rw [below_finite, decide_eq_true_iff]
  exact Rat.floor_lt_iff.symm

/-- How many whole numbers there are from a depth up to a number, if they come to an end. -/
def levelsFrom (depth : Int) : Extended → Option Nat
  | finite q => some (q.floor + 1 - depth).toNat
  | minusInfinity => some 0
  | plusInfinity | nan => none

variable {number : Extended} {depth : Int}

theorem levelsFrom_of_below (h : number.below (finite depth) = true) :
    number.levelsFrom depth = some 0 := by
  cases number with
  | finite q =>
    rw [below_intCast_iff] at h
    exact congrArg some (by omega)
  | minusInfinity => rfl
  | plusInfinity | nan => simp [below] at h

theorem levelsFrom_of_not_below (h : number.below (finite depth) = false) :
    number.levelsFrom depth = (number.levelsFrom (depth + 1)).map (· + 1) := by
  cases number with
  | finite q =>
    rw [Bool.eq_false_iff, ne_eq, below_intCast_iff] at h
    have hsucc : (q.floor + 1 - depth).toNat = (q.floor + 1 - (depth + 1)).toNat + 1 := by omega
    exact congrArg some hsucc
  | minusInfinity => simp [below] at h
  | plusInfinity | nan => rfl

theorem levelsFrom_plus (number : Extended) (depth shift : Int) :
    (number.plus shift).levelsFrom (depth + shift) = number.levelsFrom depth := by
  cases number with
  | finite q =>
    have hfloor : (q + shift).floor = q.floor + shift := Rat.floor_add_intCast
    exact congrArg some (by omega)
  | _ => rfl

end Extended

/-- The deepest depth at which a run may check, in the form it was given. -/
structure Bound where
  shown : Value
  number : Extended
  number_eq : shown.number? = some number

theorem Value.number?_int (n : Int) : (Value.int n).number? = some (.finite n) := rfl

namespace Bound

def ofInt (n : Int) : Bound := ⟨.int n, .finite n, Value.number?_int n⟩

/-- The levels that the bound leaves to a check at a depth, if these are no more than there is room
for. -/
def left (b : Bound) (room : Nat) (depth : Int) : Limit where
  shown := b.shown
  levels := (b.number.levelsFrom depth).filter (· ≤ room)

/-- A check at a depth, with room for so many levels and no more, whatever the bound leaves. -/
def check (b : Bound) (room : Nat) (depth : Int) : PartCheck :=
  let limit := b.left room depth
  DataSchema.check limit (limit.levels.getD room)

/-- A check of an object at a depth. -/
def checkObject (b : Bound) (store : Store) (room : Nat) (depth : Int) : Store.SubjectCheck :=
  let limit := b.left room depth
  store.check limit (limit.levels.getD room)

variable {b b' : Bound} {room : Nat} {depth : Int}

/-- Nothing is left at depths beyond the bound. -/
theorem levels_of_below (h : b.number.below (.finite depth) = true) (room : Nat) :
    (b.left room depth).levels = some 0 := by
  simp [left, Extended.levelsFrom_of_below h]

/-- Up to the bound a check leaves a level less to the checks that it makes. -/
theorem levels_succ (h : b.number.below (.finite depth) = false) (room : Nat) :
    (b.left (room + 1) depth).levels = (b.left room (depth + 1)).levels.map (· + 1) := by
  simp only [left, Extended.levelsFrom_of_not_below h]
  cases b.number.levelsFrom (depth + 1) <;> simp [Option.filter, apply_ite (Option.map _)]

/-- Up to the bound there is a level left for a check, but there may be no room for it. -/
theorem levels_zero (h : b.number.below (.finite depth) = false) :
    (b.left 0 depth).levels = none := by
  simp only [left, Extended.levelsFrom_of_not_below h]
  cases b.number.levelsFrom (depth + 1) <;> simp

/-- A bound that is raised leaves to a check that is made deeper by as much what it left before. -/
theorem levels_shift {shift : Int} (h : b'.number = b.number.plus shift) (room : Nat)
    (depth : Int) : (b'.left room (depth + shift)).levels = (b.left room depth).levels := by
  simp only [left, h, Extended.levelsFrom_plus]

/-- Up to the bound a check fails for want of levels as the checks do that it makes. -/
theorem overrun_succ (h : b.number.below (.finite depth) = false) (room : Nat) (kind : Kind) :
    (b.left (room + 1) depth).overrun kind = (b.left room (depth + 1)).overrun kind := by
  unfold Limit.overrun
  rw [levels_succ h, Option.isSome_map]
  rfl

theorem getD_levels_succ (h : b.number.below (.finite depth) = false) (room : Nat) :
    (b.left (room + 1) depth).levels.getD (room + 1) =
      (b.left room (depth + 1)).levels.getD room + 1 := by
  rw [levels_succ h]
  cases (b.left room (depth + 1)).levels <;> rfl

/-! ### How checks at a depth are made -/

/-- A check beyond the bound fails. -/
theorem check_of_below (h : b.number.below (.finite depth) = true) (room : Nat) (mode : Recording)
    (d : Descriptor) (v : Value) (path : Path) :
    b.check room depth mode d v path = .raise (.nestedTooDeep b.shown d.kind) := by
  simp only [check, levels_of_below h, Option.getD_some, DataSchema.check, Limit.overrun]
  rfl

theorem check_zero (h : b.number.below (.finite depth) = false) (mode : Recording) (d : Descriptor)
    (v : Value) (path : Path) : b.check 0 depth mode d v path = .raise .endless := by
  simp only [check, levels_zero h, Option.getD_none, DataSchema.check, Limit.overrun]
  rfl

/-- A check up to the bound makes its own checks one level deeper. -/
theorem check_succ (h : b.number.below (.finite depth) = false) (room : Nat) (mode : Recording)
    (d : Descriptor) (v : Value) (path : Path) :
    b.check (room + 1) depth mode d v path =
      let part := b.check room (depth + 1)
      match d.derived? with
      | none => rule part mode d v path
      | some shape => (part mode shape v path).andThen (rule part mode d v path) := by
  simp only [check, getD_levels_succ h, check_congr (overrun_succ h room)]
  rfl

theorem checkObject_of_below (h : b.number.below (.finite depth) = true) {store : Store}
    {s : Store.Subject} {kind : Kind} (hkind : store.kindOf? s = .ok kind) (room : Nat)
    (mode : Recording) (v : Ref) (path : Path) :
    b.checkObject store room depth mode s v path = .raise (.nestedTooDeep b.shown kind) := by
  simp only [checkObject, levels_of_below h, Option.getD_some, Store.check, hkind, Limit.overrun]
  rfl

theorem checkObject_zero (h : b.number.below (.finite depth) = false) {store : Store}
    {s : Store.Subject} {kind : Kind} (hkind : store.kindOf? s = .ok kind) (mode : Recording)
    (v : Ref) (path : Path) : b.checkObject store 0 depth mode s v path = .raise .endless := by
  simp only [checkObject, levels_zero h, Option.getD_none, Store.check, hkind, Limit.overrun]
  rfl

theorem checkObject_succ (h : b.number.below (.finite depth) = false) (store : Store) (room : Nat)
    (mode : Recording) (s : Store.Subject) (v : Ref) (path : Path) :
    b.checkObject store (room + 1) depth mode s v path =
      let part := b.checkObject store room (depth + 1)
      match store.derived? s with
      | .error e => .raise e
      | .ok none => store.ruleOf part mode s v path
      | .ok (some shape) =>
        (part mode shape v path).andThen (store.ruleOf part mode s v path) := by
  simp only [checkObject, getD_levels_succ h, store.check_congr (overrun_succ h room)]
  rfl

end Bound

/-- The bound that a depth puts on a run, which no depth raises above the ceiling. -/
def Depth.bound (depth : Depth) : Bound :=
  if (Extended.finite ceiling).below depth.number then .ofInt ceiling
  else ⟨depth.given, depth.number, depth.number_eq⟩

/-- At the root a check has all levels of a limit and its own. -/
theorem Depth.left_bound (depth : Depth) : depth.bound.left (Limit.room + 1) 0 =
    ⟨depth.limit.shown, depth.limit.levels.map (· + 1)⟩ := by
  obtain ⟨given, number, hnumber, hone⟩ := depth
  simp only [bound, limit]
  split
  · rfl
  · next hceiling =>
    cases number with
    | nan => rfl
    | plusInfinity => simp [Extended.below] at hceiling
    | minusInfinity => simp [Extended.below] at hone
    | finite q =>
      have hle : q.floor.toNat ≤ Limit.room := by
        have hlevels : (⟨given, .finite q, hnumber, hone⟩ : Depth).limit.levels =
            some q.floor.toNat := by simp [limit, hceiling]
        exact (levels_le_ceiling _ hlevels).trans (by decide)
      have hpos : 1 ≤ q.floor := by
        rw [Extended.below_finite, decide_eq_false_iff_not, Rat.not_lt] at hone
        exact Rat.le_floor_iff.mpr (by exact_mod_cast hone)
      have hsucc : (q.floor + 1).toNat = q.floor.toNat + 1 := by omega
      simp [Bound.left, Extended.levelsFrom, Option.filter, hle, hsucc]

theorem Depth.overrun_bound (depth : Depth) (kind : Kind) :
    (depth.bound.left (Limit.room + 1) 0).overrun kind = depth.limit.overrun kind := by
  rw [left_bound]
  unfold Limit.overrun
  rw [Option.isSome_map]

theorem Depth.getD_levels_bound (depth : Depth) :
    (depth.bound.left (Limit.room + 1) 0).levels.getD (Limit.room + 1) =
      depth.limit.bound + 1 := by
  rw [left_bound]
  unfold Limit.bound
  cases depth.limit.levels <;> rfl

/-- A run is a check at depth zero. -/
theorem runCheck_eq_check (settings : Settings) (mode : Recording) (d : Descriptor) (v : Value) :
    runCheck settings mode d v =
      settings.depth.bound.check (Limit.room + 1) 0 mode d v [] #[] := by
  simp only [runCheck, Bound.check, Depth.getD_levels_bound,
    check_congr settings.depth.overrun_bound]

theorem Store.runCheck_eq_checkObject (store : Store) (settings : Settings) (mode : Recording)
    (s : Subject) (v : Ref) : store.runCheck settings mode s v =
      settings.depth.bound.checkObject store (Limit.room + 1) 0 mode s v [] #[] := by
  simp only [runCheck, Bound.checkObject, Depth.getD_levels_bound,
    store.check_congr settings.depth.overrun_bound]

/-! ### Main statement -/

/-- A check that is made deeper under a bound raised by as much, below a base and after some issues,
comes out as the check from the start: with the same answer or the same failure, and with its issues
below the base after those from before. If nothing is written down, it comes out as the check that
stops at its first failure. -/
theorem displaced_checks_agree {b b' : Bound} {shift : Int}
    (h : b'.number = b.number.plus shift) (room : Nat) (depth : Int) (base path : Path)
    (before : Array Issue) :
    (∀ d v, (∀ mode, b'.check room (depth + shift) mode d v (base ++ path) before =
        Outcome.displaced b'.shown base before (b.check room depth mode d v path #[])) ∧
      b'.check room (depth + shift) .silent d v (base ++ path) before =
        (Outcome.displaced b'.shown base before
          (b.check room depth .first d v path #[])).unwritten before) ∧
    ∀ (store : Store) (s : Store.Subject) (v : Ref),
      (∀ mode, b'.checkObject store room (depth + shift) mode s v (base ++ path) before =
        Outcome.displaced b'.shown base before
          (b.checkObject store room depth mode s v path #[])) ∧
      (store.FieldsNamed →
        b'.checkObject store room (depth + shift) .silent s v (base ++ path) before =
          (Outcome.displaced b'.shown base before
            (b.checkObject store room depth .first s v path #[])).unwritten before) := by
  have hlevels := Bound.levels_shift h room depth
  have hsome := congrArg Option.isSome hlevels
  simp only [Bound.check, Bound.checkObject, hlevels]
  constructor
  · intro d v
    refine ⟨fun mode => (check_displaces hsome _ mode d v path).eq_displaced before, ?_⟩
    exact (check_displaces hsome _ .silent d v path).eq_unwritten (check_mute _ _ d v _)
      (check_sameAnswer _ _ rfl rfl d v path) before
  · intro store s v
    refine ⟨fun mode => (store.check_displaces hsome _ mode s v path).eq_displaced before, ?_⟩
    intro hnamed
    exact (store.check_displaces hsome _ .silent s v path).eq_unwritten (store.check_mute _ _ s v _)
      (store.check_sameAnswer hnamed _ _ rfl rfl s v path) before

/-- Rows with a text among numbers, and a list that holds itself against lists that do: what they
come to at the start with two levels, they come to below a name with three. -/
theorem displaced_checks_agree_loop :
    let b : Bound := .ofInt 2
    let b' : Bound := .ofInt 3
    let d : Descriptor := .list (.list .number)
    let v : Value := .list [.list [.int 1, .string "x"]]
    let before : Array Issue := #[⟨[.key "name"], .string, .notText .null⟩]
    let store : Store := ⟨#[.plain .null, .descriptor .list 1, .list [3, 2], .plain (.int 5)]⟩
    b'.number = b.number.plus 1 ∧
      b'.check 9 1 .all d v [.key "rows"] before = .ok (false,
        before.push ⟨[.key "rows", .index 0, .index 1], .number, .notNumber (.string "x")⟩) ∧
      b'.check 9 1 .silent d v [.key "rows"] before = .ok (false, before) ∧ store.FieldsNamed ∧
      b'.checkObject store 9 1 .all (.object 1) 2 [.key "rows"] before =
        .error (.nestedTooDeep (.int 3) .list) ∧
      b'.checkObject store 9 1 .silent (.object 1) 2 [.key "rows"] before =
        .ok (false, before) := by
  intro b b' d v before store
  have hshift : b'.number = b.number.plus 1 := congrArg Extended.finite (Rat.intCast_add 2 1)
  have hnamed : store.FieldsNamed := by
    intro r fields hform
    match r with
    | 0 | 1 | 2 | 3 | _ + 4 => contradiction
  obtain ⟨hvalues, hobjects⟩ := displaced_checks_agree hshift 9 0 [.key "rows"] [] before
  obtain ⟨hvalue, hvalue'⟩ := hvalues d v
  obtain ⟨hobject, hobject'⟩ := hobjects store (.object 1) 2
  have hfound : b.check 9 0 .all d v [] #[] =
      .ok (false, #[⟨[.index 0, .index 1], .number, .notNumber (.string "x")⟩]) := rfl
  have hissue : b'.check 9 1 .all d v [.key "rows"] before = .ok (false,
      before.push ⟨[.key "rows", .index 0, .index 1], .number, .notNumber (.string "x")⟩) := by
    refine (hvalue .all).trans ?_
    rw [hfound]
    simp [Outcome.displaced, Issue.under]
  exact ⟨hshift, hissue, hvalue', hnamed, hobject .all, hobject' hnamed⟩

end DataSchema
