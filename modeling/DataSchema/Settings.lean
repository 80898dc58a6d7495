import DataSchema.Error

/-!
Settings of the engine, and the limit they put on nesting.
-/

namespace DataSchema

/-- A nesting depth in the form it was given: any number that is not below one. -/
structure Depth where
  given : Value
  number : Extended
  number_eq : given.number? = some number
  not_below_one : number.below (.finite 1) = false

namespace Depth

/-- A decimal that is no number compares with nothing. -/
def isUndefined : Value → Bool
  | .decimal (.nan _ _ _) => true
  | _ => false

def make? (given : Value) : Except Error Depth :=
  match h : given.number? with
  | none => .error .notComparable
  | some number =>
    if isUndefined given then .error .undefinedNumber
    else if below : number.below (.finite 1) = true then .error (.depthBelowOne given)
    else .ok ⟨given, number, h, by simpa using below⟩

def ofInt (n : Int) (h : 1 ≤ n) : Depth where
  given := .int n
  number := .finite n
  number_eq := rfl
  not_below_one := by
    rw [Extended.below_finite, decide_eq_false_iff_not, Rat.not_lt]
    exact Rat.intCast_le_intCast.mpr h

/-- The deepest nesting that any settings allow. -/
def ceiling : Nat := 450

end Depth

/-- A bound on nesting. It is shown in the form it was given; `levels` is the number of levels
below the root that it allows, if it bounds them at all. -/
structure Limit where
  shown : Value
  levels : Option Nat

namespace Limit

/-- The levels that there is room for when nothing bounds them. -/
def room : Nat := 494

/-- The levels below the root. -/
def bound (limit : Limit) : Nat := limit.levels.getD room

/-- The failure for want of levels, at a descriptor of a kind. -/
def overrun (limit : Limit) (kind : Kind) : Error :=
  if limit.levels.isSome then .nestedTooDeep limit.shown kind else .endless

end Limit

/-- The depth, or the ceiling if that is lower. A depth that is not a whole number allows the levels
below it, and one that compares with nothing allows all. -/
def Depth.limit (depth : Depth) : Limit :=
  if (Extended.finite Depth.ceiling).below depth.number then
    ⟨.int Depth.ceiling, some Depth.ceiling⟩
  else match depth.number with
    | .finite q => ⟨depth.given, some q.floor.toNat⟩
    | _ => ⟨depth.given, none⟩

structure Settings where
  depth : Depth
  /-- Whether an explanation lists all failures or only the first: it counts by its truth. -/
  collectAll : Value

namespace Settings

def default : Settings where
  depth := .ofInt 256 (by decide)
  collectAll := .bool true

/-- Settings from the values of those that are given. -/
def make? (depth collectAll : Option Value) : Except Error Settings := do
  let depth ← match depth with
    | some given => Depth.make? given
    | none => .ok default.depth
  return ⟨depth, collectAll.getD default.collectAll⟩

end Settings

end DataSchema
