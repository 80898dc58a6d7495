import DataSchema.Error
import DataSchema.Value.Equality

/-!
The order of the entries of a mapping by their keys. Texts are ordered by their characters. Other
keys are ordered by a procedure of comparisons, each of which may fail: a run at the front is kept
or turned round, and every further entry is put in its place by halving. A key that is no number
compares with nothing, so that the procedure decides where it comes to stand.
-/

namespace DataSchema.Json

/-- Whether a key comes before another. Texts and numbers compare, each among themselves. Where a
decimal is compared and one of the two is no number, the comparison fails in its own way. -/
def keyBelow? : Value → Value → Except Error Bool
  | .string s, .string t => .ok (s < t)
  | a, b => match a.number?, b.number? with
    | some m, some n =>
      if (isDecimal a || isDecimal b) && (m == .nan || n == .nan) then .error .undefinedNumber
      else .ok (m.below n)
    | _, _ => .error .notComparable
where
  isDecimal : Value → Bool
    | .decimal _ => true
    | _ => false

variable {α : Type}

/-- The length of the run that goes on from a key: each entry comes before the one before it, or
none does. -/
def runLength? (falling : Bool) (key : Value) : List (Value × α) → Except Error Nat
  | [] => .ok 0
  | (next, _) :: rest => do
    if (← keyBelow? next key) == falling then return (← runLength? falling next rest) + 1
    else return 0

/-- The place of a key between two positions of a sorted list, found by halving. -/
def place? (sorted : Array (Value × α)) (key : Value) : (steps low high : Nat) → Except Error Nat
  | 0, low, _ => .ok low
  | steps + 1, low, high =>
    let middle := (low + high) / 2
    match sorted[middle]? with
    | some (other, _) => do
      if high ≤ low then return low
      else if ← keyBelow? key other then place? sorted key steps low middle
      else place? sorted key steps (middle + 1) high
    | none => .ok low

/-- Puts an entry in its place in a sorted list. -/
def insert? (sorted : List (Value × α)) (entry : Value × α) :
    Except Error (List (Value × α)) := do
  let place ← place? sorted.toArray entry.1 (sorted.length + 1) 0 sorted.length
  return sorted.take place ++ entry :: sorted.drop place

/-- Sorts entries with keys of any kind. -/
def sortAny? : List (Value × α) → Except Error (List (Value × α))
  | (first, v) :: (second, w) :: rest => do
    let falling ← keyBelow? second first
    let length := (← runLength? falling second rest) + 1
    let entries := (second, w) :: rest
    let run := (first, v) :: entries.take length
    (entries.drop length).foldlM insert? (if falling then run.reverse else run)
  | entries => .ok entries

/-- Puts an entry in front of the first one whose key is not below its own. -/
def insertByKey (entry : String × α) : List (String × α) → List (String × α)
  | [] => [entry]
  | other :: rest =>
    if other.1 < entry.1 then other :: insertByKey entry rest else entry :: other :: rest

/-- Sorts entries with keys that are texts. -/
def sortByKey (entries : List (String × α)) : List (String × α) := entries.foldr insertByKey []

/-- The entries under their keys as texts, if all keys are texts. -/
def named? (entries : List (Value × α)) : Option (List (String × α)) :=
  entries.mapM fun
    | (.string name, v) => some (name, v)
    | _ => none

def sort? (entries : List (Value × α)) : Except Error (List (Value × α)) :=
  match named? entries with
  | some named => .ok ((sortByKey named).map fun (name, v) => (.string name, v))
  | none => sortAny? entries

end DataSchema.Json
