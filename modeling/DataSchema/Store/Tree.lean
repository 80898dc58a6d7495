import DataSchema.Json.Canonical
import DataSchema.Store
import DataSchema.Value.Nesting

/-!
The trees of objects. What is known of an object from what is known of those it holds is found for
each object once, in an order in which an object comes after those it holds; so shared objects cost
no more than others. Objects that hold themselves have no such order, and stubs stand in their
trees.
-/

namespace DataSchema.Store

/-- What is to be done next: to come to an object, or to leave it after all that it holds. -/
inductive Visit where
  | enter (r : Ref)
  | leave (r : Ref)

/-- Puts the objects that are left into a row. An object that is come to before it is left holds
itself. -/
def orderFrom (store : Store) : (steps : Nat) → (entered left : Array Bool) →
    (order : Array Ref) → List Visit → Option (Array Ref)
  | _, _, _, order, [] => some order
  | 0, _, _, _, _ => none
  | steps + 1, entered, left, order, .leave r :: visits =>
    store.orderFrom steps entered (left.setIfInBounds r true) (order.push r) visits
  | steps + 1, entered, left, order, .enter r :: visits =>
    if left.getD r true then store.orderFrom steps entered left order visits
    else if entered.getD r true then none
    else store.orderFrom steps (entered.setIfInBounds r true) left order
      ((store.cell r).refs.map .enter ++ .leave r :: visits)

/-- The objects that can be reached from one, each after those that it holds, if none holds itself.
Each object brings visits of what it holds and of itself once, which bounds the steps. -/
def order? (store : Store) (r : Ref) : Option (Array Ref) :=
  let unseen := Array.replicate store.cells.size false
  let steps := store.cells.foldl (fun n cell => n + cell.refs.length + 1) 1
  store.orderFrom steps unseen unseen #[] [.enter r]

/-- Whether no object that can be reached from one holds itself. -/
def isTree (store : Store) (r : Ref) : Bool := (store.order? r).isSome

/-- What is known of each object, from what is known of those it holds. -/
def sweep {α : Type} (store : Store) (blank : α) (know : (Ref → α) → Cell → α)
    (order : Array Ref) : Array α :=
  order.foldl (fun known r =>
    known.setIfInBounds r (know (known.getD · blank) (store.cell r)))
    (Array.replicate store.cells.size blank)

/-- The tree of an object down to a number of levels. Where an object is met below itself, and below
the last level, a stub stands. -/
def treeWithin (store : Store) : (levels : Nat) → (above : List Ref) → Ref → Value
  | 0, _, r => (store.cell r).stub
  | levels + 1, above, r =>
    if above.contains r then (store.cell r).stub
    else (store.cell r).assemble (store.treeWithin levels (r :: above))

/-- The tree of an object. No way down is longer than the objects are many without meeting one of
them twice. -/
def tree (store : Store) (r : Ref) : Value :=
  match store.cell r with
  | .plain v => v
  | _ => match store.order? r with
    | some order => (store.sweep .null Cell.assemble order).getD r .null
    | none => store.treeWithin (store.cells.size + 1) [] r

/-- The tree of an object, which cannot be written if the object holds itself. -/
def whole? (store : Store) (r : Ref) : Except Error Value :=
  if store.isTree r then .ok (store.tree r) else .error .endless

/-- The tree of an object, or only a stub if the object holds itself. -/
def treeOrStub (store : Store) (r : Ref) : Value :=
  if store.isTree r then store.tree r else (store.cell r).stub

/-- The tree of a part. -/
def valueOf (store : Store) : Part → Value
  | .held r => store.tree r
  | .loose v => v

/-- The levels of collections in an object, given those of the objects that it holds. -/
def levelsOf (levels : Ref → Nat) (cell : Cell) : Nat :=
  match cell with
  | .plain _ => 0
  | _ => 1 + cell.refs.foldl (fun n r => max n (levels r)) 0

/-- Whether no way down from an object has more than so many levels. -/
def isWithin (store : Store) (levels : Nat) (r : Ref) : Bool :=
  match store.order? r with
  | some order => (store.sweep 0 levelsOf order).getD r 0 ≤ levels
  | none => false

/-- The canonical text of an object within so many levels, or the first failure in the order of
writing. -/
def canonicalWithin (store : Store) : (levels : Nat) → (above : List Ref) → Ref →
    Except Error String
  | 0, _, r => match store.cell r with
    | .plain v => Json.canonical? v
    | .list _ | .tuple _ | .dict _ => .error .endless
    | _ => .error .notSerializable
  | levels + 1, above, r =>
    let part := store.canonicalWithin levels (r :: above)
    match store.cell r with
    | .plain v => Json.canonical? v
    | .list items | .tuple items =>
      if above.contains r then .error .circular
      else do return Json.sequenceText (← items.mapM part)
    | .dict entries =>
      if above.contains r then .error .circular
      else Json.mappingText? (entries.map fun (key, v) => (store.face key, fun _ => part v))
    | _ => .error .notSerializable

/-- The levels that there is room for when a canonical text is made; one is taken to begin with. -/
def canonicalLevels : Nat := Room.whole.levels - 1

/-- The canonical text of an object. Where there is room for the tree it is that of the tree. -/
def canonical? (store : Store) (r : Ref) : Except Error String :=
  if store.isWithin canonicalLevels r then Json.canonical? (store.tree r)
  else store.canonicalWithin canonicalLevels [] r

end DataSchema.Store
