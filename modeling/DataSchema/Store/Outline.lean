import DataSchema.Graph
import DataSchema.Store.Tree

/-!
The graph of the descriptors in a store. A descriptor whose field was altered may hold what is no
descriptor, or nothing to walk over, and the keys in it may be anything. Where all is as builders
leave it, walks and descriptions are those of the graph; elsewhere each branch is taken for itself.
-/

namespace DataSchema

namespace Store

/-- A key and what lies under it, or why there are no two parts to take for these. -/
abbrev Branch := Except Error (Value × Part)

/-- What an object yields when it is walked over. -/
def partList? (store : Store) (r : Ref) : Except Error (List Part) :=
  match store.parts? r with
  | some parts => .ok parts
  | none => .error .notIterable

/-- The branches of a descriptor, in order. Other objects have none. -/
def branches? (store : Store) (r : Ref) : Except Error (List Branch) :=
  match store.cell r with
  | .descriptor .list held | .descriptor .record held =>
    .ok [.ok (.string "value_type", .held held)]
  | .descriptor .optional held => .ok [.ok (.string "inner_type", .held held)]
  | .descriptor .type held => .ok [.ok (.string "described", .held held)]
  | .descriptor .object held => do
    return (← store.partList? held).map fun part => do
      let (name, d) ← store.pair? part
      return (store.valueOf name, d)
  | .descriptor .union held => do
    return (← store.partList? held).mapIdx fun i part => .ok (.int i, part)
  | _ => .ok []

/-- The branches from the last to the first. The fields of an object are read backwards themselves,
which sets are not. -/
def branchesBackwards? (store : Store) (r : Ref) : Except Error (List Branch) :=
  match store.cell r with
  | .descriptor .object held => match store.cell held with
    | .set _ => .error .notIterable
    | _ => (store.branches? r).map List.reverse
  | _ => (store.branches? r).map List.reverse

/-- A branch as a step to a descriptor. -/
def step? (store : Store) : Branch → Option (Step × Ref)
  | .ok (.string name, .held r) => if (store.kind? r).isSome then some (.key name, r) else none
  | .ok (.int n, .held r) => if (store.kind? r).isSome then some (.index n, r) else none
  | _ => none

/-- Whether an object is a descriptor with nothing but steps to others. -/
def isIntact (store : Store) (r : Ref) : Bool :=
  (store.kind? r).isSome && match store.branchesBackwards? r with
    | .ok branches => branches.all fun branch => (store.step? branch).isSome
    | .error _ => false

/-- The kind of the descriptor behind a reference. Other objects count as void. -/
def kind (store : Store) (r : Ref) : Kind := (store.kind? r).getD .void

/-- The configuration of a descriptor that holds no others. -/
def configuration (store : Store) (r : Ref) : Value :=
  match store.cell r with
  | .descriptor .object _ => .dict []
  | .descriptor .file held => .dict [(.string "type", store.tree held)]
  | .descriptor _ held => store.tree held
  | _ => .null

/-- The graph of the descriptors in the store. -/
def graph (store : Store) : Graph store.cells.size where
  vertex v :=
    let steps := ((store.branches? v).toOption.getD []).filterMap store.step?
    let children := steps.filterMap fun (key, r) =>
      if h : r < store.cells.size then some (key, (⟨r, h⟩ : Fin store.cells.size)) else none
    { kind := store.kind v
      configuration := if children.isEmpty then store.configuration v else .null
      children := children }

/-- Visits what is on the stack, and from each object that is new what lies below it first. Only
descriptors are visited. -/
def walkFrom (store : Store) : (steps : Nat) → (visited : List Ref) →
    (stack : List (List Value × Part)) → Except Error (List (List Value × Kind))
  | 0, _, _ | _ + 1, _, [] => .ok []
  | _ + 1, _, (_, .loose _) :: _ => .error (.noAttribute "id")
  | steps + 1, visited, (path, .held r) :: stack => do
    if visited.contains r then store.walkFrom steps visited stack
    else match store.kind? r with
      | none => throw (.noAttribute "id")
      | some kind => do
        let below ← (← store.branchesBackwards? r).mapM fun branch => do
          let (key, part) ← branch
          return (path ++ [key], part)
        return (path, kind) :: (← store.walkFrom steps (r :: visited) (below.reverse ++ stack))

/-- Everything that can be reached, with its kind. Each object puts its branches on the stack at
most once, which bounds the steps. -/
def walk? (store : Store) (r : Ref) : Except Error (List (List Value × Kind)) :=
  if h : r < store.cells.size then
    let places := store.graph.walk ⟨r, h⟩
    if places.all fun (_, v) => store.isIntact v then
      .ok (places.map fun (path, v) => (path.map Step.toValue, store.kind v))
    else
      let steps := (List.range store.cells.size).foldl (fun n r =>
        n + ((store.branches? r).toOption.getD []).length) 1
      store.walkFrom steps [] [([], .held r)]
  else .error (.noAttribute "id")

/-- Describes an object below those that are being described. -/
def describeWithin (store : Store) : (levels : Nat) → (active : List Ref) → Ref →
    Except Error Description
  | 0, _, _ => .error .endless
  | levels + 1, active, r => do
    if active.contains r then throw (.cyclicGraph (store.kind r))
    let children ← (← store.branches? r).mapM fun branch => do
      let (key, part) ← branch
      let below ← match part with
        | .held child => store.describeWithin levels (r :: active) child
        | .loose _ => throw (.noAttribute "configuration")
      match Step.ofValue? key with
      | some step => return (step, below)
      | none => throw .stepNotPlain
    if (store.kind? r).isNone then throw (.noAttribute "configuration")
    return .mk (store.kind r) (if children.isEmpty then store.configuration r else .null) children

/-- The levels of descriptors that describing has room for; each takes a call, and two are made
besides. -/
def describeLevels : Nat := Room.whole.calls - 2

/-- The levels of descriptors, given those of the objects that one holds. -/
def descriptorLevels (levels : Ref → Nat) (cell : Cell) : Nat :=
  let below := cell.refs.foldl (fun n r => max n (levels r)) 0
  match cell with
  | .descriptor _ _ | .plain (.descriptor _) => 1 + below
  | _ => below

/-- Whether describing an object has room for all that can be reached. No way down without a cycle
has more levels than there are objects. -/
def hasRoom (store : Store) (r : Ref) : Bool :=
  match store.order? r with
  | some order => (store.sweep 0 descriptorLevels order).getD r 0 ≤ describeLevels
  | none => store.cells.size ≤ describeLevels

/-- Describes an object. -/
def describe? (store : Store) (r : Ref) : Except Error Description :=
  if h : r < store.cells.size then
    if store.hasRoom r && (store.graph.walk ⟨r, h⟩).all fun (_, v) => store.isIntact v then
      store.graph.describe ⟨r, h⟩
    else store.describeWithin describeLevels [] r
  else .error (.noAttribute "configuration")

end Store

end DataSchema
