import DataSchema.Fingerprint
import DataSchema.Frame
import DataSchema.Registry.Rendering
import DataSchema.Settings.Files
import DataSchema.Store.Expression
import DataSchema.Store.Outline
import DataSchema.Value.Hash

/-!
Workspaces: a store, names for objects in it, and a journal. Here objects are changed.
-/

namespace DataSchema

structure Workspace where
  store : Store
  names : List (String × Ref)
  journal : Log.Journal

namespace Workspace

def start : Workspace := ⟨.start, [], .start⟩

/-- An operation on a workspace. What it did before a failure stays. -/
abbrev Work (α : Type) := ExceptT Error (StateM Workspace) α

def ofBuild {α : Type} (action : Build α) : Work α := do
  let workspace ← get
  let (result, store) ← ofExcept (action.run workspace.store)
  set { workspace with store := store }
  return result

def eval (e : Expression) : Work Ref := do
  let names := (← get).names
  ofBuild (Build.eval names e)

/-- The value of an expression. -/
def evalTree (e : Expression) : Work Value := do
  let r ← eval e
  return (← get).store.tree r

/-- The kind of a descriptor; other objects have none. -/
def kindOf (r : Ref) : Work Kind := do
  ofExcept ((← get).store.kindOf? (.object r))

/-- The value of an expression, or a stub if it holds itself. -/
def evalTreeOrStub (e : Expression) : Work Value := do
  let r ← eval e
  return (← get).store.treeOrStub r

def append (record : Log.Record) : Work Unit :=
  modify fun workspace => { workspace with journal := workspace.journal.append record }

/-- An operation that writes records, into the journal. -/
def ofLogged {α : Type} (action : Log.Logged α) : Work α := do
  let (result, records) := Log.outcome action
  records.forM append
  ofExcept result

/-- Gives an object a name. -/
def bind (name : String) (r : Ref) : Work Unit :=
  modify fun workspace => { workspace with names := (name, r) :: workspace.names }

def setCell (r : Ref) (cell : Cell) : Work Unit :=
  modify fun workspace => { workspace with store := workspace.store.set r cell }

/-- What descriptors tell about themselves under names that are no fields, and cannot be told
otherwise. -/
def derivedNames : List String :=
  ["id", "configuration", "configuration_descriptor", "derived_descriptor"]

/-- Setting what is no field has no effect: outsiders, kinds and objects of other classes allow it
apart from some names, and other objects do not. -/
def setLoose (face : Value) (field : String) : Work Unit := do
  let taken := match face with
    | .descriptor (.outsider _ _ _) => derivedNames.contains field
    | .kind _ => ["name", "value"].contains field
    | .foreign _ _ _ => false
    | _ => true
  if taken then throw (.noAttribute field)

/-- Puts another object into the field of a descriptor, without asking whether it belongs there. -/
def tie (d : Ref) (field : String) (v : Ref) : Work Unit := do
  let store := (← get).store
  match store.cell d with
  | .descriptor kind _ =>
    if kind.field? = some field then setCell d (.descriptor kind v)
    else throw (.noAttribute field)
  | _ => setLoose (store.face d) field

/-- Assigning to a descriptor fails: fields are frozen, and there are no others. -/
def assign (d : Ref) (field : String) : Work Unit := do
  let store := (← get).store
  match store.kind? d, store.cell d with
  | some kind, .descriptor _ _ =>
    throw (if kind.field? = some field then .frozen else .wrongOperand)
  | some _, _ => throw .wrongOperand
  | none, _ => setLoose (store.face d) field

/-- The elements of a list that can grow. -/
def growing (r : Ref) : Work (List Ref) := do
  match (← get).store.cell r with
  | .list items => return items
  | _ => throw (.noAttribute "append")

def appendTo (r : Ref) (items : List Ref) (v : Ref) : Work Unit := setCell r (.list (items ++ [v]))

/-- The place that a key means in a list: a whole number, counted from the end if it is negative. -/
def position? (length : Nat) (key : Value) : Except Error Nat :=
  let place := fun (n : Int) =>
    let position := if n < 0 then n + length else n
    if 0 ≤ position && position < length then .ok position.toNat else .error .wrongPosition
  match key with
  | .int n => place n
  | .bool b => place (if b then 1 else 0)
  | _ => .error .wrongOperand

/-- Positions lie between this number and its opposite; a larger key means none. -/
def positionBound : Nat := 1 <<< 63

/-- Whether a key is a whole number that cannot be a position. -/
def isBeyondPositions : Value → Bool
  | .int n => n < -(positionBound : Int) || (positionBound : Int) ≤ n
  | _ => false

/-- Whether an object is asked for its positions. The absent value and numbers are not, apart from
fractions. -/
def hasPositions : Value → Bool
  | .fraction _ => true
  | v => !v.isAbsent && v.number?.isNone

/-- Writes an entry of a dict or an element of a list. Nothing else can be written to. -/
def setItem (r key v : Ref) : Work Unit := do
  let store := (← get).store
  match store.cell r with
  | .dict entries =>
    let entries ← ofBuild (Build.put key v entries)
    setCell r (.dict entries)
  | .list items =>
    let position ← ofExcept (position? items.length (store.face key))
    setCell r (.list (items.set position v))
  | _ =>
    if hasPositions (store.face r) && isBeyondPositions (store.face key) then throw .wrongPosition
    else throw .readOnly

/-- Trees of more descriptors are not compared part by part, since some may be shared. -/
def schemaSize : Nat := 10000

/-- A descriptor that is a tree of moderate size, and one that comparisons and hash codes have room
for. -/
def schema? (store : Store) (r : Ref) : Option Descriptor :=
  (store.descriptorTree? r).filter fun d => d.isWithin schemaSize && d.fitsIn .text Room.whole

/-- Whether two objects are equal. Descriptors that are trees are compared as schemas. -/
def equal? (store : Store) (a b : Ref) : Except Error Bool :=
  match schema? store a, schema? store b with
  | some d, some e => .ok (d.same e)
  | _, _ => store.equal? a b

/-- Whether the hash codes of two objects agree, asked only if the objects are equal. The codes of
objects that are no trees are made from the same parts, so they agree. -/
def hashesAgree? (store : Store) (a b : Ref) : Except Error Bool := do
  store.hashable? a
  store.hashable? b
  match schema? store a, schema? store b with
  | some d, some e => return d.hashCode == e.hashCode
  | _, _ => return true

/-- For each object the position of the first one that is it or equals it. -/
def groups? (store : Store) (all : List Ref) : List Ref → Except Error (List Nat)
  | [] => .ok []
  | r :: rs => do
    let position ← first r 0 all
    return position :: (← groups? store all rs)
where
  first (r : Ref) (position : Nat) : List Ref → Except Error Nat
    | [] => .ok position
    | other :: others => do
      if ← store.alike? other r then return position else first r (position + 1) others

/-- Groups of objects that can be members of a set. -/
def distinct? (store : Store) (all : List Ref) : Except Error (List Nat) := do
  all.forM store.hashable?
  groups? store all all

/-- How many objects have no equal one before them. -/
def distinctCount (groups : List Nat) : Nat :=
  groups.zipIdx.countP fun (group, position) => group == position

/-- The configuration of an object and the shape that it derives, as trees. -/
def aspects (r : Ref) : Work (Value × Value) := do
  match (← get).store.descriptorTree? r with
  | some d => return (d.configuration, (d.derived?.map .descriptor).getD .null)
  | none =>
    let configuration ← ofBuild (Build.configuration r)
    let configurationTree ← ofExcept ((← get).store.whole? configuration)
    ofExcept configurationTree.written?
    let derived ← ofBuild (Build.derive r)
    return (configurationTree, ← ofExcept ((← get).store.whole? derived))

/-- Explains an object and writes that it did. -/
def explain (settings : Settings) (d v : Ref) : Work Report := do
  let report ← ofExcept ((← get).store.explain settings d v)
  append ⟨"shapekit.core.validate", Log.debug, "explain " ++ report.kind.id ++ ": ok=" ++
    (Value.bool report.ok).text ++ " issues=" ++ Nat.repr report.issues.length⟩
  return report

/-- The description of an object as data, in the free form. -/
def describe (r : Ref) : Work Description := do
  ofExcept ((← ofExcept ((← get).store.describe? r)).written? false)

def fingerprint (r : Ref) : Work String := do
  ofExcept (← ofExcept ((← get).store.describe? r)).fingerprint?

/-- The text of an object. -/
def text (r : Ref) : Work String := do
  ofExcept ((← get).store.tree r).text?

/-- The canonical text of an object. -/
def canonical (r : Ref) : Work String := do
  ofExcept ((← get).store.canonical? r)

/-- The children of an object under their keys. -/
def children? (store : Store) (r : Ref) : Except Error (List (Value × Value)) :=
  match store.descriptorTree? r with
  | some d => .ok (d.children.map fun (key, e) => (key.toValue, .descriptor e))
  | none => do
    (← store.branches? r).mapM fun branch => do
      let (key, part) ← branch
      match part with
      | .held child => return (key, ← store.whole? child)
      | .loose v => return (key, v)

/-- A dict with the trees of its entries under some names; other objects by themselves. -/
def entriesUnder (names : List String) (r : Ref) : Work Value := do
  let store := (← get).store
  match store.cell r with
  | .dict entries =>
    let wanted := entries.filter fun (key, _) => (store.name? key).any (names.contains ·)
    return .dict (wanted.map fun (key, v) => (store.tree key, store.tree v))
  | _ => return store.face r

/-- For each row of a frame whether it conforms to an object. -/
def validateRows (settings : Settings) (d : Ref) (frame : Frame) : Work (List Bool) := do
  let store := (← get).store
  match store.descriptorTree? d with
  | some e => ofExcept (frame.validateRows settings e)
  | none => ofExcept (frame.maskBy (store.accepts settings d))

def filterValid (settings : Settings) (d : Ref) (frame : Frame) : Work Frame := do
  match (← get).store.descriptorTree? d with
  | some e => ofLogged (frame.filterValid settings e)
  | none =>
    let mask ← validateRows settings d frame
    ofLogged (frame.keep ((← get).store.kind d) mask)

def requireValid (settings : Settings) (d : Ref) (frame : Frame) : Work Frame := do
  match (← get).store.descriptorTree? d with
  | some e => ofExcept (frame.requireValid settings e)
  | none =>
    let mask ← validateRows settings d frame
    ofExcept (frame.demand ((← get).store.kind d) mask)

/-- Renders an object; the edits that were sent are given even if the rendering fails. -/
def render (registry : Registry Registry.Renderer) (d v : Ref) :
    Work (Except Error Value × List (Except Error Value)) := do
  let (result, effects) := (Registry.render registry d v).run.run ⟨(← get).store, #[], #[]⟩
  modify fun workspace => { workspace with store := effects.store }
  effects.records.forM append
  return (result.bind effects.store.whole?, effects.edits.toList.map effects.store.whole?)

end Workspace

end DataSchema
