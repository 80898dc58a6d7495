import DataSchema.Registry.Choices
import DataSchema.Store.Build

/-!
Expressions that build objects in a store: data, descriptors, and what descriptors tell about
themselves. Parts are built from left to right.
-/

namespace DataSchema

/-- What an object can be wrapped in, again and again. -/
inductive Wrapper where
  | list
  | tuple
  | dict (key : String)
  | descriptor (kind : Kind)
  | union
  | object (key : String)
  | optionalObject (key : String)

inductive Expression where
  | plain (v : Value)
  /-- What cannot be read. -/
  | invalid (cause : Error)
  /-- An object unlike all others. -/
  | fresh
  | list (items : List Expression)
  | tuple (items : List Expression)
  | set (members : List Expression)
  | dict (entries : List (Expression × Expression))
  | view (entries : List (Expression × Expression))
  | descriptor (kind : Kind) (field : Option Expression)
  | named (name : String)
  | wrapped (wrapper : Wrapper) (times : Nat) (base : Expression)
  | optional (base : Expression)
  | listOf (base : Expression)
  | extended (base extra : Expression)
  | member (of : Expression) (name : String)
  | derived (of : Expression)
  | configurationShape (of : Expression)
  | fileShape (tag : Expression)
  | defaultChoices
  deriving Inhabited

namespace Build

/-- One wrapping. All of them share the object of the key. -/
def wrapOnce (wrapper : Wrapper) (key r : Ref) : Build Ref :=
  match wrapper with
  | .list => add (.list [r])
  | .tuple => add (.tuple [r])
  | .dict _ => add (.dict [(key, r)])
  | .descriptor kind => make kind r
  | .union => do make .union (← add (.list [r]))
  | .object _ => do make .object (← add (.dict [(key, r)]))
  | .optionalObject _ => do make .object (← add (.dict [(key, ← optional r)]))

def wrapTimes (wrapper : Wrapper) (key : Ref) : (times : Nat) → Ref → Build Ref
  | 0, r => return r
  | times + 1, r => do wrapTimes wrapper key times (← wrapOnce wrapper key r)

def wrap (wrapper : Wrapper) (times : Nat) (r : Ref) : Build Ref := do
  let key ← match wrapper with
    | .dict key | .object key | .optionalObject key => text key
    | _ => pure Store.absent
  wrapTimes wrapper key times r

/-- Members of a set are held once and must not change. -/
def setOf (members : List Ref) : Build Ref := do
  let store ← get
  members.forM fun r => ofExcept (store.hashable? r)
  let distinct ← ofExcept (members.foldlM (fun (kept : List Ref) r => do
    if ← Store.anyOf (store.alike? · r) kept then return kept else return kept ++ [r]) [])
  add (.set distinct)

mutual

def eval (names : List (String × Ref)) : Expression → Build Ref
  | .plain v => plain v
  | .invalid cause => throw cause
  | .fresh => do plain (.foreign "Opaque" "<opaque>" (← get).cells.size)
  | .list items => do add (.list (← evalAll names items))
  | .tuple items => do add (.tuple (← evalAll names items))
  | .set members => do setOf (← evalAll names members)
  | .dict entries => do add (.dict (← evalEntries names [] entries))
  | .view entries => do add (.view (← evalEntries names [] entries))
  | .descriptor kind none => do
    match kind.field? with
    | some _ => make kind Store.absent
    | none => leaf ((Descriptor.make? kind .null).toOption.getD .null)
  | .descriptor kind (some field) => do make kind (← eval names field)
  | .named name => match names.lookup name with
    | some r => return r
    | none => throw (.missingKey name)
  | .wrapped wrapper times base => do wrap wrapper times (← eval names base)
  | .optional base => do optional (← eval names base)
  | .listOf base => do listed (← eval names base)
  | .extended base extra => do
    let held ← extensible (← eval names base)
    extend held (← eval names extra)
  | .member of name => do member (← eval names of) name
  | .derived of => do derive (← eval names of)
  | .configurationShape of => do
    let r ← eval names of
    plant (.configurationShape (shapeKind ((← get).face r)))
  | .fileShape tag => do
    let r ← eval names tag
    plant (← ofExcept ((← get).fileShape? r))
  | .defaultChoices => do add (.tuple (← plantAll Registry.defaultChoices))
termination_by structural e => e

def evalAll (names : List (String × Ref)) : List Expression → Build (List Ref)
  | [] => return []
  | e :: es => do return (← eval names e) :: (← evalAll names es)
termination_by structural es => es

/-- Keys are asked whether they can be keys after their values are there. -/
def evalEntries (names : List (String × Ref)) (before : List (Ref × Ref)) :
    List (Expression × Expression) → Build (List (Ref × Ref))
  | [] => return before
  | (key, e) :: entries => do
    let k ← eval names key
    let v ← eval names e
    evalEntries names (← put k v before) entries
termination_by structural entries => entries

end

end Build

end DataSchema
