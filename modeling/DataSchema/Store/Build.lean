import DataSchema.Store.Check

/-!
Putting objects into a store: data, descriptors with the objects that they hold, and what
descriptors tell about themselves.
-/

namespace DataSchema

/-- An operation that may add objects to a store. -/
abbrev Build (α : Type) := StateT Store (Except Error) α

namespace Build

def add (cell : Cell) : Build Ref := modifyGet (·.add cell)

def plain (v : Value) : Build Ref := add (.plain v)

def text (s : String) : Build Ref := plain (.string s)

/-- Descriptors without a field hold nothing. -/
def leaf (d : Descriptor) : Build Ref := plain (.descriptor d)

def pair (a b : Ref) : Build Ref := add (.tuple [a, b])

/-- The object of a part. -/
def settle : Store.Part → Build Ref
  | .held r => return r
  | .loose v => plain v

mutual

/-- A new object for a descriptor and for each one below it. -/
def plant : Descriptor → Build Ref
  | .literal p => do add (.descriptor .literal (← plain p.toValue))
  | .list d => do add (.descriptor .list (← plant d))
  | .record d => do add (.descriptor .record (← plant d))
  | .optional d => do add (.descriptor .optional (← plant d))
  | .type d => do add (.descriptor .type (← plant d))
  | .union ds => do add (.descriptor .union (← add (.tuple (← plantAll ds))))
  | .object fields => do add (.descriptor .object (← add (.tuple (← plantFields fields))))
  | .file tag => do add (.descriptor .file (← plain ((tag.map .string).getD .null)))
  | d => leaf d
termination_by structural d => d

def plantAll : List Descriptor → Build (List Ref)
  | [] => return []
  | d :: ds => do return (← plant d) :: (← plantAll ds)
termination_by structural ds => ds

def plantFields : List (String × Descriptor) → Build (List Ref)
  | [] => return []
  | (name, d) :: fields => do return (← pair (← text name) (← plant d)) :: (← plantFields fields)
termination_by structural fields => fields

end

mutual

/-- A new object for a value and for each one below it. -/
def plantValue : Value → Build Ref
  | .list items => do add (.list (← plantValues items))
  | .tuple items => do add (.tuple (← plantValues items))
  | .set members => do add (.set (← plantValues members))
  | .dict entries => do add (.dict (← plantEntries entries))
  | .view entries => do add (.view (← plantEntries entries))
  | .descriptor d => plant d
  | .altered kind held => do add (.descriptor kind (← plantValue held))
  | v => plain v
termination_by structural v => v

def plantValues : List Value → Build (List Ref)
  | [] => return []
  | v :: vs => do return (← plantValue v) :: (← plantValues vs)
termination_by structural vs => vs

def plantEntries : List (Value × Value) → Build (List (Ref × Ref))
  | [] => return []
  | (key, v) :: entries => do
    return (← plantValue key, ← plantValue v) :: (← plantEntries entries)
termination_by structural entries => entries

end

/-- The value that builders see where a descriptor belongs: descriptors are closed, so that each
counts as one whatever it holds. -/
def seen (store : Store) (r : Ref) : Value :=
  match store.cell r with
  | .descriptor kind _ => .descriptor (.outsider kind kind.className "")
  | _ => store.tree r

/-- A collection with its parts as builders see them, which are the keys of a mapping. -/
def opened (store : Store) (inside : Ref → Value) (r : Ref) : Value :=
  match store.cell r with
  | .list items => .list (items.map inside)
  | .tuple items => .tuple (items.map inside)
  | .set members => .set (members.map inside)
  | .dict entries => .dict (entries.map fun (key, _) => (inside key, .null))
  | .view entries => .view (entries.map fun (key, _) => (inside key, .null))
  | _ => store.tree r

/-- A pair of a name and what is under it; what is no pair is seen as a whole. -/
def openedPair (store : Store) (r : Ref) : Value :=
  match store.cell r with
  | .list [name, d] => .list [store.tree name, seen store d]
  | .tuple [name, d] => .tuple [store.tree name, seen store d]
  | .set [name, d] => .set [store.tree name, seen store d]
  | .dict [(name, _), (d, _)] | .view [(name, _), (d, _)] =>
    .list [store.tree name, seen store d]
  | _ => store.tree r

/-- What the builder of a kind looks at. -/
def sketch (store : Store) (kind : Kind) (held : Ref) : Value :=
  match kind, store.entries? held with
  | .literal, _ | .file, _ => store.tree held
  | .object, some entries =>
    .dict (entries.map fun (name, d) => (store.tree name, seen store d))
  | .object, none => opened store (openedPair store) held
  | .union, _ => opened store (seen store) held
  | _, _ => seen store held

/-- What a builder says, with the message made for what it refuses. -/
def answer (said : Except Error Descriptor) : Build Descriptor :=
  ofExcept (said.mapError Error.phrased)

/-- What the builder of a kind says about an object. -/
def examine (kind : Kind) (held : Ref) : Build Unit := do
  let _ ← answer (Descriptor.make? kind (sketch (← get) kind held))
  return ()

/-- The pairs behind a reference: the entries of a mapping, or items of two parts. -/
def pairs (r : Ref) : Build (List (Ref × Ref)) := do
  let store ← get
  match store.entries? r with
  | some entries => return entries
  | none => ((store.parts? r).getD []).mapM fun part => do
    let (a, b) ← ofExcept (store.pair? part)
    return (← settle a, ← settle b)

/-- A tuple of pairs of names and descriptors. -/
def fieldTuple (fields : List (Ref × Ref)) : Build Ref := do
  add (.tuple (← fields.mapM fun (name, d) => pair name d))

/-- A descriptor of a kind with a field. Fields and alternatives are kept in tuples; a tuple of
alternatives is kept as it is. -/
def make (kind : Kind) (held : Ref) : Build Ref := do
  examine kind held
  let store ← get
  match kind with
  | .object => add (.descriptor kind (← fieldTuple (← pairs held)))
  | .union =>
    match store.cell held with
    | .tuple _ => add (.descriptor kind held)
    | _ => add (.descriptor kind (← add (.tuple (← ((store.parts? held).getD []).mapM settle))))
  | _ => add (.descriptor kind held)

/-- The object under a reference has to be a descriptor for a method to be found. -/
def receiver (method : String) (r : Ref) : Build Unit := do
  if ((← get).kind? r).isNone then throw (.noAttribute method)

def optional (r : Ref) : Build Ref := do
  receiver "optional" r
  add (.descriptor .optional r)

def listed (r : Ref) : Build Ref := do
  receiver "list" r
  add (.descriptor .list r)

/-- The entries after a write, whose key has to be one that cannot change. -/
def put (key v : Ref) (entries : List (Ref × Ref)) : Build (List (Ref × Ref)) := do
  let store ← get
  ofExcept (store.hashable? key)
  ofExcept (store.put? key v entries)

/-- Entries with others written over them: those of a mapping, or items of two parts. -/
def merge (entries : List (Ref × Ref)) (others : Ref) : Build (List (Ref × Ref)) := do
  let store ← get
  match store.entries? others, store.parts? others with
  | some written, _ => written.foldlM (fun entries (key, v) => put key v entries) entries
  | none, none => throw .notIterable
  | none, some parts => parts.foldlM (fun entries part => do
      let (key, v) ← ofExcept (store.pair? part)
      put (← settle key) (← settle v) entries) entries

/-- The fields of an object as entries, the last of each name. -/
def fieldEntries (held : Ref) : Build (List (Ref × Ref)) := merge [] held

/-- The object that holds the fields of a descriptor that can be extended. -/
def extensible (base : Ref) : Build Ref := do
  match (← get).cell base with
  | .descriptor .object held => return held
  | _ => throw (.noAttribute "extend")

/-- The object with further fields written over its own. For fields that builders admit the
extension of descriptors says whether that fails. -/
def extend (held extra : Ref) : Build Ref := do
  let store ← get
  match Cell.assembleDescriptor .object (sketch store .object held) with
  | .descriptor (.object fields) => do
    let _ ← answer (Descriptor.extend? fields (sketch store .object extra))
    add (.descriptor .object (← fieldTuple (← merge (← fieldEntries held) extra)))
  | _ => do
    let merged ← merge (← fieldEntries held) extra
    make .object (← add (.dict merged))

/-- The derived shape of an object, or the absent value. An optional's shape holds its inner
descriptor itself. -/
def derive (r : Ref) : Build Ref := do
  match ← ofExcept ((← get).derived? (.object r)) with
  | some (.shape d) => plant d
  | some (.orAbsent inner) =>
    let absent ← leaf .null
    add (.descriptor .union (← add (.tuple [inner, absent])))
  | _ => return Store.absent

def configurationOf (kind : Kind) (held : Ref) : Build Ref := do
  match kind with
  | .list | .record => do add (.dict [(← text "value_type", held)])
  | .optional => do add (.dict [(← text "inner_type", held)])
  | .object => do add (.dict (← fieldEntries held))
  | .file => do add (.dict [(← text "type", held)])
  | _ => return held

/-- The configuration of a descriptor; those without a field have none. -/
def configuration (r : Ref) : Build Ref := do
  match (← get).cell r with
  | .descriptor kind held => configurationOf kind held
  | .plain (.descriptor _) => return Store.absent
  | _ => throw (.noAttribute "configuration")

/-- What a descriptor tells about itself under a name. -/
def ownMember (r : Ref) (kind : Kind) (name : String) : Build Ref := do
  match name, (← get).cell r with
  | "id", _ => return Store.idOf kind
  | "kind", _ => plain (.kind kind)
  | "configuration", _ => configuration r
  | "configuration_descriptor", _ => plant (.configurationShape kind)
  | "derived_descriptor", _ => derive r
  | "shape", .descriptor .object held => do add (.view (← fieldEntries held))
  | _, .descriptor _ held =>
    if kind.field? = some name then return held else throw (.noAttribute name)
  | _, _ => throw (.noAttribute name)

def member (r : Ref) (name : String) : Build Ref := do
  match name, (← get).face r with
  | "value", .kind k => return Store.idOf k
  | "name", .kind k => return Store.nameOf k
  | _, v => match v.descriptorKind? with
    | some kind => ownMember r kind name
    | none => throw (.noAttribute name)

/-- The kind given as a value; what is no kind counts as void. -/
def shapeKind : Value → Kind
  | .kind k => k
  | _ => .void

end Build

namespace Store

/-- Whether the configuration of a descriptor is one of its kind. -/
def checkConfiguration (store : Store) (settings : Settings) (d : Ref) : Except Error Bool := do
  match store.descriptorTree? d with
  | some e => DataSchema.checkConfiguration settings e
  | none =>
    let kind ← store.kindOf? (.object d)
    let (v, store) ← (Build.configuration d).run store
    return (← store.runCheck settings .silent (.shape (.configurationShape kind)) v).1

/-- Whether a value that is in no store conforms to a descriptor. -/
def accepts (store : Store) (settings : Settings) (d : Ref) (v : Value) : Except Error Bool := do
  match store.descriptorTree? d with
  | some e => DataSchema.validate settings e v
  | none =>
    let (v, store) ← (Build.plantValue v).run store
    store.validate settings d v

end Store

end DataSchema
