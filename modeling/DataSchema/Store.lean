import DataSchema.Descriptor.Shape

/-!
Stores of objects with identity: objects hold each other by reference, are shared, can be changed,
and can come to hold themselves.
-/

namespace DataSchema

abbrev Ref := Nat

/-- One object. A plain one holds no others; a descriptor holds the object in its field. -/
inductive Cell where
  | plain (v : Value)
  | list (items : List Ref)
  | tuple (items : List Ref)
  | set (members : List Ref)
  | dict (entries : List (Ref × Ref))
  | view (entries : List (Ref × Ref))
  | descriptor (kind : Kind) (held : Ref)

structure Store where
  cells : Array Cell

namespace Cell

/-- What stands for an object inside its own text. -/
def stub : Cell → Value
  | plain v => v
  | list _ => .again "[...]"
  | tuple _ => .again "(...)"
  | set _ => .again "set(...)"
  | dict _ => .again "\x7b...\x7d"
  | view _ => .again "mappingproxy(\x7b...\x7d)"
  | descriptor _ _ => .again "..."

/-- What an object is by itself, with nothing in it. -/
def face : Cell → Value
  | plain v => v
  | list _ => .list []
  | tuple _ => .tuple []
  | set _ => .set []
  | dict _ => .dict []
  | view _ => .view []
  | descriptor kind _ => .altered kind .null

/-- A descriptor of a kind with a value in its field. -/
def assembleDescriptor (kind : Kind) (held : Value) : Value :=
  match Descriptor.ofHeld? kind held with
  | some d => .descriptor d
  | none => .altered kind held

/-- The tree of an object from the trees of those it holds. -/
def assemble (tree : Ref → Value) : Cell → Value
  | plain v => v
  | list items => .list (items.map tree)
  | tuple items => .tuple (items.map tree)
  | set members => .set (members.map tree)
  | dict entries => .dict (entries.map fun (key, v) => (tree key, tree v))
  | view entries => .view (entries.map fun (key, v) => (tree key, tree v))
  | descriptor kind held => assembleDescriptor kind (tree held)

/-- The objects that an object holds. -/
def refs : Cell → List Ref
  | plain _ => []
  | list items | tuple items | set items => items
  | dict entries | view entries => entries.flatMap fun (key, v) => [key, v]
  | descriptor _ held => [held]

end Cell

namespace Store

/-- The absent value exists once and is always there; so are the ids and the names of kinds. -/
def start : Store where
  cells := #[Cell.plain .null] ++ (Kind.all.map fun k => Cell.plain (Value.string k.id)) ++
    (Kind.all.map fun k => Cell.plain (Value.string k.name))

def absent : Ref := 0

def idOf (kind : Kind) : Ref := 1 + Kind.all.idxOf kind

def nameOf (kind : Kind) : Ref := 1 + Kind.all.length + Kind.all.idxOf kind

def cell (store : Store) (r : Ref) : Cell := store.cells.getD r (.plain .null)

def face (store : Store) (r : Ref) : Value := (store.cell r).face

/-- An object by itself; of a mapping also the keys and the values by themselves. -/
def surface (store : Store) (r : Ref) : Value :=
  match store.cell r with
  | .dict entries => .dict (entries.map fun (key, v) => (store.face key, store.face v))
  | .view entries => .view (entries.map fun (key, v) => (store.face key, store.face v))
  | cell => cell.face

/-- The store with a further object, and the reference to it. -/
def add (store : Store) (cell : Cell) : Ref × Store :=
  (store.cells.size, ⟨store.cells.push cell⟩)

def set (store : Store) (r : Ref) (cell : Cell) : Store := ⟨store.cells.setIfInBounds r cell⟩

/-- The kind of the descriptor behind a reference. -/
def kind? (store : Store) (r : Ref) : Option Kind := (store.face r).descriptorKind?

/-- The text behind a reference. -/
def name? (store : Store) (r : Ref) : Option String :=
  match store.cell r with
  | .plain (.string s) => some s
  | _ => none

/-- The elements of a sequence. -/
def elements? (store : Store) (r : Ref) : Option (List Ref) :=
  match store.cell r with
  | .list items | .tuple items => some items
  | _ => none

/-- The entries of a mapping, in their order. -/
def entries? (store : Store) (r : Ref) : Option (List (Ref × Ref)) :=
  match store.cell r with
  | .dict entries | .view entries => some entries
  | _ => none

/-- One part of what is walked over: an object, or a character or a byte number, which is none
until it is put into the store. -/
inductive Part where
  | held (r : Ref)
  | loose (v : Value)

/-- What a walk over an object yields: elements, keys, characters, or byte numbers. -/
def parts? (store : Store) (r : Ref) : Option (List Part) :=
  match store.cell r with
  | .list items | .tuple items | .set items => some (items.map .held)
  | .dict entries | .view entries => some (entries.map fun (key, _) => .held key)
  | .plain v => v.parts?.map (·.map .loose)
  | .descriptor _ _ => none

def partsOf? (store : Store) : Part → Option (List Part)
  | .held r => store.parts? r
  | .loose v => v.parts?.map (·.map .loose)

/-- The two parts of a pair. -/
def pair? (store : Store) (part : Part) : Except Error (Part × Part) :=
  match store.partsOf? part with
  | none => .error .wrongOperand
  | some [a, b] => .ok (a, b)
  | some _ => .error .wrongLength

end Store

end DataSchema
