import DataSchema.Check
import DataSchema.Description
import DataSchema.Store.Identity

/-!
The engine for objects: it checks objects that hold themselves, against descriptors that hold
themselves or whose fields were altered. An object and a descriptor that are trees are checked as
values; for these the rules here say the same.
-/

namespace DataSchema

namespace Store

/-- What an object is checked against: an object, a shape that no object holds, the union that an
optional derives from what it holds, or something that is no descriptor and no object. -/
inductive Subject where
  | object (r : Ref)
  | shape (d : Descriptor)
  | orAbsent (inner : Ref)
  | nothing

/-- A subject by its variant. `settled` stands for the variants that hold no subjects. Fields and
alternatives are read one after the other, and each may fail; so may reading the fields at all. -/
inductive Form where
  | settled (d : Descriptor)
  | literal (expected : Value)
  | list (item : Subject)
  | record (item : Subject)
  | object (fields : Except Error (List (Except Error (Value × Subject))))
  | union (alternatives : List Subject)
  | type (described : Subject)
  | broken (cause : Error)

def Subject.ofPart : Part → Subject
  | .held r => .object r
  | .loose _ => .nothing

/-- The kind of a subject, which only descriptors have. -/
def kindOf? (store : Store) : Subject → Except Error Kind
  | .object r => match store.kind? r with
    | some kind => .ok kind
    | none => .error (.noAttribute "id")
  | .shape d => .ok d.kind
  | .orAbsent _ => .ok .union
  | .nothing => .error (.noAttribute "id")

/-- One field of an object: a name that can be looked up, and what its value is checked against. -/
def fieldOf? (store : Store) (part : Part) : Except Error (Value × Subject) := do
  let (name, d) ← store.pair? part
  match name with
  | .held r => store.hashable? r
  | .loose _ => pure ()
  return (store.valueOf name, .ofPart d)

def formOf (store : Store) (kind : Kind) (held : Ref) : Form :=
  match kind with
  | .literal => .literal (store.tree held)
  | .list => .list (.object held)
  | .record => .record (.object held)
  | .type => .type (.object held)
  | .object => match store.parts? held with
    | some parts => .object (.ok (parts.map store.fieldOf?))
    | none => .object (.error .notIterable)
  | .union => match store.parts? held with
    | some parts => .union (parts.map .ofPart)
    | none => .broken .notIterable
  | .optional => .settled (.optional .any)
  | .file => .settled (.file none)
  | _ => .settled .any

def form (store : Store) : Subject → Form
  | .object r => match store.cell r with
    | .descriptor kind held => store.formOf kind held
    | .plain (.descriptor d) => .settled d
    | _ => .broken (.noAttribute "id")
  | .shape d => match d with
    | .literal p => .literal p.toValue
    | .list item => .list (.shape item)
    | .record item => .record (.shape item)
    | .object fields => .object (.ok (fields.map fun (name, e) => .ok (.string name, .shape e)))
    | .union ds => .union (ds.map .shape)
    | .type described => .type (.shape described)
    | d => .settled d
  | .orAbsent inner => .union [.object inner, .shape .null]
  | .nothing => .broken (.noAttribute "id")

/-- The shape of a file with an object for its tag. -/
def fileShape? (store : Store) (tag : Ref) : Except Error Descriptor := do
  match store.cell tag with
  | .set _ => pure ()
  | _ => store.hashable? tag
  Descriptor.fileShapeOf? (store.tree tag)

/-- The shape that a subject derives, if its variant has one. -/
def derived? (store : Store) : Subject → Except Error (Option Subject)
  | .object r => match store.cell r with
    | .descriptor .optional inner =>
      if (store.kind? inner).isSome then .ok (some (.orAbsent inner))
      else .error (.childNotDescriptor .union "alternative 0" (store.tree inner))
    | .descriptor .file tag => (store.fileShape? tag).map (some <| .shape ·)
    | .plain (.descriptor d) => .ok (d.derived?.map .shape)
    | _ => .ok none
  | .shape d => .ok (d.derived?.map .shape)
  | _ => .ok none

/-- Literals that expect what no builder admits: a number may equal any number, and nothing else
equals anything. -/
def isAlteredLiteral? (expected v : Value) : Except Error Bool :=
  match expected, v with
  | .bool a, .bool b => .ok (a == b)
  | .bool _, _ | _, .bool _ => .ok false
  | .string s, .string t => .ok (s == t)
  | .string _, _ => .ok false
  | _, .int _ | _, .float _ => expected.plainEqual? v
  | _, _ => .ok false

/-- The object under a name. Texts are compared as they are, other names by their trees. -/
def lookup (store : Store) (name : Value) (entries : List (Ref × Ref)) : Ref :=
  let named : Ref → Bool := match name with
    | .string s => fun key => store.name? key == some s
    | _ => fun key => (store.tree key).equal name
  ((entries.find? fun (key, _) => named key).map (·.2)).getD absent

/-- A failure that names the class of the object behind a reference. -/
def failAt (store : Store) (mode : Recording) (v : Ref) (path : Path) (kind : Kind)
    (reason : Value → Reason) : Test :=
  Test.fail mode ⟨path, kind, reason (store.face v)⟩

/-- A failure that shows the object behind a reference. -/
def failShowing (store : Store) (mode : Recording) (v : Ref) (path : Path) (kind : Kind)
    (reason : Value → Reason) : Test :=
  match mode with
  | .silent => fun issues => .ok (false, issues)
  | _ => fun issues => Test.fail mode ⟨path, kind, reason (store.tree v)⟩ issues

/-- How the parts of an object are checked, at the next level. -/
abbrev SubjectCheck := Recording → Subject → Ref → Path → Test

/-- Checks the value of a field. A name that is no step of a path lets values pass, but no failure
can be written down for it. -/
def checkField (part : SubjectCheck) (mode : Recording) (name : Value) (d : Subject) (v : Ref)
    (path : Path) : Test :=
  match Step.ofValue? name, mode with
  | some step, _ => part mode d v (path ++ [step])
  | none, .silent => part .silent d v path
  | none, _ => fun issues => do
    let (ok, _) ← part .first d v path #[]
    if ok then return (true, issues) else throw .stepNotPlain

/-- The ids in the failure of a union, which all alternatives have to have. -/
def kindsOf? (store : Store) (alternatives : List Subject) : Except Error (List Kind) :=
  alternatives.mapM store.kindOf?

/-- The rule of a variant that holds no subjects: what an object is on its surface decides. Only
what is no number is shown as a whole. -/
def settledRule (store : Store) (mode : Recording) (d : Descriptor) (v : Ref) (path : Path) :
    Test :=
  let part : PartCheck := fun _ _ _ _ => .pass
  match d, rule part .silent d (store.surface v) path #[] with
  | .number, .ok (false, _) => store.failShowing mode v path .number .notNumber
  | d, _ => rule part mode d (store.surface v) path

/-- The rule of a subject's variant. -/
def ruleOf (store : Store) (part : SubjectCheck) (mode : Recording) (d : Subject) (v : Ref)
    (path : Path) : Test :=
  match store.form d with
  | .settled d => store.settledRule mode d v path
  | .literal expected => match isAlteredLiteral? expected (store.face v) with
    | .ok true => .pass
    | .ok false => store.failShowing mode v path .literal (.notLiteral expected)
    | .error e => .raise e
  | .list item => match store.elements? v with
    | none => store.failAt mode v path .list .notSequence
    | some items => .all mode (items.mapIdx fun i w => part mode item w (path ++ [.index i]))
  | .record item => match store.entries? v with
    | none => store.failAt mode v path .record .notMapping
    | some entries => .all mode (entries.map fun (key, w) => match store.name? key with
      | some name => part mode item w (path ++ [.key name])
      | none => store.failShowing mode key path .record .keyNotText)
  | .object fields => match store.entries? v with
    | none => store.failAt mode v path .object .notMapping
    | some entries => match fields with
      | .ok fields => .all mode (fields.map fun
        | .ok (name, d) => checkField part mode name d (store.lookup name entries) path
        | .error e => .raise e)
      | .error e => .raise e
  | .union alternatives =>
    (alternatives.map fun d => part .silent d v path).foldr .orElse fun issues => do
      Test.fail mode ⟨path, .union, .noAlternative (← store.kindsOf? alternatives)⟩ issues
  | .type described => match store.kind? v with
    | none => store.failAt mode v path .type .notDescriptor
    | some kind => fun issues => do
      let expected ← store.kindOf? described
      Test.demand mode (kind == expected) ⟨path, .type, .otherKind expected kind⟩ issues
  | .broken cause => .raise cause

/-- Checks an object with so many levels left to enter. -/
def check (store : Store) (limit : Limit) : (levels : Nat) → SubjectCheck
  | 0, _, d, _, _ => match store.kindOf? d with
    | .ok kind => .raise (limit.overrun kind)
    | .error e => .raise e
  | levels + 1, mode, d, v, path =>
    let part := store.check limit levels
    match store.derived? d with
    | .error e => .raise e
    | .ok none => store.ruleOf part mode d v path
    | .ok (some shape) => (part mode shape v path).andThen (store.ruleOf part mode d v path)

def runCheck (store : Store) (settings : Settings) (mode : Recording) (d : Subject) (v : Ref) :
    Except Error (Bool × Array Issue) :=
  let limit := settings.depth.limit
  store.check limit (limit.bound + 1) mode d v [] #[]

/-- A descriptor that is a tree. -/
def descriptorTree? (store : Store) (d : Ref) : Option Descriptor :=
  if store.isTree d then
    match store.tree d with
    | .descriptor e => some e
    | _ => none
  else none

/-- A descriptor and an object that are both trees. -/
def trees? (store : Store) (d v : Ref) : Option (Descriptor × Value) := do
  let e ← store.descriptorTree? d
  guard (store.isTree v)
  return (e, store.tree v)

/-- Whether an object conforms to a descriptor. -/
def validate (store : Store) (settings : Settings) (d v : Ref) : Except Error Bool :=
  match store.trees? d v with
  | some (e, w) => DataSchema.validate settings e w
  | none => (store.runCheck settings .silent (.object d) v).map (·.1)

/-- Validates and reports the failures. -/
def explain (store : Store) (settings : Settings) (d v : Ref) : Except Error Report :=
  match store.trees? d v with
  | some (e, w) => DataSchema.explain settings e w
  | none => do
    let mode := if settings.collectAll.truthy then Recording.all else .first
    let (ok, issues) ← store.runCheck settings mode (.object d) v
    return ⟨← store.kindOf? (.object d), ok, issues.toList⟩

/-- The position of the first subject that accepts an object. -/
def firstMatch (store : Store) (settings : Settings) (v : Ref) :
    List Subject → Except Error (Option Nat)
  | [] => .ok none
  | d :: ds => do
    let (ok, _) ← store.runCheck settings .silent d v
    if ok then return some 0
    return (← store.firstMatch settings v ds).map (· + 1)

/-- The position of the first alternative of a union that accepts an object. -/
def matchAlternative (store : Store) (settings : Settings) (d v : Ref) :
    Except Error (Option Nat) :=
  match store.trees? d v, store.cell d with
  | some (.union ds, w), _ => DataSchema.matchAlternative settings w ds
  | _, .descriptor .union held => match store.parts? held with
    | none => .error .notIterable
    | some parts => store.firstMatch settings v (parts.map .ofPart)
  | _, _ => .error (.noAttribute "alternatives")

/-- The position of the first of some shapes that accepts an object. -/
def matchShape (store : Store) (settings : Settings) (shapes : List Descriptor) (v : Ref) :
    Except Error (Option Nat) :=
  if store.isTree v then DataSchema.matchAlternative settings (store.tree v) shapes
  else store.firstMatch settings v (shapes.map .shape)

end Store

end DataSchema
