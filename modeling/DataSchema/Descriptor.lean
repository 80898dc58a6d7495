import DataSchema.Kind
import DataSchema.Number.Shortest
import DataSchema.Number.Integer
import DataSchema.Path
import DataSchema.Text.Bracket
import DataSchema.Text.Quoted

/-!
Descriptors: trees that say which values are accepted, compared as schemas and written as text.
-/

namespace DataSchema

/-- What a literal may expect. Floats that are not finite equal nothing worth expecting. -/
inductive Primitive where
  | bool (b : Bool)
  | int (n : Int)
  | float (x : Finite64)
  | string (s : String)
  deriving DecidableEq

namespace Primitive

def isBool : Primitive → Bool
  | bool _ => true
  | _ => false

/-- The number or the text behind a primitive; the two truth values are one and zero. -/
def content : Primitive → Rat ⊕ String
  | bool b => .inl (if b then 1 else 0)
  | int n => .inl n
  | float x => .inl x.toRat
  | string s => .inr s

/-- Truth values equal only truth values; numbers are equal when their values are. -/
def same (a b : Primitive) : Bool := decide (a.isBool = b.isBool ∧ a.content = b.content)

def text : Primitive → String
  | bool b => if b then "True" else "False"
  | int n => Integer.text n
  | float x => (Binary64.finite x).text
  | string s => Text.quoted s

theorem same_refl (a : Primitive) : a.same a = true := by simp [same]

theorem same_symm {a b : Primitive} (h : a.same b = true) : b.same a = true := by
  simp only [same, decide_eq_true_eq] at *
  exact ⟨h.1.symm, h.2.symm⟩

theorem same_trans {a b c : Primitive} (h : a.same b = true) (k : b.same c = true) :
    a.same c = true := by
  simp only [same, decide_eq_true_eq] at *
  exact ⟨h.1.trans k.1, h.2.trans k.2⟩

end Primitive

/-- The fifteen variants, and `outsider` for a descriptor that only claims one of their kinds: it
is known by its class and by its text. -/
inductive Descriptor where
  | null
  | boolean
  | number
  | string
  | void
  | any
  | literal (value : Primitive)
  | list (item : Descriptor)
  | record (item : Descriptor)
  | object (fields : List (String × Descriptor))
  | optional (inner : Descriptor)
  | union (alternatives : List Descriptor)
  | type (described : Descriptor)
  | file (tag : Option String)
  | image
  | outsider (kind : Kind) (className shown : String)

/-- No tag and the two wildcards admit files of every category. -/
def admitsAnyCategory (tag : Option String) : Bool := tag.all (["*", "*/*"].contains ·)

namespace Descriptor

def kind : Descriptor → Kind
  | null => .null
  | boolean => .boolean
  | number => .number
  | string => .string
  | void => .void
  | any => .any
  | literal _ => .literal
  | list _ => .list
  | record _ => .record
  | object _ => .object
  | optional _ => .optional
  | union _ => .union
  | type _ => .type
  | file _ => .file
  | image => .image
  | outsider kind _ _ => kind

def id (d : Descriptor) : String := d.kind.id

def className : Descriptor → String
  | outsider _ className _ => className
  | d => d.kind.className

/-- The descriptors held in the configuration, under the keys that lead to them. -/
def children : Descriptor → List (Step × Descriptor)
  | list item | record item => [(.key "value_type", item)]
  | optional inner => [(.key "inner_type", inner)]
  | object fields => fields.map fun (name, d) => (.key name, d)
  | union alternatives => alternatives.mapIdx fun i d => (.index i, d)
  | type described => [(.key "described", described)]
  | _ => []

/-- A descriptor that accepts what `d` accepts, and the absent value. -/
def orAbsent (d : Descriptor) : Descriptor := optional d

/-- A descriptor of lists of what `d` accepts. -/
def listed (d : Descriptor) : Descriptor := list d

mutual

/-- Equality of schemas: the same variants in the same places, and the same primitives. -/
def same : Descriptor → Descriptor → Bool
  | null, null | boolean, boolean | number, number | string, string | void, void | any, any
  | image, image => true
  | literal a, literal b => a.same b
  | list a, list b | record a, record b | optional a, optional b | type a, type b => same a b
  | object fs, object gs => sameFields fs gs
  | union ds, union es => sameAll ds es
  | file s, file t => s == t
  | outsider j c _, outsider k d _ => j == k && c == d
  | _, _ => false
termination_by structural d => d

def sameFields : List (String × Descriptor) → List (String × Descriptor) → Bool
  | [], [] => true
  | (m, d) :: fs, (n, e) :: gs => m == n && same d e && sameFields fs gs
  | _, _ => false
termination_by structural fs => fs

def sameAll : List Descriptor → List Descriptor → Bool
  | [], [] => true
  | d :: ds, e :: es => same d e && sameAll ds es
  | _, _ => false
termination_by structural ds => ds

end

mutual

/-- The construction that builds the descriptor. -/
def text : Descriptor → String
  | literal value => Text.bracketCall "LiteralType" ["value=" ++ value.text]
  | list item => Text.bracketCall "ListType" ["value_type=" ++ text item]
  | record item => Text.bracketCall "RecordType" ["value_type=" ++ text item]
  | object fields =>
    Text.bracketCall "ObjectType" ["fields=" ++ Text.bracketTuple (fieldTexts fields)]
  | optional inner => Text.bracketCall "OptionalType" ["inner_type=" ++ text inner]
  | union alternatives =>
    Text.bracketCall "UnionType" ["alternatives=" ++ Text.bracketTuple (texts alternatives)]
  | type described => Text.bracketCall "TypeType" ["described=" ++ text described]
  | file tag => Text.bracketCall "FileType" ["file_type=" ++ (tag.map Text.quoted).getD "None"]
  | outsider _ _ shown => shown
  | null => "NullType()"
  | boolean => "BooleanType()"
  | number => "NumberType()"
  | string => "StringType()"
  | void => "VoidType()"
  | any => "AnyType()"
  | image => "ImageType()"
termination_by structural d => d

def texts : List Descriptor → List String
  | [] => []
  | d :: ds => text d :: texts ds
termination_by structural ds => ds

def fieldTexts : List (String × Descriptor) → List String
  | [] => []
  | (name, d) :: fields => Text.bracketTuple [Text.quoted name, text d] :: fieldTexts fields
termination_by structural fields => fields

end

mutual

/-- How many levels of checks the descriptor can cost, whatever the value. An optional counts for
its union, a file and an image for the shapes they derive. -/
def height : Descriptor → Nat
  | list item | record item => 1 + height item
  | object fields => heightOfFields fields
  | optional inner => 2 + height inner
  | union alternatives => heightOfAll alternatives
  | file tag => if admitsAnyCategory tag then 4 else 2
  | image => 4
  | _ => 0
termination_by structural d => d

/-- One level over the highest field, if there is a field. -/
def heightOfFields : List (String × Descriptor) → Nat
  | [] => 0
  | (_, d) :: fields => max (1 + height d) (heightOfFields fields)
termination_by structural fields => fields

/-- One level over the highest alternative. -/
def heightOfAll : List Descriptor → Nat
  | [] => 0
  | d :: ds => max (1 + height d) (heightOfAll ds)
termination_by structural ds => ds

end

end Descriptor

end DataSchema
