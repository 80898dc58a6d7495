/-!
The closed family of descriptor kinds and their ids.
-/

namespace DataSchema

inductive Kind where
  | null
  | boolean
  | number
  | string
  | void
  | any
  | literal
  | list
  | record
  | object
  | optional
  | union
  | type
  | file
  | image
  deriving DecidableEq

namespace Kind

/-- All kinds, in their declared order. -/
def all : List Kind :=
  [null, boolean, number, string, void, any, literal, list, record, object, optional, union, type,
   file, image]

/-- The word by which renderers and issues refer to a kind. -/
def id : Kind → String
  | null => "null"
  | boolean => "boolean"
  | number => "number"
  | string => "string"
  | void => "void"
  | any => "any"
  | literal => "literal"
  | list => "list"
  | record => "record"
  | object => "object"
  | optional => "optional"
  | union => "union"
  | type => "type"
  | file => "file"
  | image => "image"

/-- The id in capitals. -/
def name (k : Kind) : String := String.ofList (k.id.toList.map Char.toUpper)

/-- The name under which descriptors of the kind are written. -/
def className : Kind → String
  | null => "NullType"
  | boolean => "BooleanType"
  | number => "NumberType"
  | string => "StringType"
  | void => "VoidType"
  | any => "AnyType"
  | literal => "LiteralType"
  | list => "ListType"
  | record => "RecordType"
  | object => "ObjectType"
  | optional => "OptionalType"
  | union => "UnionType"
  | type => "TypeType"
  | file => "FileType"
  | image => "ImageType"

/-- The name of the one field a descriptor of the kind has, if it has one. -/
def field? : Kind → Option String
  | literal => some "value"
  | list | record => some "value_type"
  | object => some "fields"
  | optional => some "inner_type"
  | union => some "alternatives"
  | type => some "described"
  | file => some "file_type"
  | _ => none

/-- Primitive kinds hold no other descriptors. -/
def isPrimitive : Kind → Bool
  | null | boolean | number | string | void | any | literal => true
  | _ => false

def isComposite (k : Kind) : Bool := !k.isPrimitive

def ofId? (word : String) : Option Kind := all.find? (·.id == word)

theorem mem_all (k : Kind) : k ∈ all := by cases k <;> decide

theorem ofId?_id (k : Kind) : ofId? k.id = some k := by cases k <;> decide

theorem id_injective {j k : Kind} (h : j.id = k.id) : j = k := by
  have := congrArg ofId? h
  simpa [ofId?_id] using this

end Kind

end DataSchema
