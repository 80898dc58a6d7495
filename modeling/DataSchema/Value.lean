import DataSchema.Descriptor
import DataSchema.Number.Extended

/-!
Values of any shape: what descriptors are checked against. Descriptors are values themselves.
-/

namespace DataSchema

/-- `view` is a mapping that can only be read. `altered` is a descriptor into whose field a value
was put that no builder admits there, or whose parts are so. `foreign` is an object of any other
class, known by its class, its text, and a mark which tells it from others. `again` stands for a
value where it is met inside itself. -/
inductive Value where
  | null
  | bool (b : Bool)
  | int (n : Int)
  | float (x : Binary64)
  | string (s : String)
  | list (items : List Value)
  | tuple (items : List Value)
  | dict (entries : List (Value × Value))
  | view (entries : List (Value × Value))
  | bytes (data : List UInt8)
  | set (members : List Value)
  | fraction (q : Rat)
  | decimal (d : Decimal)
  | kind (k : Kind)
  | descriptor (d : Descriptor)
  | altered (kind : Kind) (held : Value)
  | foreign (className shown : String) (mark : Nat)
  | again (shown : String)

instance : Inhabited Value := ⟨.null⟩

def Primitive.toValue : Primitive → Value
  | .bool b => .bool b
  | .int n => .int n
  | .float x => .float (.finite x)
  | .string s => .string s

namespace Value

/-- The name of the value's class; the absent value has none and stands for itself. -/
def typeName : Value → String
  | null => "None"
  | bool _ => "bool"
  | int _ => "int"
  | float _ => "float"
  | string _ => "str"
  | list _ => "list"
  | tuple _ => "tuple"
  | dict _ => "dict"
  | view _ => "mappingproxy"
  | bytes _ => "bytes"
  | set _ => "set"
  | fraction _ => "Fraction"
  | decimal _ => "Decimal"
  | kind _ => "DescriptorKind"
  | descriptor d => d.className
  | altered k _ => k.className
  | foreign className _ _ => className
  | again shown => shown

def isAbsent : Value → Bool
  | null => true
  | _ => false

def isBool : Value → Bool
  | bool _ => true
  | _ => false

def isText : Value → Bool
  | string _ => true
  | _ => false

/-- The kind of a descriptor. -/
def descriptorKind? : Value → Option Kind
  | descriptor d => some d.kind
  | altered k _ => some k
  | _ => none

def isTuple : Value → Bool
  | tuple _ => true
  | _ => false

/-- A decimal that makes every comparison with a number fail. -/
def isSignaling : Value → Bool
  | decimal d => d.isSignaling
  | _ => false

/-- The elements of a sequence. Texts and bytes are no sequences here. -/
def elements? : Value → Option (List Value)
  | list items | tuple items => some items
  | _ => none

/-- The entries of a mapping, in their order. -/
def entries? : Value → Option (List (Value × Value))
  | dict entries | view entries => some entries
  | _ => none

/-- What a walk over the value yields: elements, keys, characters, or byte numbers. -/
def parts? : Value → Option (List Value)
  | list items | tuple items | set items => some items
  | dict entries | view entries => some (entries.map (·.1))
  | string s => some (s.toList.map fun c => string c.toString)
  | bytes data => some (data.map fun byte => int byte.toNat)
  | _ => none

/-- The value of the entry under a name. -/
def lookup (name : String) : List (Value × Value) → Option Value
  | [] => none
  | (string key, v) :: entries => if key = name then some v else lookup name entries
  | _ :: entries => lookup name entries

/-- An entry that is not there is read as the absent value. -/
def entryOrNull (name : String) (entries : List (Value × Value)) : Value :=
  (lookup name entries).getD null

/-- The value as a number, for comparisons; the two truth values are one and zero. -/
def number? : Value → Option Extended
  | bool b => some (.finite (if b then 1 else 0))
  | int n => some (.finite n)
  | float x => some (.ofBinary64 x)
  | fraction q => some (.finite q)
  | decimal d => some (.ofDecimal d)
  | _ => none

/-- The value as what a literal may expect. -/
def primitive? : Value → Option Primitive
  | bool b => some (.bool b)
  | int n => some (.int n)
  | float (.finite x) => some (.float x)
  | string s => some (.string s)
  | _ => none

/-- Whether the value counts as true: zero and empty collections do not, nor does the absent
value. -/
def truthy : Value → Bool
  | null => false
  | bool b => b
  | string s => s != ""
  | list items | tuple items | set items => !items.isEmpty
  | dict entries | view entries => !entries.isEmpty
  | bytes data => !data.isEmpty
  | kind _ | descriptor _ | altered _ _ | foreign _ _ _ | again _ => true
  | v => v.number?.any fun n => !n.same (.finite 0)

theorem primitive?_toValue (p : Primitive) : p.toValue.primitive? = some p := by cases p <;> rfl

theorem elements?_list_eq_tuple (items : List Value) :
    (list items).elements? = (tuple items).elements? := rfl

theorem entries?_dict_eq_view (entries : List (Value × Value)) :
    (dict entries).entries? = (view entries).entries? := rfl

end Value

end DataSchema
