import DataSchema.Error
import DataSchema.Value.Equality

/-!
Building descriptors from values. Each builder takes any value in the place of the one field and
says what is wrong with it, or returns the descriptor.
-/

namespace DataSchema.Descriptor

def child? (kind : Kind) (role : String) : Value → Except Error Descriptor
  | .descriptor d => .ok d
  | v => .error (.childNotDescriptor kind role v)

def literal? (v : Value) : Except Error Descriptor :=
  match v with
  | .float (.finite x) => .ok (.literal (.float x))
  | .float _ => .error (.literalNotFinite v)
  | .bool b => .ok (.literal (.bool b))
  | .int n => .ok (.literal (.int n))
  | .string s => .ok (.literal (.string s))
  | _ => .error (.literalNotPrimitive v)

/-- One field of an object, given as a pair of a new name and a descriptor. -/
def field? (seen : List String) (item : Value) : Except Error (String × Descriptor) :=
  match item.parts? with
  | some [.string name, v] =>
    if seen.contains name then .error (.fieldRepeated name)
    else (child? .object ("field " ++ Text.quoted name) v).map ((name, ·))
  | some [name, _] => .error (.fieldNameNotText name)
  | _ => .error (.fieldNotPair item)

def fields? (seen : List String) : List Value → Except Error (List (String × Descriptor))
  | [] => .ok []
  | item :: items => do
    let (name, d) ← field? seen item
    return (name, d) :: (← fields? (name :: seen) items)

/-- What an object's fields are read from: the entries of a mapping, else the parts. -/
def fieldItems? (v : Value) : Except Error (List Value) :=
  match v.entries?, v.parts? with
  | some entries, _ => .ok (entries.map fun (key, w) => .tuple [key, w])
  | none, some parts => .ok parts
  | none, none => .error .notIterable

def object? (v : Value) : Except Error Descriptor := do
  return .object (← fields? [] (← fieldItems? v))

def alternatives? (position : Nat) : List Value → Except Error (List Descriptor)
  | [] => .ok []
  | v :: vs => do
    let d ← child? .union ("alternative " ++ Nat.repr position) v
    return d :: (← alternatives? (position + 1) vs)

def union? (v : Value) : Except Error Descriptor :=
  match v.parts? with
  | none => .error .notIterable
  | some [] => .error .noAlternatives
  | some parts => (alternatives? 0 parts).map .union

def file? : Value → Except Error Descriptor
  | .null => .ok (.file none)
  | .string tag => .ok (.file (some tag))
  | v => .error (.tagNotText v)

/-- The descriptor of a kind with the given value in its field. Kinds without a field ignore it. -/
def make? (kind : Kind) (v : Value) : Except Error Descriptor :=
  match kind with
  | .null => .ok .null
  | .boolean => .ok .boolean
  | .number => .ok .number
  | .string => .ok .string
  | .void => .ok .void
  | .any => .ok .any
  | .image => .ok .image
  | .literal => literal? v
  | .list => (child? .list "value_type" v).map .list
  | .record => (child? .record "value_type" v).map .record
  | .object => object? v
  | .optional => (child? .optional "inner_type" v).map .optional
  | .union => union? v
  | .type => (child? .type "described" v).map .type
  | .file => file? v

/-- The descriptor of a kind that holds exactly the given value in its field, if builders build
one: fields and alternatives are kept in tuples. -/
def ofHeld? (kind : Kind) (held : Value) : Option Descriptor :=
  match kind, held with
  | .object, .tuple items => if items.all (·.isTuple) then (object? held).toOption else none
  | .union, .tuple _ => (union? held).toOption
  | .object, _ | .union, _ => none
  | _, _ => (make? kind held).toOption

/-- The fields as entries of a mapping. -/
def fieldEntries (fields : List (String × Descriptor)) : List (Value × Value) :=
  fields.map fun (name, d) => (.string name, .descriptor d)

/-- Entries to be written over others: those of a mapping, or pairs. -/
def updates? (v : Value) : Except Error (List (Value × Value)) :=
  match v.entries?, v.parts? with
  | some entries, _ => .ok entries
  | none, none => .error .notIterable
  | none, some parts => parts.mapM fun part =>
    match part.parts? with
    | none => .error .wrongOperand
    | some [key, w] => if key.isHashable then .ok (key, w) else .error .unhashable
    | some _ => .error .wrongLength

/-- The object with further fields. A field that is there already keeps its place and gets the new
descriptor. -/
def extend? (fields : List (String × Descriptor)) (extra : Value) : Except Error Descriptor := do
  let written ← updates? extra
  object? (.dict (written.foldl (fun es (key, w) => Value.put key w es) (fieldEntries fields)))

/-- The value in the descriptor's field. -/
def held? : Descriptor → Option Value
  | literal p => some p.toValue
  | list d | record d | optional d | type d => some (.descriptor d)
  | object fields =>
    some (.tuple (fields.map fun (name, d) => .tuple [.string name, .descriptor d]))
  | union ds => some (.tuple (ds.map .descriptor))
  | file tag => some ((tag.map .string).getD .null)
  | _ => none

/-- The configuration: what a descriptor says about itself beyond its kind. -/
def configuration : Descriptor → Value
  | literal p => p.toValue
  | list d | record d => .dict [(.string "value_type", .descriptor d)]
  | object fields => .dict (fieldEntries fields)
  | optional d => .dict [(.string "inner_type", .descriptor d)]
  | union ds => .tuple (ds.map .descriptor)
  | type d => .descriptor d
  | file tag => .dict [(.string "type", (tag.map .string).getD .null)]
  | _ => .null

mutual

/-- What the builders build: only the fifteen variants, no union without alternatives, no field
name twice. -/
def IsBuilt : Descriptor → Prop
  | list d | record d | optional d | type d => IsBuilt d
  | object fields => (fields.map (·.1)).Nodup ∧ FieldsBuilt fields
  | union ds => ds ≠ [] ∧ AllBuilt ds
  | outsider _ _ _ => False
  | _ => True
termination_by structural d => d

def FieldsBuilt : List (String × Descriptor) → Prop
  | [] => True
  | (_, d) :: fields => IsBuilt d ∧ FieldsBuilt fields
termination_by structural fields => fields

def AllBuilt : List Descriptor → Prop
  | [] => True
  | d :: ds => IsBuilt d ∧ AllBuilt ds
termination_by structural ds => ds

end

end DataSchema.Descriptor
