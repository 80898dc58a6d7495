import DataSchema.Description
import DataSchema.Value.Nesting

/-!
Descriptions as plain data, which is not nested without bound. In the strict form, which every
reader of texts takes, there are no other collections than lists and dicts with texts for keys; the
free form keeps tuples and sets, and whatever else is no collection. Two keys of one text are one in
the strict form.
-/

namespace DataSchema

namespace Descriptor

mutual

/-- A descriptor as data: its field under its name. `sequence` makes a collection of parts. -/
def asData (sequence : List Value → Value) : Descriptor → Value
  | literal p => .dict [(.string "value", p.toValue)]
  | list d | record d => .dict [(.string "value_type", asData sequence d)]
  | optional d => .dict [(.string "inner_type", asData sequence d)]
  | type d => .dict [(.string "described", asData sequence d)]
  | object fields => .dict [(.string "fields", sequence (fieldsAsData sequence fields))]
  | union ds => .dict [(.string "alternatives", sequence (allAsData sequence ds))]
  | file tag => .dict [(.string "file_type", (tag.map .string).getD .null)]
  | _ => .dict []
termination_by structural d => d

def allAsData (sequence : List Value → Value) : List Descriptor → List Value
  | [] => []
  | d :: ds => asData sequence d :: allAsData sequence ds
termination_by structural ds => ds

def fieldsAsData (sequence : List Value → Value) : List (String × Descriptor) → List Value
  | [] => []
  | (name, d) :: fields =>
    sequence [.string name, asData sequence d] :: fieldsAsData sequence fields
termination_by structural fields => fields

end

end Descriptor

namespace Value

def bytesText? (data : List UInt8) : Except Error String :=
  match String.fromUTF8? ⟨data.toArray⟩ with
  | some s => .ok s
  | none => .error .notUtf8

mutual

/-- A key as a text, for the strict form. The parts of a tuple are put in a row. -/
def keyText? : Value → Except Error String
  | null => .ok "None"
  | bool b => .ok (if b then "true" else "false")
  | bytes data => bytesText? data
  | kind k => .ok k.id
  | tuple items => do return ",".intercalate (← keyTexts? items)
  | altered k held =>
    if held.isHashable then .ok (altered k held).text else .error .unhashable
  | fraction _ | view _ | foreign _ _ _ => .error .notData
  | list _ | set _ | dict _ => .error .unhashable
  | v => .ok v.plainText
termination_by structural v => v

def keyTexts? : List Value → Except Error (List String)
  | [] => .ok []
  | v :: vs => do return (← keyText? v) :: (← keyTexts? vs)
termination_by structural vs => vs

end

/-- A value that is no collection, in the strict form. Floats that are not finite are absent
there. -/
def leafAsData? : Value → Except Error Value
  | float x => .ok (if x.isFinite then float x else null)
  | bytes data => do return string (← bytesText? data)
  | decimal d => .ok (string d.text)
  | kind k => .ok (string k.id)
  | fraction _ | view _ | foreign _ _ _ => .error .notData
  | again _ => .error .circular
  | v => .ok v

mutual

def asData? (strict : Bool) : Value → Except Error Value
  | list items => do return list (← allAsData? strict items)
  | tuple items => do
    let items ← allAsData? strict items
    return if strict then list items else tuple items
  | set members => do
    let members ← allAsData? strict members
    if strict then return list members
    else if allHashable members then return set members
    else throw .unhashable
  | dict entries => do
    let entries ← entriesAsData? strict entries
    return dict (if strict then entries.foldl (fun kept (key, v) => put key v kept) [] else entries)
  | descriptor d => .ok (d.asData (if strict then list else tuple))
  | altered k held => do return dict [(string (k.field?.getD ""), ← asData? strict held)]
  | v => if strict then leafAsData? v else .ok v
termination_by structural v => v

def allAsData? (strict : Bool) : List Value → Except Error (List Value)
  | [] => .ok []
  | v :: vs => do return (← asData? strict v) :: (← allAsData? strict vs)
termination_by structural vs => vs

def entriesAsData? (strict : Bool) : List (Value × Value) → Except Error (List (Value × Value))
  | [] => .ok []
  | (key, v) :: entries => do
    let key ← if strict then string <$> keyText? key else .ok key
    return (key, ← asData? strict v) :: (← entriesAsData? strict entries)
termination_by structural entries => entries

end

mutual

/-- Levels of collections, the value itself included. -/
def levels : Value → Nat
  | list items | tuple items | set items => 1 + levelsOfAll items
  | dict entries | view entries => 1 + levelsOfEntries entries
  | altered _ held => 1 + levels held
  | _ => 1
termination_by structural v => v

def levelsOfAll : List Value → Nat
  | [] => 0
  | v :: vs => max (levels v) (levelsOfAll vs)
termination_by structural vs => vs

def levelsOfEntries : List (Value × Value) → Nat
  | [] => 0
  | (_, v) :: entries => max (levels v) (levelsOfEntries entries)
termination_by structural entries => entries

end

end Value

namespace Description

/-- Deeper descriptions are not written. -/
def maxLevels : Nat := 255

mutual

/-- Levels of descriptions and, in the strict form, of the configurations in them. -/
def levels (strict : Bool) : Description → Nat
  | mk _ configuration children =>
    1 + max (if strict then configuration.levels else 0) (levelsOf strict children)
termination_by structural d => d

def levelsOf (strict : Bool) : List (Step × Description) → Nat
  | [] => 0
  | (_, d) :: children => max (levels strict d) (levelsOf strict children)
termination_by structural children => children

end

mutual

/-- The description with its configurations as data. -/
def withData? (strict : Bool) : Description → Except Error Description
  | mk kind configuration children => do
    return .mk kind (← configuration.asData? strict) (← allWithData? strict children)
termination_by structural d => d

def allWithData? (strict : Bool) :
    List (Step × Description) → Except Error (List (Step × Description))
  | [] => .ok []
  | (key, d) :: children => do
    return (key, ← withData? strict d) :: (← allWithData? strict children)
termination_by structural children => children

end

/-- The description as data, unless it is nested too deep. -/
def written? (strict : Bool) (d : Description) : Except Error Description :=
  if maxLevels < d.levels strict then .error .tooDeep else d.withData? strict

end Description

end DataSchema
