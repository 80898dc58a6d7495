import DataSchema.Value.Equality

/-!
Nested tables under dotted keys.
-/

namespace DataSchema.Toml

abbrev Key := List String

abbrev Table := List (Value × Value)

/-- Changes the table under a key. Tables on the way are made if they are not there. The way leads
through the last table of an array of tables if `lists` allows it; anything else on it blocks. -/
def within (lists : Bool) (change : Table → Option Table) : Key → Table → Option Table
  | [], table => change table
  | name :: key, table =>
    match Value.lookup name table with
    | none => do return Value.put (.string name) (.dict (← within lists change key [])) table
    | some (.dict inner) => do
      return Value.put (.string name) (.dict (← within lists change key inner)) table
    | some (.list items) =>
      match lists, items.getLast? with
      | true, some (.dict inner) => do
        let last ← within lists change key inner
        return Value.put (.string name) (.list (items.dropLast ++ [.dict last])) table
      | _, _ => none
    | some _ => none

/-- Adds an entry whose name is new. -/
def addEntry (name : String) (v : Value) (table : Table) : Option Table :=
  match Value.lookup name table with
  | none => some (Value.put (.string name) v table)
  | some _ => none

/-- Adds an empty table to the array of tables under a name, which may be new. -/
def addElement (name : String) (table : Table) : Option Table :=
  match Value.lookup name table with
  | none => some (Value.put (.string name) (.list [.dict []]) table)
  | some (.list items) => some (Value.put (.string name) (.list (items ++ [.dict []])) table)
  | some _ => none

/-- The key, or a key that leads to it, is among the given ones. -/
def isUnder (keys : List Key) (key : Key) : Bool := keys.any (·.isPrefixOf key)

/-- Arrays and inline tables are complete where they are written. -/
def isComplete : Value → Bool
  | .dict _ | .list _ => true
  | _ => false

end DataSchema.Toml
