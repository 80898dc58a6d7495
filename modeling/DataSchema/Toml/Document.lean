import DataSchema.Toml.Scalar
import DataSchema.Toml.Table
import DataSchema.Value.Nesting

/-!
Settings documents: entries `key = value` under headers of tables, one statement a line. A document
that states something twice is no document.
-/

namespace DataSchema.Toml

def skipSpaces (text : List Char) : List Char := text.dropWhile isSpace

/-- Leaves out spaces, line breaks and comments. -/
def skipLayout : (inComment : Bool) → List Char → Option (List Char)
  | _, [] => some []
  | false, c :: rest =>
    if isSpace c || c == '\n' then skipLayout false rest
    else if c == '#' then skipLayout true rest
    else some (c :: rest)
  | true, c :: rest =>
    if c == '\n' then skipLayout false rest
    else if isControl c then none
    else skipLayout true rest

/-- Leaves out a comment up to the end of its line. -/
def skipComment : List Char → Option (List Char)
  | '#' :: rest =>
    if (rest.takeWhile (· != '\n')).any isControl then none else some (rest.dropWhile (· != '\n'))
  | text => some text

def isBareChar (c : Char) : Bool := c.isAlphanum || c == '_' || c == '-'

def keyPart? (source : List Char) : Option (String × List Char) :=
  match source.takeWhile isBareChar with
  | [] => text? source
  | bare => some (String.ofList bare, source.dropWhile isBareChar)

/-- A key: parts with points between them. Spaces around the parts do not count. -/
def key? : (fuel : Nat) → Reader Key
  | 0, _ => none
  | fuel + 1, source => do
    let (part, rest) ← keyPart? source
    match skipSpaces rest with
    | '.' :: rest =>
      let (key, rest) ← key? fuel (skipSpaces rest)
      return (part :: key, rest)
    | rest => return ([part], rest)

/-- An inline table in the making: its entries, and the keys of those that are complete. -/
structure Inline where
  entries : Table
  closed : List Key

def Inline.add (inline : Inline) (key : Key) (v : Value) : Option Inline := do
  let name ← key.getLast?
  if isUnder inline.closed key then failure
  let entries ← within false (addEntry name v) key.dropLast inline.entries
  return ⟨entries, if isComplete v then key :: inline.closed else inline.closed⟩

/-- The calls within each other that there is room for in a value of a document. -/
def valueCalls : Nat := Room.whole.calls - 6

/-- The calls that are left after some more. -/
def descend (calls room : Nat) : Except Fault Nat :=
  if calls ≤ room then .ok (room - calls) else .error .tooDeep

mutual

/-- A value takes one call, an array one more and an inline table two more. -/
def value? : (fuel room : Nat) → Parser Value
  | 0, _, _ => .error .malformed
  | fuel + 1, room, source => do
    let room ← descend 1 room
    match source with
    | '[' :: rest => array? fuel (← descend 1 room) [] (← present (skipLayout false rest))
    | '\x7b' :: rest =>
      let room ← descend 2 room
      match skipSpaces rest with
      | '\x7d' :: rest => return (.dict [], rest)
      | rest => inline? fuel room ⟨[], []⟩ rest
    | _ => parseScalar source

/-- The rest of an array after some elements, the last of them in front; a comma may follow the last
element of all. -/
def array? : (fuel room : Nat) → (elements : List Value) → Parser Value
  | 0, _, _, _ => .error .malformed
  | fuel + 1, room, elements, source =>
    match source with
    | ']' :: rest => .ok (.list elements.reverse, rest)
    | _ => do
      let (v, rest) ← value? fuel room source
      match ← present (skipLayout false rest) with
      | ']' :: rest => return (.list (v :: elements).reverse, rest)
      | ',' :: rest => array? fuel room (v :: elements) (← present (skipLayout false rest))
      | _ => throw .malformed

/-- The rest of an inline table that has a further entry. -/
def inline? : (fuel room : Nat) → Inline → Parser Value
  | 0, _, _, _ => .error .malformed
  | fuel + 1, room, inline, source => do
    let (key, v, rest) ← pair? fuel room source
    let inline ← present (inline.add key v)
    match skipSpaces rest with
    | '\x7d' :: rest => return (.dict inline.entries, rest)
    | ',' :: rest => inline? fuel room inline (skipSpaces rest)
    | _ => throw .malformed

def pair? : (fuel room : Nat) → List Char → Except Fault (Key × Value × List Char)
  | 0, _, _ => .error .malformed
  | fuel + 1, room, source => do
    let (key, rest) ← present (key? fuel source)
    match skipSpaces rest with
    | '=' :: rest =>
      let (v, rest) ← value? fuel room (skipSpaces rest)
      return (key, v, rest)
    | _ => throw .malformed

end

/-- A document in the making. `header` is the key of the current table. `declared` holds the keys of
tables that no further header may open, `pending` those that will be declared at the next header,
and `closed` the keys under which nothing can be added. -/
structure Draft where
  root : Table
  header : Key
  declared : List Key
  pending : List Key
  closed : List Key

namespace Draft

def empty : Draft := ⟨[], [], [], [], []⟩

/-- Adds an entry to the current table. Tables that dotted keys pass through are not opened by
later headers, nor may they have been. -/
def addPair (draft : Draft) (key : Key) (v : Value) : Option Draft := do
  let name ← key.getLast?
  let parent := draft.header ++ key.dropLast
  let passed := (List.range (key.length - 1)).map fun i => draft.header ++ key.take (i + 1)
  if passed.any draft.declared.contains then failure
  if isUnder draft.closed parent then failure
  let root ← within true (addEntry name v) parent draft.root
  return { draft with
    root := root
    pending := passed ++ draft.pending
    closed := if isComplete v then (draft.header ++ key) :: draft.closed else draft.closed }

/-- Declares what is pending. -/
def settle (draft : Draft) : Draft :=
  { draft with declared := draft.pending ++ draft.declared, pending := [] }

/-- Opens a table under a header that was not declared before. -/
def openTable (draft : Draft) (key : Key) : Option Draft := do
  if draft.declared.contains key || isUnder draft.closed key then failure
  let root ← within true some key draft.root
  return { draft with root := root, header := key, declared := key :: draft.declared }

/-- Opens a further table of an array of tables. What was declared or closed below the key belongs
to the tables before. -/
def openElement (draft : Draft) (key : Key) : Option Draft := do
  let name ← key.getLast?
  if isUnder draft.closed key then failure
  let root ← within true (addElement name) key.dropLast draft.root
  return { draft with
    root := root
    header := key
    declared := key :: draft.declared.filter (!key.isPrefixOf ·)
    closed := draft.closed.filter (!key.isPrefixOf ·) }

/-- Reads one statement that is not empty. -/
def statement? (fuel : Nat) (draft : Draft) : List Char → Except Fault (Draft × List Char)
  | '[' :: '[' :: rest => do
    let (key, rest) ← present (key? fuel (skipSpaces rest))
    match skipSpaces rest with
    | ']' :: ']' :: rest => return (← present (draft.settle.openElement key), rest)
    | _ => throw .malformed
  | '[' :: rest => do
    let (key, rest) ← present (key? fuel (skipSpaces rest))
    match skipSpaces rest with
    | ']' :: rest => return (← present (draft.settle.openTable key), rest)
    | _ => throw .malformed
  | source => do
    let (key, v, rest) ← pair? fuel valueCalls source
    return (← present (draft.addPair key v), rest)

/-- Reads statements up to the end of the text. Nothing but a comment follows one on its line. -/
def statements? (draft : Draft) : (fuel : Nat) → List Char → Except Fault Draft
  | 0, _ => .error .malformed
  | fuel + 1, source => do
    match skipSpaces source with
    | [] => return draft
    | '\n' :: rest => draft.statements? fuel rest
    | '#' :: rest =>
      match ← present (skipComment ('#' :: rest)) with
      | [] => return draft
      | _ :: rest => draft.statements? fuel rest
    | source =>
      let (draft, rest) ← draft.statement? (2 * source.length + 2) source
      match ← present (skipComment (skipSpaces rest)) with
      | [] => return draft
      | '\n' :: rest => draft.statements? fuel rest
      | _ => throw .malformed

end Draft

/-- Line breaks of two characters count as one. -/
def unifyBreaks : List Char → List Char
  | '\r' :: '\n' :: rest => '\n' :: unifyBreaks rest
  | c :: rest => c :: unifyBreaks rest
  | [] => []

/-- The table that a document holds. -/
def document? (source : String) : Except Fault Table :=
  let text := unifyBreaks source.toList
  (Draft.empty.statements? (text.length + 1) text).map (·.root)

end DataSchema.Toml
