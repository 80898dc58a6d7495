import DataSchema.Json.KeyOrder

/-!
The canonical text of data: one text for each value, whatever the order of its entries. Nothing
but the necessary characters is escaped, and there is no white space.
-/

namespace DataSchema.Json

/-- Quotes, backslashes and controls are escaped; everything else stands as it is. -/
def escape (c : Char) : List Char :=
  if c = '\x22' then ['\\', '\x22']
  else if c = '\\' then ['\\', '\\']
  else if c = '\x08' then ['\\', 'b']
  else if c = '\t' then ['\\', 't']
  else if c = '\n' then ['\\', 'n']
  else if c = '\x0c' then ['\\', 'f']
  else if c = '\r' then ['\\', 'r']
  else if c.toNat < 0x20 then '\\' :: 'u' :: Text.hex 4 c.toNat
  else [c]

def quote (text : String) : String :=
  String.ofList ('\x22' :: text.toList.flatMap escape ++ ['\x22'])

def floatText : Binary64 → String
  | .nan => "NaN"
  | .infinite negative => if negative then "-Infinity" else "Infinity"
  | x => x.text

def boolText (b : Bool) : String := if b then "true" else "false"

/-- What stands for a key: only texts, numbers, truth values and the absent value have one. -/
def keyText? : Value → Except Error String
  | .string s => .ok s
  | .null => .ok "null"
  | .bool b => .ok (boolText b)
  | .int n => .ok (Integer.text n)
  | .float x => .ok (floatText x)
  | _ => .error .notSerializable

def sequenceText (items : List String) : String := "[" ++ ",".intercalate items ++ "]"

/-- The text of an entry's value, made when its turn has come. -/
abbrev Deferred := Unit → Except Error String

/-- The first failure is that of the first entry in order: of its key, then of its value. -/
def entryText (entry : Value × Deferred) : Except Error String := do
  return quote (← keyText? entry.1) ++ ":" ++ (← entry.2 ())

def mappingText? (entries : List (Value × Deferred)) : Except Error String := do
  return "\x7b" ++ ",".intercalate (← (← sort? entries).mapM entryText) ++ "\x7d"

mutual

def canonical? : Value → Except Error String
  | .null => .ok "null"
  | .bool b => .ok (boolText b)
  | .int n => .ok (Integer.text n)
  | .float x => .ok (floatText x)
  | .string s => .ok (quote s)
  | .list items | .tuple items => do return sequenceText (← canonicalAll? items)
  | .dict entries => mappingText? (canonicalEntries entries)
  | .again _ => .error .circular
  | _ => .error .notSerializable
termination_by structural v => v

def canonicalAll? : List Value → Except Error (List String)
  | [] => .ok []
  | v :: vs => do return (← canonical? v) :: (← canonicalAll? vs)
termination_by structural vs => vs

def canonicalEntries : List (Value × Value) → List (Value × Deferred)
  | [] => []
  | (key, v) :: entries => (key, fun _ => canonical? v) :: canonicalEntries entries
termination_by structural entries => entries

end

end DataSchema.Json
