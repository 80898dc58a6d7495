/-!
The bracketed forms of collections, made from the texts of their parts.
-/

namespace DataSchema.Text

def commas (parts : List String) : String := ", ".intercalate parts

def bracketList (parts : List String) : String := "[" ++ commas parts ++ "]"

/-- A tuple of one part keeps a comma, which tells it from a part in parentheses. -/
def bracketTuple : List String → String
  | [part] => "(" ++ part ++ ",)"
  | parts => "(" ++ commas parts ++ ")"

def bracketDict (entries : List (String × String)) : String :=
  "\x7b" ++ commas (entries.map fun (key, value) => key ++ ": " ++ value) ++ "\x7d"

/-- The empty set has a name, because empty braces are a dict. -/
def bracketSet : List String → String
  | [] => "set()"
  | parts => "\x7b" ++ commas parts ++ "\x7d"

/-- A named construction with its arguments. -/
def bracketCall (name : String) (arguments : List String) : String :=
  name ++ "(" ++ commas arguments ++ ")"

end DataSchema.Text
