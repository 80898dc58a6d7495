import DataSchema.Value

/-!
The text of a value: for the built-in forms it is what one would write to get the value.
-/

namespace DataSchema.Value

mutual

def text : Value → String
  | null => "None"
  | bool b => if b then "True" else "False"
  | int n => Integer.text n
  | float x => x.text
  | string s => Text.quoted s
  | list items => Text.bracketList (texts items)
  | tuple items => Text.bracketTuple (texts items)
  | dict entries => Text.bracketDict (entryTexts entries)
  | view entries => Text.bracketCall "mappingproxy" [Text.bracketDict (entryTexts entries)]
  | bytes data => Text.quotedBytes data
  | set members => Text.bracketSet (texts members)
  | fraction q => Text.bracketCall "Fraction" [Integer.text q.num, Nat.repr q.den]
  | decimal d => Text.bracketCall "Decimal" [Text.quoted d.text]
  | kind k => "<DescriptorKind." ++ k.name ++ ": " ++ Text.quoted k.id ++ ">"
  | descriptor d => d.text
  | altered k held => Text.bracketCall k.className [k.field?.getD "" ++ "=" ++ text held]
  | foreign _ shown _ => shown
  | again shown => shown
termination_by structural v => v

def texts : List Value → List String
  | [] => []
  | v :: vs => text v :: texts vs
termination_by structural vs => vs

def entryTexts : List (Value × Value) → List (String × String)
  | [] => []
  | (key, v) :: entries => (text key, text v) :: entryTexts entries
termination_by structural entries => entries

end

/-- The text of a value inside a sentence: strings stand for themselves, and numbers and kinds have
a plainer form. -/
def plainText : Value → String
  | string s => s
  | fraction q => Integer.text q.num ++ (if q.den = 1 then "" else "/" ++ Nat.repr q.den)
  | decimal d => d.text
  | kind k => "DescriptorKind." ++ k.name
  | v => v.text

end DataSchema.Value
