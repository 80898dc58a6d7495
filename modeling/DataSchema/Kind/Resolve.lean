import DataSchema.Error
import DataSchema.Text.Snake

/-!
Resolving what a caller gives as an id to a kind: a kind itself, or its id in any case and with
white space around it.
-/

namespace DataSchema.Kind

def ofWord? (word : String) : Except Error Kind :=
  let plain := Text.plainWord word
  if Text.isLowerSnake plain then
    match ofId? plain with
    | some k => .ok k
    | none => .error (.idUnknown (.string word))
  else .error (.idNotSnake (.string word))

/-- Whether a value is a word in small letters and digits. What counts as false is no word; what
else is no text cannot be asked. -/
def isWord? : Value → Except Error Bool
  | .string word => .ok (Text.isLowerSnake word)
  | v => if v.truthy then .error .wrongOperand else .ok false

def resolve? : Value → Except Error Kind
  | .kind k => .ok k
  | .string word => ofWord? word
  | v => .error (.idNotText v)

end DataSchema.Kind
