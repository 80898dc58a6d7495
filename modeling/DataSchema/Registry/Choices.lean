import DataSchema.Check

/-!
The choices offered for a value of any kind, and the one that fits a given value.
-/

namespace DataSchema.Registry

def defaultChoices : List Descriptor :=
  [.string, .number, .boolean, .object [("name", .string), ("age", .number)], .list .any,
   .file (some "*/*"), .image]

/-- The position of the first choice that accepts the value. -/
def defaultChoiceFor (v : Value) : Except Error (Option Nat) :=
  matchAlternative .default v defaultChoices

end DataSchema.Registry
