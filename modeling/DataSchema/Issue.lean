import DataSchema.Value.Text

/-!
Issues: where a value failed, which kind of descriptor rejected it there, and why.
-/

namespace DataSchema

inductive Reason where
  | notAbsent (found : Value)
  | notBool (found : Value)
  | notNumber (found : Value)
  | notText (found : Value)
  | notLiteral (expected found : Value)
  | notSequence (found : Value)
  | notMapping (found : Value)
  | keyNotText (key : Value)
  | noAlternative (kinds : List Kind)
  | notDescriptor (found : Value)
  | otherKind (expected found : Kind)
  | negativeLength

def Reason.message : Reason → String
  | notAbsent v => "expected None, got " ++ v.typeName
  | notBool v => "expected bool, got " ++ v.typeName
  | notNumber v => "expected a finite number, got " ++ v.text
  | notText v => "expected str, got " ++ v.typeName
  | notLiteral w v => "expected literal " ++ w.text ++ ", got " ++ v.text
  | notSequence v => "expected a list, got " ++ v.typeName
  | notMapping v => "expected a mapping, got " ++ v.typeName
  | keyNotText key => "record keys must be str, got " ++ key.text
  | noAlternative kinds => "no alternative matched (" ++ Text.commas (kinds.map Kind.id) ++ ")"
  | notDescriptor v => "expected a descriptor, got " ++ v.typeName
  | otherKind expected found =>
    "expected a " ++ Text.quoted expected.id ++ " descriptor, got " ++ Text.quoted found.id
  | negativeLength => "file length must be >= 0"

structure Issue where
  path : Path
  kind : Kind
  reason : Reason

namespace Issue

def message (issue : Issue) : String := issue.reason.message

def location (issue : Issue) : String := issue.path.location

end Issue

/-- The outcome of an explanation. -/
structure Report where
  kind : Kind
  ok : Bool
  issues : List Issue

end DataSchema
