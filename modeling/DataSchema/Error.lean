import DataSchema.Value.Text

/-!
Causes of failure and their wording.
-/

namespace DataSchema

/-- `endless` is a computation that would not end because a value holds itself, or that goes deeper
than there is room for. `circular` is data that holds itself where only trees can be written. -/
inductive Error where
  | childNotDescriptor (kind : Kind) (role : String) (got : Value)
  | literalNotPrimitive (got : Value)
  | literalNotFinite (got : Value)
  | fieldNotPair (got : Value)
  | fieldNameNotText (got : Value)
  | fieldRepeated (name : String)
  | noAlternatives
  | tagNotText (got : Value)
  | idNotText (got : Value)
  | idNotSnake (got : Value)
  | idUnknown (got : Value)
  | noRule (kind : Kind)
  | cyclicGraph (kind : Kind)
  | rowsRejected (kind : Kind) (rows : List Nat)
  | nestedTooDeep (limit : Value) (kind : Kind)
  | depthBelowOne (got : Value)
  | notIterable
  | unhashable
  | notComparable
  | notSerializable
  | readOnly
  | wrongOperand
  | wrongLength
  | wrongPosition
  | numberTooLarge
  | sumTooLarge
  | missingKey (name : String)
  | noAttribute (name : String)
  | frozen
  | notUtf8
  | nameTooLong
  | undefinedNumber
  | zeroDenominator
  | notReadable
  | numberTooLong
  | circular
  | tooDeep
  | endless
  | stepNotPlain
  | notData

namespace Error

/-- What a caller may want to tell apart: failures of a descriptor or of its id, of the data, of
the nesting limit, of the settings, and the failures of single operations on values. -/
inductive Family where
  | descriptor
  | schema
  | nesting
  | settings
  | type
  | value
  | overflow
  | sum
  | position
  | key
  | attribute
  | frozen
  | encoding
  | file
  | arithmetic
  | division
  | recursion
  | path
  | conversion
  deriving DecidableEq

def family : Error → Family
  | childNotDescriptor _ _ _ | literalNotPrimitive _ | literalNotFinite _ | fieldNotPair _
  | fieldNameNotText _ | fieldRepeated _ | noAlternatives | tagNotText _ | idNotText _
  | idNotSnake _ | idUnknown _ | noRule _ | cyclicGraph _ => .descriptor
  | rowsRejected _ _ => .schema
  | nestedTooDeep _ _ => .nesting
  | depthBelowOne _ => .settings
  | notIterable | unhashable | notComparable | notSerializable | readOnly | wrongOperand => .type
  | wrongLength | notReadable | numberTooLong | circular | tooDeep => .value
  | wrongPosition => .position
  | numberTooLarge => .overflow
  | sumTooLarge => .sum
  | missingKey _ => .key
  | noAttribute _ => .attribute
  | frozen => .frozen
  | notUtf8 => .encoding
  | nameTooLong => .file
  | undefinedNumber => .arithmetic
  | zeroDenominator => .division
  | endless => .recursion
  | stepNotPlain => .path
  | notData => .conversion

/-- How many rejected rows are named in a message. -/
def shownRows : Nat := 10

def got (v : Value) : String := " (got: " ++ v.text ++ ")"

def message : Error → String
  | childNotDescriptor kind role v => kind.id ++ ": " ++ role ++ " must be a Descriptor" ++ got v
  | literalNotPrimitive v => "literal: value must be str, int, float or bool" ++ got v
  | literalNotFinite v => "literal: numeric value must be finite" ++ got v
  | fieldNotPair v => "object: fields must be (name, descriptor) pairs" ++ got v
  | fieldNameNotText v => "object: field names must be str" ++ got v
  | fieldRepeated name => "object: duplicate field name " ++ Text.quoted name
  | noAlternatives => "union: requires at least one alternative"
  | tagNotText v => "file: type must be a str or None" ++ got v
  | idNotText v => "descriptor id must be a string" ++ got v
  | idNotSnake v => "descriptor id must be lower_snake" ++ got v
  | idUnknown v => "unknown descriptor id: " ++ v.text
  | noRule kind => "no validation rule for descriptor kind " ++ Text.quoted kind.id
  | cyclicGraph kind => "cannot describe cyclic descriptor graph at " ++ Text.quoted kind.id
  | rowsRejected kind rows =>
    let shown := Text.bracketList ((rows.take shownRows).map Nat.repr)
    let more := rows.length - shownRows
    Nat.repr rows.length ++ " row(s) rejected by " ++ Text.quoted kind.id ++ ": " ++ shown ++
      (if more = 0 then "" else " (+" ++ Nat.repr more ++ " more)")
  | nestedTooDeep limit kind =>
    "validation exceeded max_depth=" ++ limit.plainText ++ " at descriptor " ++
      Text.quoted kind.id ++ "; the descriptor graph is likely cyclic"
  | depthBelowOne v => "EngineSettings max_depth must be >= 1, got " ++ v.plainText
  | notIterable => "not iterable"
  | unhashable => "not hashable"
  | notComparable => "not comparable"
  | notSerializable => "not serializable"
  | readOnly => "read-only"
  | wrongOperand => "wrong operand"
  | wrongLength => "wrong length"
  | wrongPosition => "wrong position"
  | numberTooLarge => "number too large"
  | sumTooLarge => "the sum is too large"
  | missingKey name => "no key " ++ Text.quoted name
  | noAttribute name => "no attribute " ++ Text.quoted name
  | frozen => "the field is frozen"
  | notUtf8 => "not UTF-8"
  | nameTooLong => "the name is too long"
  | undefinedNumber => "not a number"
  | zeroDenominator => "the denominator is zero"
  | notReadable => "not readable"
  | numberTooLong => "the number has too many digits"
  | circular => "the data holds itself"
  | tooDeep => "nested too deep"
  | endless => "without end"
  | stepNotPlain => "a step of a path must be text or a whole number"
  | notData => "no data"

end Error

end DataSchema
