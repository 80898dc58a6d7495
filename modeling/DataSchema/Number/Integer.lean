import DataSchema.Text.Class

/-!
Whole numbers in running text: white space around them, a sign, and digits of any script with
single underscores between them.
-/

namespace DataSchema.Integer

/-- Longer numbers are neither read nor written. -/
def maxDigits : Nat := 4300

/-- White space around a number; the information separators do not count. -/
def isPadding (c : Char) : Bool := Text.isBlank c && !Text.within [(0x1C, 0x1F)] c

/-- The text of a number without the white space around it. -/
def unpad (text : List Char) : List Char :=
  ((text.dropWhile isPadding).reverse.dropWhile isPadding).reverse

/-- The values of the digits, when single underscores are all that stands between them. -/
def digits? : List Char → Option (List Nat)
  | [] => none
  | [c] => (Text.digitValue? c).map ([·])
  | c :: '_' :: rest => do return (← Text.digitValue? c) :: (← digits? rest)
  | c :: rest => do return (← Text.digitValue? c) :: (← digits? rest)

def magnitude? (text : List Char) : Option Nat := do
  let digits ← digits? text
  guard (digits.length ≤ maxDigits)
  return digits.foldl (fun n digit => 10 * n + digit) 0

def read? (text : List Char) : Option Int :=
  match unpad text with
  | '-' :: rest => (magnitude? rest).map fun n => -(n : Int)
  | '+' :: rest => (magnitude? rest).map fun n => (n : Int)
  | rest => (magnitude? rest).map fun n => (n : Int)

/-- Bytes hold a number when they hold its ASCII form. -/
def ofBytes? (data : List UInt8) : Option Int :=
  if data.all (· < 0x80) then read? (data.map fun byte => Char.ofNat byte.toNat) else none

/-- Decimal digits after a minus sign, if the number is negative. -/
def text (n : Int) : String :=
  (if n < 0 then "-" else "") ++ Nat.repr n.natAbs

/-- Whether the number has so few digits that it is written. -/
def isWritten (n : Int) : Bool :=
  n.natAbs.log2 < 3 * maxDigits || decide (n.natAbs < Nat.pow 10 maxDigits)

end DataSchema.Integer
