import DataSchema.Text.Class

/-!
The decimal notation `12.50e-3`, read as a whole coefficient and a power of ten.
-/

namespace DataSchema

/-- `coefficient * 10 ^ exponent`. -/
structure Scientific where
  coefficient : Nat
  exponent : Int
  deriving DecidableEq, Repr

namespace Scientific

def ofDigits (digits : List Char) : Nat :=
  digits.foldl (fun n c => 10 * n + (c.toNat - 48)) 0

/-- The sign in front of a number, and what follows it. -/
def splitSign : List Char → Bool × List Char
  | '-' :: rest => (true, rest)
  | '+' :: rest => (false, rest)
  | text => (false, text)

def readExponent? : List Char → Option Int
  | [] => some 0
  | mark :: rest =>
    let (negative, digits) := splitSign rest
    if (mark == 'e' || mark == 'E') && !digits.isEmpty && digits.all Char.isDigit then
      some (if negative then -(ofDigits digits : Int) else ofDigits digits)
    else none

/-- Reads an unsigned number: digits, perhaps a point with digits around it, perhaps an exponent.
There is at least one digit before the exponent. -/
def read? (text : List Char) : Option Scientific :=
  let whole := text.takeWhile Char.isDigit
  let rest := text.dropWhile Char.isDigit
  let (places, tail) := match rest with
    | '.' :: after => (after.takeWhile Char.isDigit, after.dropWhile Char.isDigit)
    | _ => ([], rest)
  if whole.isEmpty && places.isEmpty then none
  else (readExponent? tail).map fun exponent =>
    ⟨ofDigits (whole ++ places), exponent - places.length⟩

/-- The number of digits of the coefficient. -/
def size (digits : Scientific) : Nat := (Nat.repr digits.coefficient).length

/-- The same number with no zero at the end of its coefficient; zero has the exponent zero. -/
def normal (digits : Scientific) : Scientific :=
  let ds := (Nat.repr digits.coefficient).toList
  let kept := (ds.reverse.dropWhile (· == '0')).reverse
  if digits.coefficient = 0 then ⟨0, 0⟩
  else ⟨ofDigits kept, digits.exponent + (ds.length - kept.length : Nat)⟩

end Scientific

end DataSchema
