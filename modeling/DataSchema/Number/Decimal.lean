import DataSchema.Number.Scientific

/-!
Decimal numbers that keep the digits they were written with: `1.50` and `1.5` are the same number
in two forms.
-/

namespace DataSchema

/-- No number may be signaling, which makes every comparison with it fail, and may carry digits;
zero stands for none. -/
inductive Decimal where
  | nan (negative signaling : Bool) (payload : Nat)
  | infinite (negative : Bool)
  | finite (negative : Bool) (digits : Scientific)
  deriving DecidableEq

namespace Decimal

/-- The largest exponent of the first digit. -/
def maxExponent : Int := 999999999999999999

/-- The smallest exponent of the last digit. -/
def minExponent : Int := -1999999999999999997

/-- Digits in the range of exponents. A zero is brought into the range; any other number has to
lie in it. -/
def inRange? (digits : Scientific) : Option Scientific :=
  if digits.coefficient = 0 then
    some ⟨0, max minExponent (min digits.exponent maxExponent)⟩
  else if minExponent ≤ digits.exponent && digits.exponent + digits.size - 1 ≤ maxExponent then
    some digits
  else none

/-- The digits that a number which is none carries. -/
def payload? (digits : List Char) : Option Nat :=
  if digits.all Char.isDigit then some (Scientific.ofDigits digits) else none

/-- Reads a number with white space around it and underscores anywhere in it. Letters may be large
or small, and digits of any script. -/
def read? (source : String) : Option Decimal :=
  let plain := ((Text.trim source.toList).map Text.plainDigit).filter (· != '_')
  let (negative, body) := Scientific.splitSign plain
  match body.map Char.toLower with
  | 'n' :: 'a' :: 'n' :: digits => (payload? digits).map (.nan negative false)
  | 's' :: 'n' :: 'a' :: 'n' :: digits => (payload? digits).map (.nan negative true)
  | ['i', 'n', 'f'] | ['i', 'n', 'f', 'i', 'n', 'i', 't', 'y'] => some (.infinite negative)
  | _ => do return .finite negative (← inRange? (← Scientific.read? body))

/-- Numbers of other kinds stay far below ten to this power, and so do their parts. -/
def reach : Int := 100000

/-- The value of a finite decimal for comparisons with numbers of other kinds: beyond their reach
one power of ten stands for all. -/
def exact (negative : Bool) (digits : Scientific) : Rat :=
  let digits := digits.normal
  let signed : Int := if negative then -(digits.coefficient : Int) else digits.coefficient
  let exponent := max (-(reach + digits.size)) (min digits.exponent reach)
  if 0 ≤ exponent then (signed * Nat.pow 10 exponent.toNat : Int)
  else mkRat signed (Nat.pow 10 exponent.natAbs)

/-- The integer part of a finite decimal; one beyond the reach of other numbers is cut to it. -/
def truncate (negative : Bool) (digits : Scientific) : Int :=
  let whole : Nat :=
    if 0 ≤ digits.exponent then
      digits.coefficient * Nat.pow 10 (min digits.exponent reach).toNat
    else if digits.exponent < -digits.size then 0
    else digits.coefficient / Nat.pow 10 digits.exponent.natAbs
  if negative then -(whole : Int) else whole

/-- Equal as numbers. -/
def same : Decimal → Decimal → Bool
  | infinite m, infinite n => m == n
  | finite m a, finite n b => a.normal == b.normal && (m == n || a.coefficient == 0)
  | _, _ => false

def isSignaling : Decimal → Bool
  | nan _ signaling _ => signaling
  | _ => false

/-- Digits that sums keep. -/
def precision : Nat := 28

/-- The largest exponent of the first digit of a sum. -/
def sumExponent : Int := 999999

/-- The exponent of the last place of a sum that is kept. -/
def lastPlace : Int := -1000026

/-- What is left of the digits from the place with this exponent on; what is cut off rounds them to
the nearest, a tie to the even. -/
def roundAt (place : Int) (digits : Scientific) : Scientific :=
  let cut := (place - digits.exponent).toNat
  if cut = 0 then digits
  else if digits.size < cut then ⟨0, place⟩
  else
    let unit := Nat.pow 10 cut
    let kept := digits.coefficient / unit
    let twice := 2 * (digits.coefficient % unit)
    let up := unit < twice || (twice == unit && kept % 2 == 1)
    let rounded := if up then kept + 1 else kept
    if rounded = Nat.pow 10 precision then ⟨rounded / 10, place + 1⟩ else ⟨rounded, place⟩

/-- A sum as it is kept, if it is not too large: with `precision` digits, and no place after the
last. -/
def ofSum? (digits : Scientific) : Option Scientific :=
  if digits.coefficient = 0 then some ⟨0, max lastPlace (min digits.exponent sumExponent)⟩
  else
    let rounded := roundAt (max lastPlace (digits.exponent + digits.size - precision)) digits
    if rounded.exponent + rounded.size - 1 ≤ sumExponent then some rounded else none

/-- The sum of a number with itself, if it is not too large. Of what a number that is none carries,
the last digits are kept. -/
def double? : Decimal → Option Decimal
  | nan negative signaling payload =>
    some (nan negative signaling (payload % Nat.pow 10 precision))
  | infinite negative => some (infinite negative)
  | finite negative digits =>
    (ofSum? ⟨2 * digits.coefficient, digits.exponent⟩).map (finite negative)

/-- The point stands in its place when the exponent is not positive and fewer than six zeros would
follow the point; otherwise it follows the first digit. -/
def digitsText (digits : Scientific) : String :=
  let ds := (Nat.repr digits.coefficient).toList
  let left := digits.exponent + ds.length
  let point : Int := if digits.exponent ≤ 0 && -6 < left then left else 1
  let body :=
    if point ≤ 0 then "0." ++ String.ofList (List.replicate point.natAbs '0' ++ ds)
    else if ds.length ≤ point.toNat then
      String.ofList (ds ++ List.replicate (point.toNat - ds.length) '0')
    else String.ofList (ds.take point.toNat) ++ "." ++ String.ofList (ds.drop point.toNat)
  if left = point then body
  else body ++ "E" ++ (if left < point then "-" else "+") ++ Nat.repr (left - point).natAbs

def text : Decimal → String
  | nan negative signaling payload =>
    (if negative then "-" else "") ++ (if signaling then "sNaN" else "NaN") ++
      (if payload = 0 then "" else Nat.repr payload)
  | infinite negative => if negative then "-Infinity" else "Infinity"
  | finite negative digits => (if negative then "-" else "") ++ digitsText digits

end Decimal

end DataSchema
