import DataSchema.Number.Binary64
import DataSchema.Number.Integer
import DataSchema.Number.Scientific

/-!
The text of a floating point number: the fewest decimal digits that read back as the number, and
of these the digits nearest to it.
-/

namespace DataSchema

namespace Finite64

/-- `10 ^ exponent` as a quotient of whole numbers. -/
def powerOfTen (exponent : Int) : Nat × Nat :=
  if 0 ≤ exponent then (Nat.pow 10 exponent.toNat, 1) else (1, Nat.pow 10 exponent.natAbs)

/-- The exponent of the least power of ten above the magnitude. -/
def decimalSize (x : Finite64) : Int :=
  if unitsPerOne ≤ x.units then (Nat.toDigits 10 (x.units / unitsPerOne)).length
  else 1 - ((Nat.toDigits 10 (unitsPerOne / x.units)).length : Int)

def readsBack (x : Finite64) (digits : Scientific) : Bool :=
  Binary64.ofDecimal x.negative digits.coefficient digits.exponent == .finite x

/-- The neighbour of the magnitude on the grid of multiples of `10 ^ exponent` that reads back as
the number; of two such neighbours the nearer one, and at a tie the one with an even last digit. -/
def onGrid? (x : Finite64) (exponent : Int) : Option Scientific :=
  let (up, down) := powerOfTen exponent
  let numerator := x.units * down
  let denominator := unitsPerOne * up
  let floor := numerator / denominator
  let lower : Scientific := ⟨floor, exponent⟩
  let upper : Scientific := ⟨floor + 1, exponent⟩
  match x.readsBack lower, x.readsBack upper with
  | true, true => some (if roundHalfEven numerator denominator = floor then lower else upper)
  | true, false => some lower
  | false, true => some upper
  | false, false => none

/-- All digits of the number: every multiple of a unit has a finite decimal form. -/
def allDigits (x : Finite64) : Scientific := ⟨x.units * Nat.pow 5 1074, -1074⟩

def stripZeros (digits : Scientific) : Scientific :=
  if h : digits.coefficient ≠ 0 ∧ digits.coefficient % 10 = 0 then
    stripZeros ⟨digits.coefficient / 10, digits.exponent + 1⟩
  else digits
termination_by digits.coefficient
decreasing_by omega

/-- The shortest digits of a number other than zero. Seventeen digits suffice for this format. -/
def shortest (x : Finite64) : Scientific :=
  let found := (List.range 17).findSome? fun (count : Nat) =>
    x.onGrid? (x.decimalSize - (count + 1))
  stripZeros (found.getD x.allDigits)

end Finite64

namespace Scientific

def zeroDigits (count : Nat) : String := String.ofList (List.replicate count '0')

/-- At least two digits. -/
def exponentText (exponent : Int) : String :=
  let digits := Nat.repr exponent.natAbs
  let sign := if exponent < 0 then "-" else "+"
  sign ++ zeroDigits (2 - digits.length) ++ digits

/-- Numbers from `10 ^ -4` up to `10 ^ 16` are written with a point in its place, all others with
the point after the first digit and an exponent. -/
def text (digits : Scientific) : String :=
  let ds := (Nat.repr digits.coefficient).toList
  let point := digits.exponent + ds.length
  if -4 < point && point ≤ 16 then
    if point ≤ 0 then "0." ++ zeroDigits point.natAbs ++ String.ofList ds
    else if ds.length ≤ point.toNat then
      String.ofList ds ++ zeroDigits (point.toNat - ds.length) ++ ".0"
    else String.ofList (ds.take point.toNat) ++ "." ++ String.ofList (ds.drop point.toNat)
  else
    let rest := if ds.length ≤ 1 then "" else "." ++ String.ofList (ds.drop 1)
    String.ofList (ds.take 1) ++ rest ++ "e" ++ exponentText (point - 1)

end Scientific

namespace Binary64

def text : Binary64 → String
  | .nan => "nan"
  | .infinite negative => if negative then "-inf" else "inf"
  | .finite x =>
    let sign := if x.negative then "-" else ""
    if x.units = 0 then sign ++ "0.0" else sign ++ x.shortest.text

/-- Underscores have to stand between digits. The text without them, when they do. -/
def dropUnderscores? : List Char → Option (List Char)
  | a :: '_' :: b :: rest =>
    if a.isDigit && b.isDigit then (dropUnderscores? (b :: rest)).map (a :: ·) else none
  | c :: rest => if c = '_' then none else (dropUnderscores? rest).map (c :: ·)
  | [] => some []

/-- Reads a number in decimal notation or one of its words, with white space around it, a sign or
none, and digits of any script. -/
def read? (source : String) : Option Binary64 := do
  let plain ← dropUnderscores? ((Integer.unpad source.toList).map Text.plainDigit)
  let (negative, body) := Scientific.splitSign plain
  match body.map Char.toLower with
  | ['n', 'a', 'n'] => return .nan
  | ['i', 'n', 'f'] | ['i', 'n', 'f', 'i', 'n', 'i', 't', 'y'] => return .infinite negative
  | _ => do
    let digits ← Scientific.read? body
    return ofDecimal negative digits.coefficient digits.exponent

end Binary64

end DataSchema
