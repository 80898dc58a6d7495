/-!
Binary floating point numbers of 64 bits, given by their fields. A finite one is a whole number of
units of `2 ^ -1074`, so comparing and rounding are exact arithmetic on whole numbers.
-/

namespace DataSchema

/-- Values that the fraction field can take: two to the power 52. -/
abbrev Finite64.fractionCount : Nat := 0x10000000000000

/-- A finite number of the format: its sign and the two other fields. -/
structure Finite64 where
  negative : Bool
  exponent : Fin 2047
  fraction : Fin Finite64.fractionCount
  deriving DecidableEq

inductive Binary64 where
  | nan
  | infinite (negative : Bool)
  | finite (x : Finite64)
  deriving DecidableEq

/-- Units in the number one. -/
def unitsPerOne : Nat := 1 <<< 1074

namespace Finite64

/-- The magnitude in units. -/
def units (x : Finite64) : Nat :=
  if x.exponent.val = 0 then x.fraction.val
  else (fractionCount + x.fraction.val) <<< (x.exponent.val - 1)

def toRat (x : Finite64) : Rat :=
  mkRat (if x.negative then -(x.units : Int) else x.units) unitsPerOne

/-- The integer part: what is behind the point is dropped, whatever the sign. -/
def truncate (x : Finite64) : Int :=
  let whole : Int := ↑(x.units / unitsPerOne)
  if x.negative then -whole else whole

def zero (negative : Bool) : Finite64 := ⟨negative, 0, 0⟩

@[simp] theorem units_zero (negative : Bool) : (zero negative).units = 0 := rfl

end Finite64

/-- The whole number nearest to a quotient; a tie goes to the even neighbour. -/
def roundHalfEven (numerator denominator : Nat) : Nat :=
  let quotient := numerator / denominator
  let twice := 2 * (numerator % denominator)
  if denominator < twice || (twice == denominator && quotient % 2 == 1) then quotient + 1
  else quotient

namespace Binary64

/-- `significand <<< shift` units. The significand has at most 53 bits, and all of these unless
`shift` is zero. -/
def ofScaled (negative : Bool) (significand shift : Nat) : Binary64 :=
  if h : significand < Finite64.fractionCount then .finite ⟨negative, 0, ⟨significand, h⟩⟩
  else if significand < 2 * Finite64.fractionCount then
    if h : shift + 1 < 2047 then
      .finite ⟨negative, ⟨shift + 1, h⟩, Fin.ofNat Finite64.fractionCount significand⟩
    else .infinite negative
  else if h : shift + 2 < 2047 then .finite ⟨negative, ⟨shift + 2, h⟩, 0⟩
  else .infinite negative

/-- The number nearest to a quotient of whole numbers; a tie goes to the even significand. -/
def ofRatio (negative : Bool) (numerator denominator : Nat) : Binary64 :=
  let scaled := numerator * unitsPerOne
  let shift := (scaled / denominator).log2 - 52
  ofScaled negative (roundHalfEven scaled (denominator <<< shift)) shift

def ofInt (n : Int) : Binary64 := ofRatio (n < 0) n.natAbs 1

def ofRat (q : Rat) : Binary64 := ofRatio (q.num < 0) q.num.natAbs q.den

/-- The number nearest to `coefficient * 10 ^ exponent`. Exponents far outside the format's range
are answered without computing the power. -/
def ofDecimal (negative : Bool) (coefficient : Nat) (exponent : Int) : Binary64 :=
  let size := exponent + (Nat.toDigits 10 coefficient).length
  if coefficient = 0 || size < -330 then .finite (.zero negative)
  else if 310 < size then .infinite negative
  else if 0 ≤ exponent then ofRatio negative (coefficient * Nat.pow 10 exponent.toNat) 1
  else ofRatio negative coefficient (Nat.pow 10 exponent.natAbs)

def isFinite : Binary64 → Bool
  | .finite _ => true
  | _ => false

/-- The sum of a number with itself. -/
def double : Binary64 → Binary64
  | .finite x => ofRatio x.negative (2 * x.units) unitsPerOne
  | x => x

end Binary64

end DataSchema
