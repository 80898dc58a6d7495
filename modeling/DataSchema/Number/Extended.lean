import DataSchema.Number.Binary64
import DataSchema.Number.Decimal

/-!
Exact comparison of numbers of different kinds: each is a rational number, one of the two
infinities, or no number at all.
-/

namespace DataSchema

inductive Extended where
  | nan
  | minusInfinity
  | finite (q : Rat)
  | plusInfinity
  deriving DecidableEq

namespace Extended

def ofBinary64 : Binary64 → Extended
  | .nan => .nan
  | .infinite negative => if negative then .minusInfinity else .plusInfinity
  | .finite x => .finite x.toRat

def ofDecimal : Decimal → Extended
  | .nan _ _ _ => .nan
  | .infinite negative => if negative then .minusInfinity else .plusInfinity
  | .finite negative digits => .finite (Decimal.exact negative digits)

/-- Strictly below; never so for `nan`. -/
def below : Extended → Extended → Bool
  | .nan, _ | _, .nan => false
  | .finite p, .finite q => p < q
  | .minusInfinity, b => b != .minusInfinity
  | .finite _, b => b == .plusInfinity
  | .plusInfinity, _ => false

/-- Equal as numbers; `nan` equals nothing. -/
def same (a b : Extended) : Bool := a != .nan && a == b

theorem same_finite (p q : Rat) : same (.finite p) (.finite q) = decide (p = q) := by
  by_cases h : p = q <;> simp [same, h]

theorem below_finite (p q : Rat) : below (.finite p) (.finite q) = decide (p < q) := rfl

end Extended

end DataSchema
