import DataSchema.Number.Binary64
import Mathlib.Tactic.Ring

/-!
Where rounding to a float overflows. Main statement: a fraction has a finite float next to it just
if its magnitude is less than halfway from the greatest finite float to the power of two after it.
-/

namespace DataSchema

theorem le_roundHalfEven (n d : Nat) : n / d ≤ roundHalfEven n d := by
  unfold roundHalfEven
  dsimp only
  split <;> omega

theorem roundHalfEven_le (n d : Nat) : roundHalfEven n d ≤ n / d + 1 := by
  unfold roundHalfEven
  dsimp only
  split <;> omega

/-- A quotient with an odd floor is rounded down just if it is less than halfway to the next whole
number. -/
theorem roundHalfEven_le_iff_of_odd {n d : Nat} (h : n / d % 2 = 1) :
    roundHalfEven n d ≤ n / d ↔ 2 * (n % d) < d := by
  unfold roundHalfEven
  simp only [h, Bool.or_eq_true, decide_eq_true_eq, Bool.and_eq_true, beq_iff_eq, and_true]
  split <;> omega

/-- Rounding stays below an even number just if the quotient is less than halfway to it from the odd
one before: the tie between the two goes to the even one. -/
theorem roundHalfEven_lt_iff {n d m : Nat} (hd : 0 < d) (hm : m % 2 = 0) :
    roundHalfEven n d < m ↔ 2 * n + d < 2 * (d * m) := by
  have hn : d * (n / d) + n % d = n := Nat.div_add_mod n d
  have hr : n % d < d := Nat.mod_lt n hd
  have hlow := le_roundHalfEven n d
  have hhigh := roundHalfEven_le n d
  rcases Nat.lt_trichotomy (n / d + 1) m with hlt | rfl | hgt
  · have hmul : d * (n / d + 2) ≤ d * m := Nat.mul_le_mul_left d hlt
    rw [Nat.mul_add] at hmul
    omega
  · have hodd := roundHalfEven_le_iff_of_odd (n := n) (d := d) (by omega)
    rw [Nat.mul_add, Nat.mul_one, Nat.lt_succ_iff, hodd]
    omega
  · have hmul : d * m ≤ d * (n / d) := Nat.mul_le_mul_left d (Nat.lt_succ_iff.mp hgt)
    omega

namespace Binary64

/-! A quotient of whole numbers in a format with `2 ^ a` units in the number one, whose greatest
shift is `a + b + 1`. -/

section Format

variable (a b n : Nat) {d : Nat} (hd : 0 < d)
include hd

theorem scaled_div_lt_iff (k : Nat) : n * 2 ^ a / d < 2 ^ (k + a) ↔ n < 2 ^ k * d := by
  rw [Nat.div_lt_iff_lt_mul hd, Nat.pow_add, Nat.mul_right_comm,
    Nat.mul_lt_mul_right (Nat.two_pow_pos a)]

omit hd in
/-- The bound is between two powers of two that are next to each other. -/
theorem bound_between : 2 ^ (53 + b) * d ≤ (2 ^ 54 - 1) * 2 ^ b * d ∧
    (2 ^ 54 - 1) * 2 ^ b * d ≤ 2 ^ (54 + b) * d := by
  simp only [Nat.pow_add, Nat.mul_assoc]
  exact ⟨Nat.mul_le_mul_right _ (by decide), Nat.mul_le_mul_right _ (by decide)⟩

/-- With the greatest shift the significand has no more bits than fit just if the quotient is below
the bound. -/
theorem significand_lt_iff :
    roundHalfEven (n * 2 ^ a) (d * 2 ^ (a + b + 1)) < 2 ^ 53 ↔ n < (2 ^ 54 - 1) * 2 ^ b * d := by
  rw [roundHalfEven_lt_iff (Nat.mul_pos hd (Nat.two_pow_pos _)) (by decide), Nat.pow_succ,
    Nat.pow_add]
  have hleft : 2 * (n * 2 ^ a) + d * (2 ^ a * 2 ^ b * 2) = 2 * (n + 2 ^ b * d) * 2 ^ a := by ring
  have hright : 2 * (d * (2 ^ a * 2 ^ b * 2) * 2 ^ 53) = 2 * (2 ^ 54 * (2 ^ b * d)) * 2 ^ a := by
    ring
  rw [hleft, hright, Nat.mul_lt_mul_right (Nat.two_pow_pos a), Nat.mul_assoc]
  omega

omit hd in
theorem two_pow_le_div {log : Nat} (hlog : (n * 2 ^ a / d).log2 = log) (h : 52 < log) :
    2 ^ log ≤ n * 2 ^ a / d := by
  have hzero : n * 2 ^ a / d ≠ 0 := by
    intro hzero
    rw [hzero, Nat.log2_zero] at hlog
    omega
  exact hlog ▸ Nat.log2_self_le hzero

/-- A significand has all bits that fit, unless the shift is zero. -/
theorem le_significand {log : Nat} (hlog : (n * 2 ^ a / d).log2 = log) (h : 52 < log) :
    2 ^ 52 ≤ roundHalfEven (n * 2 ^ a) (d * 2 ^ (log - 52)) := by
  have hlow := two_pow_le_div a n hlog h
  have hpow : 2 ^ log = 2 ^ 52 * 2 ^ (log - 52) := by
    rw [← Nat.pow_add]
    congr 1
    omega
  rw [Nat.le_div_iff_mul_le hd, hpow, Nat.mul_assoc, Nat.mul_comm _ d] at hlow
  exact Nat.le_trans ((Nat.le_div_iff_mul_le (Nat.mul_pos hd (Nat.two_pow_pos _))).mpr hlow)
    (le_roundHalfEven _ _)

/-- The number nearest to a quotient is finite just if the quotient is below the bound. -/
theorem fits_iff {log : Nat} (hlog : (n * 2 ^ a / d).log2 = log) :
    (roundHalfEven (n * 2 ^ a) (d * 2 ^ (log - 52)) < 2 ^ 52 ∨ log - 52 < a + b + 1 ∨
      log - 52 = a + b + 1 ∧ roundHalfEven (n * 2 ^ a) (d * 2 ^ (log - 52)) < 2 ^ 53) ↔
    n < (2 ^ 54 - 1) * 2 ^ b * d := by
  obtain ⟨hlower, hupper⟩ := bound_between b (d := d)
  rcases Nat.lt_trichotomy (log - 52) (a + b + 1) with hlow | heq | hhigh
  · have hquotient : n * 2 ^ a / d < 2 ^ (53 + b + a) := by
      refine Nat.lt_of_lt_of_le Nat.lt_log2_self (Nat.pow_le_pow_right (by decide) ?_)
      omega
    have hn := (scaled_div_lt_iff a n hd _).mp hquotient
    have hfits := Nat.lt_of_lt_of_le hn hlower
    simp only [hlow, hfits, true_or, or_true]
  · rw [heq, ← significand_lt_iff a b n hd]
    omega
  · have hsignificand := le_significand a n hd hlog (by omega)
    have hquotient : 2 ^ (54 + b + a) ≤ n * 2 ^ a / d := by
      refine Nat.le_trans (Nat.pow_le_pow_right (by decide) ?_) (two_pow_le_div a n hlog (by omega))
      omega
    have hn := mt (scaled_div_lt_iff a n hd _).mpr (Nat.not_lt.mpr hquotient)
    omega

end Format

/-- The least magnitude that rounds past the finite numbers: halfway from the greatest of them to
`2 ^ 1024`. -/
def overflow : Nat := (2 ^ 54 - 1) * 2 ^ 970

theorem isFinite_ofScaled (negative : Bool) (significand shift : Nat) :
    (ofScaled negative significand shift).isFinite = true ↔
      significand < 2 ^ 52 ∨ shift < 2045 ∨ shift = 2045 ∧ significand < 2 ^ 53 := by
  have hcount : Finite64.fractionCount = 2 ^ 52 := rfl
  unfold ofScaled
  split
  · simp_all [isFinite]
  · split
    · split
      · simp [isFinite]
        omega
      · simp [isFinite]
        omega
    · split
      · simp [isFinite]
        omega
      · simp [isFinite]
        omega

theorem isFinite_ofRatio (negative : Bool) (n : Nat) {d : Nat} (hd : 0 < d) :
    (ofRatio negative n d).isFinite = true ↔ n < overflow * d := by
  obtain ⟨a, hshift, hunits⟩ : ∃ a, a + 970 + 1 = 2045 ∧ unitsPerOne = 1 <<< a := ⟨1074, rfl, rfl⟩
  rw [Nat.one_shiftLeft] at hunits
  simp only [ofRatio, isFinite_ofScaled, Nat.shiftLeft_eq, hunits]
  rw [← hshift]
  exact fits_iff a 970 n hd rfl

theorem lt_natCast_iff (q : Rat) (n : Nat) : q < n ↔ q.num < n * q.den := by
  rw [Rat.lt_iff]
  simp

theorem neg_natCast_lt_iff (q : Rat) (n : Nat) : -(n : Rat) < q ↔ -(n * q.den : Int) < q.num := by
  rw [Rat.lt_iff]
  simp

/-- A fraction has a finite float next to it just if its magnitude is below the bound. -/
theorem isFinite_ofRat (q : Rat) :
    (ofRat q).isFinite = true ↔ -(overflow : Rat) < q ∧ q < overflow := by
  rw [ofRat, isFinite_ofRatio _ _ q.den_pos, neg_natCast_lt_iff, lt_natCast_iff]
  generalize overflow = bound
  rw [← Nat.cast_mul]
  omega

end Binary64

end DataSchema
