import DataSchema.Proofs.Sequence
import DataSchema.Settings

/-!
Limits on nesting, and what fails because of them. A failure for want of levels is told from all
others by its family.
-/

namespace DataSchema

theorem Limit.bound_eq {limit : Limit} {levels : Nat} (h : limit.levels = some levels) :
    limit.bound = levels := by
  rw [Limit.bound, h, Option.getD_some]

theorem Limit.bound_le_bound {limit limit' : Limit} {levels levels' : Nat}
    (h : limit.levels = some levels) (h' : limit'.levels = some levels') (hle : levels ≤ levels') :
    limit.bound ≤ limit'.bound := by
  rwa [Limit.bound_eq h, Limit.bound_eq h']

/-- A run that wants more levels than a limit allows fails for want of levels. -/
theorem Limit.family_overrun {limit : Limit} {levels : Nat} (h : limit.levels = some levels)
    (kind : Kind) : (limit.overrun kind).family = .nesting := by
  simp [overrun, h, Error.family]

/-- Settings bound the levels by the ceiling, if they bound them. -/
theorem Depth.levels_le_ceiling (depth : Depth) {levels : Nat}
    (h : depth.limit.levels = some levels) : levels ≤ Depth.ceiling := by
  unfold Depth.limit at h
  split at h
  · obtain rfl := Option.some.inj h
    exact Nat.le_refl _
  · next hbelow =>
    split at h
    · next q hq =>
      obtain rfl := Option.some.inj h
      rw [hq, Extended.below_finite, decide_eq_true_iff, Rat.not_lt] at hbelow
      have hfloor : q.floor ≤ (Depth.ceiling : Int) := by
        rw [← Rat.floor_intCast (Depth.ceiling : Int)]
        exact Rat.floor_monotone hbelow
      omega
    · contradiction

/-- A depth that is not below a whole number, which is not above the ceiling, allows that many
levels. -/
theorem Depth.exists_levels_of_le {depth : Depth} {q : Rat} (h : depth.number = .finite q) {n : Nat}
    (hn : (n : Rat) ≤ q) (hceiling : n ≤ Depth.ceiling) :
    ∃ levels, depth.limit.levels = some levels ∧ n ≤ levels := by
  unfold Depth.limit
  split
  · exact ⟨Depth.ceiling, rfl, hceiling⟩
  · have hfloor : (n : Int) ≤ q.floor := Rat.le_floor_iff.mpr (by exact_mod_cast hn)
    simp only [h]
    exact ⟨q.floor.toNat, rfl, by omega⟩

/-- A whole number up to the ceiling allows so many levels. -/
theorem Depth.levels_ofInt {n : Int} (h : 1 ≤ n) (hle : n ≤ Depth.ceiling) :
    (Depth.ofInt n h).limit.levels = some n.toNat := by
  have hbelow : (Extended.finite Depth.ceiling).below (.finite n) = false := by
    rw [Extended.below_finite, decide_eq_false_iff_not, Rat.not_lt]
    exact_mod_cast hle
  simp only [Depth.limit, Depth.ofInt, hbelow, Bool.false_eq_true, if_false]
  rw [Rat.floor_intCast]

/-- A failure for want of levels. -/
def LacksLevels {α : Type} (r : Except Error α) : Prop := ∃ e, r = .error e ∧ e.family = .nesting

section LacksLevels

variable {α β : Type} {r : Except Error α}

@[simp] theorem lacksLevels_error {e : Error} :
    LacksLevels (.error e : Except Error α) ↔ e.family = .nesting := by
  simp [LacksLevels]

@[simp] theorem not_lacksLevels_ok (a : α) : ¬LacksLevels (.ok a : Except Error α) := by
  simp [LacksLevels]

@[simp] theorem lacksLevels_map (f : α → β) : LacksLevels (r.map f) ↔ LacksLevels r := by
  cases r <;> simp [Except.map]

theorem LacksLevels.bind (f : α → Except Error β) (h : LacksLevels r) : LacksLevels (r >>= f) := by
  obtain ⟨e, rfl, he⟩ := h
  exact ⟨e, rfl, he⟩

theorem not_lacksLevels_bind {f : α → Except Error β} (hr : ¬LacksLevels r)
    (hf : ∀ a, ¬LacksLevels (f a)) : ¬LacksLevels (r >>= f) := by
  cases r with
  | error e =>
    have he : e.family ≠ .nesting := mt lacksLevels_error.mpr hr
    exact mt lacksLevels_error.mp he
  | ok a => exact hf a

theorem sequential_lacksLevels : Sequential fun α (r : Except Error α) => ¬LacksLevels r where
  pure a := not_lacksLevels_ok a
  bind := not_lacksLevels_bind

end LacksLevels

end DataSchema
