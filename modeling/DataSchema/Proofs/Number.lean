import DataSchema.Proofs.Rounding
import DataSchema.Proofs.Store.Simulation
import DataSchema.Proofs.Totality

/-!
The question whether a value is a number, by itself and wherever a check comes to it. Main
statement: it is always answered, but for fractions past the bound where rounding to a float
overflows.
-/

namespace DataSchema

/-- An answer to whether `p` holds, or the failure of a fraction that is too large where not all
fractions fit. -/
def Answers (r : Except Error Bool) (p : Prop) (fits : Bool) : Prop :=
  (∃ ok, r = .ok ok ∧ (ok = true ↔ p)) ∨ r = .error .numberTooLarge ∧ fits = false

/-- Only fractions do not fit, and only those from the bound on. -/
theorem Value.fitsFloat_iff (v : Value) : v.fitsFloat = true ↔
    ∀ q, v = .fraction q → -(Binary64.overflow : Rat) < q ∧ q < Binary64.overflow := by
  cases v with
  | fraction q =>
    refine (Binary64.isFinite_ofRat q).trans ⟨?_, fun h => h q rfl⟩
    rintro h _ ⟨⟩
    exact h
  | _ => exact ⟨fun _ _ heq => (nomatch heq), fun _ => rfl⟩

theorem Test.demand_answers (mode : Recording) (holds : Bool) (issue : Issue)
    (issues : Array Issue) : (demand mode holds issue issues).map (·.1) = .ok holds := by
  cases holds <;> rfl

/-- Wherever a check comes to it, the question is answered for what fits and fails for what does
not. -/
theorem check_number (limit : Limit) (levels : Nat) (mode : Recording) (v : Value) (path : Path)
    (issues : Array Issue) : (check limit (levels + 1) mode .number v path issues).map (·.1) =
      if v.fitsFloat then .ok v.real?.isSome else .error .numberTooLarge := by
  have hrule : check limit (levels + 1) mode .number v path =
      rule (check limit levels) mode .number v path := rfl
  rw [hrule]
  simp only [rule, isNumber_eq]
  cases v.fitsFloat with
  | false => rfl
  | true => exact Test.demand_answers mode _ _ issues

theorem validate_number (settings : Settings) (v : Value) : validate settings .number v =
    if v.fitsFloat then .ok v.real?.isSome else .error .numberTooLarge :=
  check_number settings.depth.limit settings.depth.limit.bound .silent v [] #[]

/-- What nobody tells apart without looking into it is asked alike whether it is a number. -/
theorem SameFace.fitsFloat {v w : Value} (h : SameFace v w) : v.fitsFloat = w.fitsFloat :=
  h.apply_eq true fun u hu => by cases u <;> first | rfl | contradiction

theorem SameFace.real? {v w : Value} (h : SameFace v w) : v.real? = w.real? :=
  h.apply_eq none fun u hu => by cases u <;> first | rfl | contradiction

namespace Store

variable {store : Store} (hproper : store.Proper)
include hproper

/-- For objects the face decides whether they are numbers, also where they hold themselves. -/
theorem validate_number (settings : Settings) {r : Ref}
    (hr : store.cell r = .plain (.descriptor .number)) (v : Ref) :
    store.validate settings r v =
      if (store.face v).fitsFloat then .ok (store.face v).real?.isSome
      else .error .numberTooLarge := by
  have htree : store.descriptorTree? r = some .number :=
    descriptorTree?_eq_some.mpr ⟨isTree_of_plain hr, by simp only [tree, hr]⟩
  have hshows := shows_unroll hproper (settings.depth.limit.bound + 2) v
  rw [validate_eq hproper settings htree hshows, hshows.1.fitsFloat, hshows.1.real?]
  exact DataSchema.validate_number settings _

/-- A descriptor that is a tree is answered about for objects as for the values that they show. -/
theorem validate_answers {settings : Settings} {levels : Nat}
    (hlevels : settings.depth.limit.levels = some levels) {r v : Ref} {d : Descriptor} {w : Value}
    (hr : store.descriptorTree? r = some d) (hd : d.IsBuilt) (hheight : d.height ≤ levels)
    (hv : store.Shows (settings.depth.limit.bound + 2) v w) :
    Answers (store.validate settings r v) (Accepts d w) (w.everywhere Value.fitsFloat) := by
  rw [validate_eq hproper settings hr hv]
  exact validate_cases hlevels hd hheight w

end Store

/-- Whether a computation fails of a number that is too large. -/
def failsTooLarge : Except Error Bool → Bool
  | .error .numberTooLarge => true
  | _ => false

theorem eq_of_failsTooLarge {r : Except Error Bool} (h : failsTooLarge r = true) :
    r = .error .numberTooLarge := by
  unfold failsTooLarge at h
  split at h
  · rfl
  · contradiction

end DataSchema
