import DataSchema.Proofs.Acceptance
import DataSchema.Proofs.Safety
import DataSchema.Proofs.Store.Height

/-!
What is always answered. With as many levels as a built descriptor is high, the engine answers for
every value whether the descriptor accepts it. The one thing that it can fail of is a fraction with
no finite float next to it.
-/

namespace DataSchema

theorem isNumber_eq (v : Value) :
    isNumber v = if v.fitsFloat then .ok v.real?.isSome else .error .numberTooLarge := by
  cases v with
  | float x => cases x <;> rfl
  | fraction q =>
    simp only [isNumber, Value.fitsFloat]
    rfl
  | _ => rfl

theorem isNumber_eq_error {v : Value} {e : Error} (h : isNumber v = .error e) :
    e = .numberTooLarge ∧ v.fitsFloat = false := by
  rw [isNumber_eq] at h
  cases hfits : v.fitsFloat with
  | true => simp [hfits] at h
  | false =>
    rw [hfits] at h
    exact ⟨(Except.error.inj h).symm, rfl⟩

section

variable {settings : Settings} {levels : Nat} (hlevels : settings.depth.limit.levels = some levels)
  {d : Descriptor} (hd : d.IsBuilt)
include hlevels hd

/-- A run fails for want of levels, or of a fraction in the value that is too large. -/
theorem runCheck_failsOnly (mode : Recording) (v : Value) :
    FailsOnly (fun e => e.family = .nesting ∨
      e = .numberTooLarge ∧ v.everywhere Value.fitsFloat = false) _
      (runCheck settings mode d v) := by
  -- a part that is a fraction that is too large is one of the value's own parts
  have hwhole : Value.Whole fun w =>
      v.everywhere Value.fitsFloat = true → w.everywhere Value.fitsFloat = true :=
    ⟨fun _ => rfl, fun h _ hitems w hw hv => Value.everywhere_elements (h hv) hitems w hw,
      fun h _ hentries entry hentry hv => Value.everywhere_entries (h hv) hentries entry hentry⟩
  have hconfined := Descriptor.engine_confined
    (X := fun e _ => e = .numberTooLarge ∧ v.everywhere Value.fitsFloat = false) hwhole
    fun w e hw he => by
      obtain ⟨rfl, hfits⟩ := isNumber_eq_error he
      refine ⟨rfl, Bool.eq_false_iff.mpr fun hv => ?_⟩
      rw [Value.everywhere_self (hw hv)] at hfits
      contradiction
  simp only [runCheck, check_eq]
  exact Engine.check_confined hconfined (fun _ _ => .inr)
    (fun kind => .inl (Limit.family_overrun hlevels kind)) _ mode ⟨hd, id⟩ [] #[]

/-- With levels enough the engine answers whether the value is accepted, or a fraction in it is too
large. -/
theorem validate_cases (hheight : d.height ≤ levels) (v : Value) :
    (∃ ok, validate settings d v = .ok ok ∧ (ok = true ↔ Accepts d v)) ∨
      validate settings d v = .error .numberTooLarge ∧ v.everywhere Value.fitsFloat = false := by
  have hfails := (runCheck_failsOnly hlevels hd .silent v).map (·.1)
  have hsuffices := validate_suffices hlevels hheight v
  cases hanswer : validate settings d v with
  | ok ok => exact .inl ⟨ok, rfl, validate_decides hanswer⟩
  | error e =>
    rcases hfails e hanswer with hnesting | ⟨rfl, hv⟩
    · exact absurd ⟨e, hanswer, hnesting⟩ hsuffices
    · exact .inr ⟨rfl, hv⟩

/-- With levels enough the engine answers for all values with no fraction that is too large. -/
theorem validate_answers (hheight : d.height ≤ levels) {v : Value}
    (hv : v.everywhere Value.fitsFloat = true) :
    ∃ ok, validate settings d v = .ok ok ∧ (ok = true ↔ Accepts d v) := by
  rcases validate_cases hlevels hd hheight v with hanswer | ⟨-, hfits⟩
  · exact hanswer
  · rw [hv] at hfits
    contradiction

end

end DataSchema
