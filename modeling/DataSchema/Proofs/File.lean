import DataSchema.Proofs.Acceptance
import DataSchema.Proofs.Findings

/-!
The length of a file. The rule of files reads an entry and compares it without asking whether it is
there or can be compared; it is asked only of values that the derived shape lets pass, and these
have a number there.
-/

namespace DataSchema

namespace Value

/-- The number behind the entry that holds the length of a file. -/
def length? (v : Value) : Option Rat := do
  let entries ← v.entries?
  (entryOrNull "length" entries).real?

/-- Whether the entry for the length is a negative number. -/
def hasNegativeLength (v : Value) : Bool := v.length?.any (· < 0)

end Value

/-- Where the entry for the length is a number, the rule of files only asks for its sign. -/
theorem lengthPlan_eq {v : Value} {q : Rat} (h : v.length? = some q) :
    lengthPlan v = .answer (!v.hasNegativeLength) [.key "length"] .negativeLength := by
  obtain ⟨entries, hv, hreal⟩ := Option.bind_eq_some_iff.mp h
  obtain ⟨length, hlookup, hlength⟩ := real?_entryOrNull hreal
  have hnumber := Value.number?_of_real? hlength
  have hsign : (!v.hasNegativeLength) = (Extended.finite q != .nan && !(Extended.finite q).below
      (.finite 0)) := by
    rw [Value.hasNegativeLength, h, Extended.below_finite]
    simp
  simp only [lengthPlan, hv, hlookup, hnumber, hsign]

namespace Descriptor

/-- What passes as a number is one. -/
theorem isNumber_of_passes {v : Value} (h : engine.Passes number v) : isNumber v = .ok true := by
  have hnone : engine.derived? number = none := rfl
  cases hn : isNumber v with
  | ok holds =>
    have hplan : engine.plan number v = .answer holds [] (.notNumber v) := by
      simp only [engine, plan, hn]
    rw [h.holds hnone hplan]
  | error e =>
    have hplan : engine.plan number v = .stuck e := by simp only [engine, plan, hn]
    exact (h.not_stuck hnone e hplan).elim

/-- What an object lets pass is a mapping whose entries its fields let pass. -/
theorem passes_field {fields : List (String × Descriptor)} {v : Value}
    (h : engine.Passes (object fields) v) : ∃ entries, v.entries? = some entries ∧
      ∀ field ∈ fields, engine.Passes field.2 (Value.entryOrNull field.1 entries) := by
  cases hv : v.entries? with
  | none =>
    have hplan : engine.plan (object fields) v = .answer false [] (.notMapping v) := by
      simp only [engine, plan, hv]
    exact Bool.noConfusion (h.holds rfl hplan)
  | some entries =>
    have hplan : engine.plan (object fields) v = .every (fields.map fun field =>
        .part field.2 (Value.entryOrNull field.1 entries) (.key field.1)) := by
      simp only [engine, plan, hv]
    exact ⟨entries, rfl, fun field hfield => h.part rfl hplan (List.mem_map_of_mem hfield)⟩

/-- What the derived shape of a file lets pass has a number for its length. -/
theorem length_of_passes {tag : Option String} {v : Value}
    (h : engine.Passes (fileShape tag) v) : ∃ entries length q, v.entries? = some entries ∧
      Value.lookup "length" entries = some length ∧ length.real? = some q ∧
      v.length? = some q := by
  obtain ⟨entries, hv, hfields⟩ := passes_field h
  have hlength := isNumber_of_passes (hfields ("length", number) (by simp))
  obtain ⟨q, hq⟩ := (isNumber_iff hlength).mp rfl
  obtain ⟨length, hlookup, hreal⟩ := real?_entryOrNull hq
  refine ⟨entries, length, q, hv, hlookup, hreal, ?_⟩
  simp [Value.length?, hv, hq]

end Descriptor

end DataSchema
