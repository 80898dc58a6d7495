import DataSchema.Proofs.Acceptance
import DataSchema.Proofs.Store.Simulation

/-!
Main statement: the answers of the engine are those of the relation that accepts values by recursion
on the descriptor, for values and for objects that may hold themselves.
-/

namespace DataSchema

/-- Whenever the engine answers, the value conforms exactly if it is accepted. The object conforms
exactly if the values are accepted that nobody tells from it who goes as deep as the engine. -/
theorem validate_true_iff_accepts :
    (∀ settings d v ok, validate settings d v = .ok ok → (ok = true ↔ Accepts d v)) ∧
    ∀ store : Store, store.Proper → ∀ settings r v d w, store.descriptorTree? r = some d →
      store.Shows (settings.depth.limit.bound + 2) v w →
      ∀ ok, store.validate settings r v = .ok ok → (ok = true ↔ Accepts d w) := by
  constructor
  · intro settings d v ok h
    exact validate_decides h
  · intro store hproper settings r v d w hr hv ok h
    rw [Store.validate_eq hproper settings hr hv] at h
    exact validate_decides h

/-- A picture whose file has the derived shape, but a negative length; and a list that holds itself,
which is no list of lists of numbers. -/
theorem validate_true_iff_accepts_negative_length :
    let d := Descriptor.object [("cover", .optional .image)]
    let file := Value.dict [(.string "name", .string "a"), (.string "length", .int (-1)),
      (.string "mimeType", .string "image/jpeg"), (.string "dataUrl", .string "data:,"),
      (.string "type", .string "jpg")]
    let v := Value.dict [(.string "cover", .view [(.string "file", file)])]
    let store : Store := ⟨#[.plain .null, .plain (.descriptor .number), .descriptor .list 1,
      .descriptor .list 2, .list [4]]⟩
    let w := store.unroll 258 4
    validate .default d v = .ok false ∧ ¬Accepts d v ∧ store.Proper ∧
      store.descriptorTree? 3 = some (.list (.list .number)) ∧ store.Shows 258 4 w ∧
      store.validate .default 3 4 = .ok false ∧ ¬Accepts (.list (.list .number)) w := by
  intro d file v store w
  obtain ⟨hvalues, hobjects⟩ := validate_true_iff_accepts
  have hvalue : validate .default d v = .ok false := rfl
  have hproper : store.Proper := by
    refine .of_mem rfl ?_
    intro cell hcell
    have hmem : cell ∈ store.cells.toList := by simpa using hcell
    simp only [store, List.mem_cons, List.not_mem_nil, or_false] at hmem
    rcases hmem with rfl | rfl | rfl | rfl | rfl
    · rfl
    · rfl
    · rfl
    · rfl
    · trivial
  have htree : store.descriptorTree? 3 = some (.list (.list .number)) := rfl
  have hshows : store.Shows 258 4 w := Store.shows_unroll hproper 258 4
  have hobject : store.validate .default 3 4 = .ok false := rfl
  refine ⟨hvalue, ?_, hproper, htree, hshows, hobject, ?_⟩
  · intro h
    exact Bool.noConfusion ((hvalues .default d v false hvalue).mpr h)
  · intro h
    exact Bool.noConfusion
      ((hobjects store hproper .default 3 4 _ w htree hshows false hobject).mpr h)

end DataSchema
