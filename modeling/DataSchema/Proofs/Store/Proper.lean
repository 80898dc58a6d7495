import DataSchema.Proofs.Lockstep
import DataSchema.Store.Check

/-!
What is true of every store that is built: an object that holds others does so by reference, and a
descriptor that is put down with a field is of a kind that has one. Further objects and changes of
objects keep this.
-/

namespace DataSchema

namespace Value

/-- Collections, mappings and descriptors, which may hold other values. -/
def holds : Value → Bool
  | list _ | tuple _ | set _ | dict _ | view _ | descriptor _ | altered _ _ => true
  | _ => false

/-- What holds no other value; of the descriptors these are the ones without parts. -/
def IsPlain : Value → Prop
  | descriptor d => d.parts = []
  | v => v.holds = false

theorem IsPlain.elements? {v : Value} (h : v.IsPlain) : v.elements? = none := by
  cases v with
  | list | tuple => contradiction
  | _ => rfl

theorem IsPlain.entries? {v : Value} (h : v.IsPlain) : v.entries? = none := by
  cases v with
  | dict | view => contradiction
  | _ => rfl

theorem IsPlain.of_holds {v : Value} (h : v.holds = false) : v.IsPlain := by
  cases v with
  | descriptor => contradiction
  | _ => exact h

/-- The characters of a text and the numbers of bytes hold nothing. -/
theorem IsPlain.holds_of_mem_parts? {v part : Value} {parts : List Value} (h : v.IsPlain)
    (hparts : v.parts? = some parts) (hpart : part ∈ parts) : part.holds = false := by
  cases v with
  | string s =>
    obtain rfl := Option.some.inj hparts
    obtain ⟨c, -, rfl⟩ := List.mem_map.mp hpart
    rfl
  | bytes data =>
    obtain rfl := Option.some.inj hparts
    obtain ⟨byte, -, rfl⟩ := List.mem_map.mp hpart
    rfl
  | list | tuple | set | dict | view => contradiction
  | _ => simp [Value.parts?] at hparts

theorem IsPlain.of_mem_parts? {v part : Value} {parts : List Value} (h : v.IsPlain)
    (hparts : v.parts? = some parts) (hpart : part ∈ parts) : part.IsPlain :=
  .of_holds (h.holds_of_mem_parts? hparts hpart)

theorem isPlain_toValue (p : Primitive) : p.toValue.IsPlain := by
  cases p <;> rfl

end Value

/-- What objects are as they are put into stores. -/
def Cell.Proper : Cell → Prop
  | .plain v => v.IsPlain
  | .descriptor kind _ => kind.field?.isSome = true
  | _ => True

instance : DecidablePred Value.IsPlain := fun v =>
  decidable_of_iff
    ((match v with
      | .descriptor d => d.parts.isEmpty
      | v => !v.holds) = true)
    (by cases v <;> simp [Value.IsPlain])

instance : DecidablePred Cell.Proper
  | .plain v => inferInstanceAs (Decidable v.IsPlain)
  | .descriptor kind _ => inferInstanceAs (Decidable (kind.field?.isSome = true))
  | .list _ | .tuple _ | .set _ | .dict _ | .view _ => isTrue trivial

/-- All objects of a store are as they are put into it, and the absent value is in its place. -/
structure Store.Proper (store : Store) : Prop where
  first : store.cells[Store.absent]? = some (.plain .null)
  cells (r : Ref) : (store.cell r).Proper

namespace Store

/-- A part that holds nothing unless it is an object. -/
def Part.Proper : Part → Prop
  | .held _ => True
  | .loose v => v.IsPlain

namespace Proper

variable {store : Store}

theorem absent (h : store.Proper) : store.cell Store.absent = .plain .null := by
  simp [cell, h.first]

theorem plain (h : store.Proper) {r : Ref} {v : Value} (hcell : store.cell r = .plain v) :
    v.IsPlain := by
  have hproper := h.cells r
  rwa [hcell] at hproper

theorem field (h : store.Proper) {r held : Ref} {kind : Kind}
    (hcell : store.cell r = .descriptor kind held) : kind.field?.isSome = true := by
  have hproper := h.cells r
  rwa [hcell] at hproper

/-- A store is proper if all that it has in it is, and the absent value is in its place. -/
theorem of_mem (hfirst : store.cells[Store.absent]? = some (.plain .null))
    (hcells : ∀ cell ∈ store.cells, cell.Proper) : store.Proper where
  first := hfirst
  cells := by
    intro r
    by_cases hlt : r < store.cells.size
    · have hcell : store.cell r = store.cells[r] := by simp [cell, hlt]
      rw [hcell]
      exact hcells _ (Array.getElem_mem hlt)
    · have hcell : store.cell r = .plain .null := by
        simp [cell, Array.getD, hlt]
      rw [hcell]
      exact rfl

theorem of_mem_cells (h : store.Proper) {cell : Cell} (hcell : cell ∈ store.cells) :
    cell.Proper := by
  obtain ⟨r, hlt, rfl⟩ := Array.mem_iff_getElem.mp hcell
  have hproper := h.cells r
  simpa [Store.cell, hlt] using hproper

theorem start : Store.start.Proper := by
  refine of_mem rfl ?_
  intro cell hcell
  have hshared : cell = .plain .null ∨ (∃ k ∈ Kind.all, .plain (.string k.id) = cell) ∨
      ∃ k ∈ Kind.all, .plain (.string k.name) = cell := by
    simpa [Store.start] using hcell
  rcases hshared with rfl | ⟨k, -, rfl⟩ | ⟨k, -, rfl⟩ <;> exact rfl

/-- A further object keeps a store proper. -/
theorem add (h : store.Proper) {cell : Cell} (hcell : cell.Proper) :
    (store.add cell).2.Proper := by
  refine of_mem ?_ ?_
  · obtain ⟨hpos, hfirst⟩ := Array.getElem?_eq_some_iff.mp h.first
    simp only [Store.add, Array.getElem?_push_lt hpos, hfirst]
  · intro other hother
    rcases Array.mem_push.mp hother with hmem | rfl
    · exact h.of_mem_cells hmem
    · exact hcell

theorem ne_absent (h : store.Proper) {r : Ref} (hr : store.cell r ≠ .plain .null) :
    r ≠ Store.absent := by
  rintro rfl
  exact hr h.absent

/-- So does another object in the place of one that is not the absent value. -/
theorem set (h : store.Proper) {r : Ref} {cell : Cell} (hr : r ≠ Store.absent)
    (hcell : cell.Proper) : (store.set r cell).Proper := by
  refine of_mem ?_ ?_
  · rw [Store.set, Array.getElem?_setIfInBounds_ne hr]
    exact h.first
  · intro other hother
    rcases Array.mem_or_eq_of_mem_setIfInBounds hother with hmem | rfl
    · exact h.of_mem_cells hmem
    · exact hcell

theorem of_mem_parts? (h : store.Proper) {r : Ref} {part : Part} {parts : List Part}
    (hparts : store.parts? r = some parts) (hpart : part ∈ parts) : part.Proper := by
  cases part with
  | held => trivial
  | loose v =>
    unfold Store.parts? at hparts
    cases hcell : store.cell r with
    | plain u =>
      simp only [hcell, Option.map_eq_some_iff] at hparts
      obtain ⟨vs, hvs, rfl⟩ := hparts
      obtain ⟨w, hw, hwv⟩ := List.mem_map.mp hpart
      obtain rfl := Part.loose.inj hwv
      exact (h.plain hcell).of_mem_parts? hvs hw
    | descriptor => simp [hcell] at hparts
    | _ =>
      simp only [hcell] at hparts
      obtain rfl := Option.some.inj hparts
      simp at hpart

theorem of_mem_parts (h : store.Proper) {r : Ref} {part : Part}
    (hpart : part ∈ (store.parts? r).getD []) : part.Proper := by
  cases hparts : store.parts? r with
  | none => simp [hparts] at hpart
  | some parts =>
    rw [hparts] at hpart
    exact h.of_mem_parts? hparts hpart

/-- The two parts of a pair are proper if the pair is. -/
theorem of_pair? (h : store.Proper) {part a b : Part} (hpart : part.Proper)
    (hpair : store.pair? part = .ok (a, b)) : a.Proper ∧ b.Proper := by
  unfold Store.pair? at hpair
  split at hpair
  · contradiction
  · next x y hparts =>
    obtain ⟨rfl, rfl⟩ := Prod.mk.inj (Except.ok.inj hpair)
    have hall : ∀ p ∈ [x, y], p.Proper := by
      cases part with
      | held r => exact fun p hp => h.of_mem_parts? hparts hp
      | loose v =>
        intro p hp
        obtain ⟨vs, hvs, hmap⟩ := Option.map_eq_some_iff.mp hparts
        rw [← hmap] at hp
        obtain ⟨w, hw, rfl⟩ := List.mem_map.mp hp
        exact Value.IsPlain.of_mem_parts? hpart hvs hw
    exact ⟨hall x (by simp), hall y (by simp)⟩
  · contradiction

end Proper

end Store

end DataSchema
