import DataSchema.Proofs.Extension

/-!
What an object is built from. A value lists fields if it is a mapping of them or if each of its
parts falls into the name and the descriptor of one. Values that list fields of distinct names make
an object of just these, and no others make any.
-/

namespace DataSchema

namespace Value

/-- Fields are listed by a mapping with them for its entries, or by what falls into pairs of names
and descriptors. -/
inductive Lists (v : Value) (fields : List (String × Descriptor)) : Prop where
  | entries (h : v.entries? = some (Descriptor.fieldEntries fields))
  | parts {parts : List Value} (hentries : v.entries? = none) (h : v.parts? = some parts)
    (hpairs : List.Forall₂
      (fun part field => part.parts? = some [.string field.1, .descriptor field.2]) parts fields)

end Value

namespace Descriptor

/-- A field is read from just the pairs of a new name and a descriptor. -/
theorem field?_eq_ok_iff {seen : List String} {item : Value} {field : String × Descriptor} :
    field? seen item = .ok field ↔
      item.parts? = some [.string field.1, .descriptor field.2] ∧ field.1 ∉ seen := by
  refine ⟨parts?_of_field?, fun ⟨hparts, hnew⟩ => ?_⟩
  have hseen : seen.contains field.1 = false := by simpa using hnew
  rw [field?, hparts]
  simp only [hseen]
  rfl

theorem fields?_eq_ok_iff {seen : List String} {items : List Value}
    {fields : List (String × Descriptor)} : fields? seen items = .ok fields ↔
      List.Forall₂ (fun item field => item.parts? = some [.string field.1, .descriptor field.2])
        items fields ∧ (fields.map (·.1)).Nodup ∧ ∀ field ∈ fields, field.1 ∉ seen := by
  refine ⟨fun h => ⟨parts?_of_fields? h, nodup_of_fields? h⟩, ?_⟩
  rintro ⟨hpairs, hnodup, hnew⟩
  induction hpairs generalizing seen with
  | nil => rfl
  | @cons item field items fields hpair _ ih =>
    obtain ⟨hfirst, hnodup⟩ := List.nodup_cons.mp hnodup
    obtain ⟨hfield, hnew⟩ := List.forall_mem_cons.mp hnew
    have hrest : fields? (field.1 :: seen) items = .ok fields := by
      refine ih hnodup fun other hother hmem => ?_
      rcases List.mem_cons.mp hmem with heq | hseen
      · exact hfirst (List.mem_map.mpr ⟨other, hother, heq⟩)
      · exact hnew other hother hseen
    rw [fields?, field?_eq_ok_iff.mpr ⟨hpair, hfield⟩]
    exact congrArg (· >>= fun rest => .ok (field :: rest)) hrest

theorem object?_eq_ok_iff {v : Value} {d : Descriptor} : object? v = .ok d ↔
    ∃ fields, v.Lists fields ∧ (fields.map (·.1)).Nodup ∧ d = .object fields := by
  constructor
  · intro h
    obtain ⟨items, hitems, h⟩ := exists_of_bind_eq_ok h
    obtain ⟨fields, hfields, h⟩ := exists_of_bind_eq_ok h
    refine ⟨fields, ?_, (nodup_of_fields? hfields).1, (Except.ok.inj h).symm⟩
    unfold fieldItems? at hitems
    split at hitems
    · next entries _ hentries =>
      obtain rfl := Except.ok.inj hitems
      exact .entries (eq_fieldEntries hfields ▸ hentries)
    · next parts hentries hparts =>
      obtain rfl := Except.ok.inj hitems
      exact .parts hentries hparts (parts?_of_fields? hfields)
    · contradiction
  · rintro ⟨fields, hlists, hnodup, rfl⟩
    obtain ⟨items, hitems, hpairs⟩ : ∃ items, fieldItems? v = .ok items ∧ List.Forall₂
        (fun item field => item.parts? = some [.string field.1, .descriptor field.2]) items
          fields := by
      cases hlists with
      | entries h =>
        refine ⟨fields.map heldField, ?_, ?_⟩
        · rw [fieldItems?, h]
          exact congrArg Except.ok (List.map_map ..)
        · exact List.forall₂_map_left_iff.mpr (List.forall₂_same.mpr fun _ _ => rfl)
      | parts hentries h hpairs =>
        refine ⟨_, ?_, hpairs⟩
        rw [fieldItems?, hentries, h]
    have hfields : fields? [] items = .ok fields :=
      fields?_eq_ok_iff.mpr ⟨hpairs, hnodup, fun _ _ => List.not_mem_nil⟩
    rw [object?, hitems]
    simp only [bind, Except.bind, hfields]
    rfl

/-- A field is refused in words about a descriptor. -/
theorem failsOnly_field? (seen : List String) (item : Value) :
    FailsOnly (fun e => e.family = .descriptor) _ (field? seen item) := by
  intro e h
  unfold field? at h
  split at h
  · next name v _ =>
    split at h
    · exact Except.error.inj h ▸ rfl
    · cases v with
      | descriptor d => contradiction
      | _ => exact Except.error.inj h ▸ rfl
  · exact Except.error.inj h ▸ rfl
  · exact Except.error.inj h ▸ rfl

theorem failsOnly_fields? (seen : List String) (items : List Value) :
    FailsOnly (fun e => e.family = .descriptor) _ (fields? seen items) := by
  induction items generalizing seen with
  | nil => exact .ok []
  | cons item items ih =>
    exact (failsOnly_field? seen item).bind fun field _ =>
      (ih (field.1 :: seen)).bind fun rest _ => .ok (field :: rest)

/-- What cannot be walked over is refused for that, and all else in words about a descriptor. -/
theorem cases_of_object? {v : Value} {e : Error} (h : object? v = .error e) :
    v.parts? = none ∧ e = .notIterable ∨ v.parts?.isSome = true ∧ e.family = .descriptor := by
  have hread (items : List Value) (hitems : fieldItems? v = .ok items) :
      e.family = .descriptor := by
    rw [object?, hitems] at h
    exact (failsOnly_fields? [] items).bind (fun fields _ => .ok (object fields)) e h
  cases hparts : v.parts? with
  | none =>
    have hentries : v.entries? = none := by
      cases v with
      | dict | view => contradiction
      | _ => rfl
    rw [object?, fieldItems?, hentries, hparts] at h
    exact .inl ⟨rfl, (Except.error.inj h).symm⟩
  | some parts =>
    refine .inr ⟨rfl, ?_⟩
    cases hentries : v.entries? with
    | some entries => exact hread _ (by rw [fieldItems?, hentries])
    | none => exact hread parts (by rw [fieldItems?, hentries, hparts])

end Descriptor

end DataSchema
