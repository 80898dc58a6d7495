import DataSchema.Proofs.Build
import DataSchema.Proofs.Correspondence
import DataSchema.Proofs.Sequence
import Mathlib.Data.List.Nodup

/-!
Fields that are read from values and written over others. What an object is built from can also be
written over the fields of another, and only texts are written under if an object comes of it.
-/

namespace DataSchema

namespace Value

/-- Entries under texts. -/
def UnderTexts (entries : List (Value × Value)) : Prop :=
  ∀ entry ∈ entries, ∃ s, entry.1 = .string s

theorem eq_string_of_equal {s : String} {v : Value} (h : (string s).equal v = true) :
    v = .string s := by
  cases v with
  | string t => exact congrArg string (by simpa [equal] using h : s = t).symm
  | _ => simp [equal, number?] at h

/-- A key stays among the entries, whatever is written later. -/
theorem underTexts_of_put {key v : Value} {entries : List (Value × Value)}
    (h : UnderTexts (put key v entries)) : (∃ s, key = .string s) ∧ UnderTexts entries := by
  induction entries with
  | nil => exact ⟨h (key, v) List.mem_cons_self, by simp [UnderTexts]⟩
  | cons entry entries ih =>
    unfold put at h
    split at h
    · next hequal =>
      obtain ⟨⟨s, hs⟩, hrest⟩ := List.forall_mem_cons.mp h
      rw [hs] at hequal
      exact ⟨⟨s, eq_string_of_equal hequal⟩, List.forall_mem_cons.mpr ⟨⟨s, hs⟩, hrest⟩⟩
    · obtain ⟨hentry, hrest⟩ := List.forall_mem_cons.mp h
      obtain ⟨hkey, hentries⟩ := ih hrest
      exact ⟨hkey, List.forall_mem_cons.mpr ⟨hentry, hentries⟩⟩

/-- Entries with others written over them, one after the other. -/
def overwrite (entries written : List (Value × Value)) : List (Value × Value) :=
  written.foldl (fun es (key, w) => put key w es) entries

theorem underTexts_of_overwrite {entries written : List (Value × Value)}
    (h : UnderTexts (overwrite entries written)) : UnderTexts entries ∧ UnderTexts written := by
  induction written generalizing entries with
  | nil => exact ⟨h, by simp [UnderTexts]⟩
  | cons entry written ih =>
    obtain ⟨hput, hrest⟩ := ih h
    obtain ⟨hkey, hentries⟩ := underTexts_of_put hput
    exact ⟨hentries, List.forall_mem_cons.mpr ⟨hkey, hrest⟩⟩

/-- Under a new key an entry is appended. -/
theorem put_of_not_mem {s : String} {v : Value} {entries : List (Value × Value)}
    (h : ∀ entry ∈ entries, entry.1 ≠ .string s) :
    put (.string s) v entries = entries ++ [(.string s, v)] := by
  induction entries with
  | nil => rfl
  | cons entry entries ih =>
    obtain ⟨hentry, hrest⟩ := List.forall_mem_cons.mp h
    have hdiffers : entry.1.equal (.string s) = false := by
      cases hkey : entry.1 with
      | string t =>
        have hne : t ≠ s := fun heq => hentry (by rw [hkey, heq])
        simpa [equal] using hne
      | _ => simp [equal, number?]
    rw [put, hdiffers, ih hrest]
    rfl

end Value

namespace Descriptor

open Value (UnderTexts overwrite)

/-- A field is read from a pair of a new name and a descriptor. -/
theorem parts?_of_field? {seen : List String} {item : Value} {field : String × Descriptor}
    (h : field? seen item = .ok field) :
    item.parts? = some [.string field.1, .descriptor field.2] ∧ field.1 ∉ seen := by
  unfold field? at h
  split at h
  · next name v hparts =>
    split at h
    · contradiction
    · next hseen =>
      obtain ⟨d, hd, rfl⟩ := exists_of_map_eq_ok h
      rw [hparts, eq_descriptor_of_child? hd]
      exact ⟨rfl, by simpa using hseen⟩
  · contradiction
  · contradiction

theorem parts?_of_fields? {seen : List String} {items : List Value}
    {fields : List (String × Descriptor)} (h : fields? seen items = .ok fields) :
    List.Forall₂ (fun item field => item.parts? = some [.string field.1, .descriptor field.2])
      items fields := by
  induction items generalizing seen fields with
  | nil =>
    obtain rfl := Except.ok.inj h
    exact .nil
  | cons item items ih =>
    obtain ⟨field, hfield, h⟩ := exists_of_bind_eq_ok h
    obtain ⟨rest, hrest, h⟩ := exists_of_bind_eq_ok h
    obtain rfl := Except.ok.inj h
    exact .cons (parts?_of_field? hfield).1 (ih hrest)

/-- No name is read twice. -/
theorem nodup_of_fields? {seen : List String} {items : List Value}
    {fields : List (String × Descriptor)} (h : fields? seen items = .ok fields) :
    (fields.map (·.1)).Nodup ∧ ∀ field ∈ fields, field.1 ∉ seen := by
  induction items generalizing seen fields with
  | nil =>
    obtain rfl := Except.ok.inj h
    simp
  | cons item items ih =>
    obtain ⟨field, hfield, h⟩ := exists_of_bind_eq_ok h
    obtain ⟨rest, hrest, h⟩ := exists_of_bind_eq_ok h
    obtain rfl := Except.ok.inj h
    obtain ⟨hnodup, hnew⟩ := ih hrest
    refine ⟨List.nodup_cons.mpr ⟨fun hmem => ?_, hnodup⟩, ?_⟩
    · obtain ⟨other, hother, hagain⟩ := List.mem_map.mp hmem
      exact hnew other hother (hagain ▸ List.mem_cons_self)
    · refine List.forall_mem_cons.mpr ⟨(parts?_of_field? hfield).2, fun other hother hseen => ?_⟩
      exact hnew other hother (List.mem_cons_of_mem field.1 hseen)

theorem underTexts_fieldEntries (fields : List (String × Descriptor)) :
    UnderTexts (fieldEntries fields) := by
  intro entry hentry
  obtain ⟨field, -, rfl⟩ := List.mem_map.mp hentry
  exact ⟨field.1, rfl⟩

/-- Fields of distinct names are the entries that come of writing them one after the other. -/
theorem overwrite_fieldEntries {before fields : List (String × Descriptor)}
    (h : ((before ++ fields).map (·.1)).Nodup) :
    overwrite (fieldEntries before) (fieldEntries fields) = fieldEntries (before ++ fields) := by
  induction fields generalizing before with
  | nil =>
    rw [List.append_nil]
    rfl
  | cons field fields ih =>
    have hnew : ∀ entry ∈ fieldEntries before, entry.1 ≠ .string field.1 := by
      intro entry hentry
      obtain ⟨other, hother, rfl⟩ := List.mem_map.mp hentry
      rw [List.map_append, List.nodup_append] at h
      intro heq
      exact h.2.2 other.1 (List.mem_map_of_mem hother) field.1 (by simp) (Value.string.inj heq)
    have happend : before ++ field :: fields = (before ++ [field]) ++ fields := by simp
    have hput : Value.put (.string field.1) (.descriptor field.2) (fieldEntries before) =
        fieldEntries (before ++ [field]) := by
      rw [Value.put_of_not_mem hnew, fieldEntries, fieldEntries, List.map_append]
      rfl
    rw [happend] at h ⊢
    rw [← ih h, ← hput]
    rfl

/-- What the fields of an object are read from, if it is a mapping. -/
theorem eq_fieldEntries {seen : List String} {entries : List (Value × Value)}
    {fields : List (String × Descriptor)}
    (h : fields? seen (entries.map fun (key, w) => .tuple [key, w]) = .ok fields) :
    entries = fieldEntries fields := by
  have hinj : Function.Injective fun entry : Value × Value =>
      Value.tuple [entry.1, entry.2] := by
    rintro ⟨key, w⟩ ⟨key', w'⟩ heq
    simpa using heq
  refine List.map_injective_iff.mpr hinj ?_
  have htuples : ∀ item ∈ entries.map fun (key, w) => Value.tuple [key, w],
      item.isTuple = true := by
    intro item hitem
    obtain ⟨entry, -, rfl⟩ := List.mem_map.mp hitem
    rfl
  rw [fieldEntries, List.map_map]
  exact eq_map_of_fields? htuples h

theorem exists_of_object? {v : Value} {d : Descriptor} (h : object? v = .ok d) :
    ∃ fields, d = .object fields := by
  obtain ⟨items, -, h⟩ := exists_of_bind_eq_ok h
  obtain ⟨fields, -, h⟩ := exists_of_bind_eq_ok h
  exact ⟨fields, (Except.ok.inj h).symm⟩

/-- What an object is built from can be written over other fields, as the same entries. -/
theorem updates?_of_object? {v : Value} {fields : List (String × Descriptor)}
    (h : object? v = .ok (.object fields)) : updates? v = .ok (fieldEntries fields) := by
  obtain ⟨items, hitems, h⟩ := exists_of_bind_eq_ok h
  obtain ⟨read, hread, h⟩ := exists_of_bind_eq_ok h
  obtain rfl : read = fields := object.inj (Except.ok.inj h)
  unfold fieldItems? at hitems
  unfold updates?
  cases hentries : v.entries? with
  | some entries =>
    rw [hentries] at hitems
    obtain rfl := Except.ok.inj hitems
    exact congrArg Except.ok (eq_fieldEntries hread)
  | none =>
    cases hparts : v.parts? with
    | none =>
      rw [hentries, hparts] at hitems
      contradiction
    | some parts =>
      rw [hentries, hparts] at hitems
      obtain rfl := Except.ok.inj hitems
      refine mapM_of_forall₂ (List.forall₂_map_right_iff.mpr ?_)
      refine (parts?_of_fields? hread).imp fun item field hpair => ?_
      rw [hpair]
      rfl

theorem overwrite_of_object? {v : Value} {fields : List (String × Descriptor)}
    (h : object? v = .ok (.object fields)) :
    overwrite [] (fieldEntries fields) = fieldEntries fields := by
  obtain ⟨items, -, h⟩ := exists_of_bind_eq_ok h
  obtain ⟨read, hread, h⟩ := exists_of_bind_eq_ok h
  obtain rfl : read = fields := object.inj (Except.ok.inj h)
  exact @overwrite_fieldEntries [] read (nodup_of_fields? hread).1

theorem object?_of_ofHeld? {v : Value} {d : Descriptor} (h : ofHeld? .object v = some d) :
    object? v = .ok d := by
  cases v with
  | tuple items =>
    simp only [ofHeld?] at h
    split at h
    · cases hobject : object? (.tuple items) with
      | error e => simp [hobject, Except.toOption] at h
      | ok e =>
        rw [hobject] at h
        rw [Option.some.inj h]
    · contradiction
  | _ => simp [ofHeld?] at h

/-- If an extension is an object, then it holds what was written over the fields. -/
theorem overwrite_of_extend? {fields : List (String × Descriptor)} {extra : Value}
    {d : Descriptor} (h : extend? fields extra = .ok d) : ∃ written result,
      updates? extra = .ok written ∧
        overwrite (fieldEntries fields) written = fieldEntries result := by
  obtain ⟨written, hwritten, h⟩ := exists_of_bind_eq_ok h
  obtain ⟨items, hitems, h⟩ := exists_of_bind_eq_ok h
  obtain ⟨result, hresult, -⟩ := exists_of_bind_eq_ok h
  obtain rfl := Except.ok.inj hitems
  exact ⟨written, result, hwritten, eq_fieldEntries hresult⟩

end Descriptor

end DataSchema
