import DataSchema.Proofs.File
import DataSchema.Proofs.Store.Engine

/-!
The length of a file that is an object. As for values, the rule of files is asked only of objects
that have a number for their length.
-/

namespace DataSchema.Store

variable {store : Store}

/-- What an object lets pass is a mapping whose entries its fields let pass. -/
theorem passes_field {fields : List (String × Descriptor)} {v : Ref}
    (h : store.engine.Passes (.shape (.object fields)) v) : ∃ entries,
      store.entries? v = some entries ∧ ∀ field ∈ fields,
        store.engine.Passes (.shape field.2) (store.lookup (.string field.1) entries) := by
  cases hv : store.entries? v with
  | none =>
    have hplan : store.engine.plan (.shape (.object fields)) v =
        .answer false [] (.notMapping (store.face v)) := by
      simp only [engine, plan, form, hv]
    exact Bool.noConfusion (h.holds rfl hplan)
  | some entries =>
    have hplan : store.engine.plan (.shape (.object fields)) v = .every (fields.map fun field =>
        .part (.shape field.2) (store.lookup (.string field.1) entries) (.key field.1)) := by
      simp only [engine, plan, form, hv, List.map_map, Function.comp_def, Step.ofValue?]
    exact ⟨entries, rfl, fun field hfield => h.part rfl hplan (List.mem_map_of_mem hfield)⟩

theorem isNumber_surface (v : Ref) : isNumber (store.surface v) = isNumber (store.face v) := by
  unfold surface face
  cases store.cell v <;> rfl

theorem isNumber_of_passes {v : Ref} (h : store.engine.Passes (.shape .number) v) :
    isNumber (store.face v) = .ok true := by
  have hnone : store.engine.derived? (.shape .number) = none := rfl
  rw [← isNumber_surface]
  cases hn : isNumber (store.surface v) with
  | ok holds =>
    have hplan : store.engine.plan (.shape .number) v =
        .answer holds [] (.notNumber (store.tree v)) := by
      simp only [engine, plan, form, settledPlan, hn]
    rw [h.holds hnone hplan]
  | error e =>
    have hplan : store.engine.plan (.shape .number) v = .stuck e := by
      simp only [engine, plan, form, settledPlan, hn, Descriptor.plan, Plan.bare]
    exact (h.not_stuck hnone e hplan).elim

/-- On its surface a mapping has the face of what is found under a name. -/
theorem entryOrNull_surface (hproper : store.Proper) (name : String)
    (entries : List (Ref × Ref)) :
    Value.entryOrNull name (entries.map fun entry => (store.face entry.1, store.face entry.2)) =
      store.face (store.lookup (.string name) entries) := by
  induction entries with
  | nil => simp [Value.entryOrNull, Value.lookup, lookup, face, hproper.absent, Cell.face]
  | cons entry entries ih =>
    obtain ⟨key, v⟩ := entry
    by_cases hkey : store.face key = .string name
    · have hname := name?_eq_some_iff.mpr hkey
      simp [Value.entryOrNull, hkey, Value.lookup_cons_self, lookup, hname]
    · have hne : (store.name? key == some name) = false := by
        simpa using mt name?_eq_some_iff.mp hkey
      simp only [lookup, Value.entryOrNull, List.map_cons, Value.lookup_cons_of_ne hkey] at ih ⊢
      simpa only [List.find?_cons, hne] using ih

/-- What is found under a name is in an entry, or there is none. -/
theorem lookup_cases (name : String) (entries : List (Ref × Ref)) :
    store.lookup (.string name) entries = absent ∨ ∃ entry ∈ entries,
      store.name? entry.1 = some name ∧ store.lookup (.string name) entries = entry.2 := by
  unfold lookup
  dsimp only
  cases hfind : entries.find? _ with
  | none => exact .inl rfl
  | some entry =>
    refine .inr ⟨entry, List.mem_of_find?_eq_some hfind, ?_, rfl⟩
    simpa using List.find?_some hfind

theorem exists_of_lookup (hproper : store.Proper) {name : String} {entries : List (Ref × Ref)}
    (h : store.face (store.lookup (.string name) entries) ≠ .null) : ∃ entry ∈ entries,
      store.name? entry.1 = some name ∧ store.lookup (.string name) entries = entry.2 := by
  refine (lookup_cases name entries).resolve_left fun habsent => h ?_
  simp [habsent, face, hproper.absent, Cell.face]

/-- What the derived shape of a file lets pass has a number for its length. -/
theorem length_of_passes (hproper : store.Proper) {tag : Option String} {v : Ref}
    (h : store.engine.Passes (.shape (Descriptor.fileShape tag)) v) : ∃ entries entry q,
      store.entries? v = some entries ∧ entry ∈ entries ∧
      store.name? entry.1 = some "length" ∧
      store.lookup (.string "length") entries = entry.2 ∧
      (store.face entry.2).real? = some q ∧ (store.surface v).length? = some q := by
  obtain ⟨entries, hv, hfields⟩ := passes_field h
  have hlength := isNumber_of_passes (hfields ("length", .number) (by simp))
  obtain ⟨q, hq⟩ := (isNumber_iff hlength).mp rfl
  have hne : store.face (store.lookup (.string "length") entries) ≠ .null := by
    intro hnull
    rw [hnull] at hq
    contradiction
  obtain ⟨entry, hentry, hname, hfound⟩ := exists_of_lookup hproper hne
  refine ⟨entries, entry, q, hv, hentry, hname, hfound, hfound ▸ hq, ?_⟩
  simp [Value.length?, entries?_surface hproper, hv, entryOrNull_surface hproper, hq]

end DataSchema.Store
