import DataSchema.Value

/-!
What a check can come to in a value: its elements, and the values of its entries, level by level. A
check looks into no set and no key.
-/

namespace DataSchema.Value

mutual

/-- Whether a value passes a test, and so does all that a check can come to in it. -/
def everywhere (p : Value → Bool) : Value → Bool
  | list items => p (list items) && everywhereAll p items
  | tuple items => p (tuple items) && everywhereAll p items
  | dict entries => p (dict entries) && everywhereEntries p entries
  | view entries => p (view entries) && everywhereEntries p entries
  | v => p v
termination_by structural v => v

def everywhereAll (p : Value → Bool) : List Value → Bool
  | [] => true
  | v :: vs => everywhere p v && everywhereAll p vs
termination_by structural vs => vs

def everywhereEntries (p : Value → Bool) : List (Value × Value) → Bool
  | [] => true
  | (_, v) :: entries => everywhere p v && everywhereEntries p entries
termination_by structural entries => entries

end

variable {p : Value → Bool} {v : Value}

theorem everywhereAll_iff (items : List Value) :
    everywhereAll p items = true ↔ ∀ w ∈ items, w.everywhere p = true := by
  induction items with
  | nil => simp [everywhereAll]
  | cons w items ih => simp [everywhereAll, ih]

theorem everywhereEntries_iff (entries : List (Value × Value)) :
    everywhereEntries p entries = true ↔ ∀ entry ∈ entries, entry.2.everywhere p = true := by
  induction entries with
  | nil => simp [everywhereEntries]
  | cons entry entries ih => simp [everywhereEntries, ih]

theorem everywhere_self (h : v.everywhere p = true) : p v = true := by
  cases v with
  | list | tuple | dict | view =>
    simp only [everywhere, Bool.and_eq_true] at h
    exact h.1
  | _ => exact h

theorem everywhere_elements (h : v.everywhere p = true) {items : List Value}
    (hv : v.elements? = some items) : ∀ w ∈ items, w.everywhere p = true := by
  cases v with
  | list | tuple =>
    obtain rfl := Option.some.inj hv
    simp only [everywhere, Bool.and_eq_true] at h
    exact (everywhereAll_iff _).mp h.2
  | _ => simp [elements?] at hv

theorem everywhere_entries (h : v.everywhere p = true) {entries : List (Value × Value)}
    (hv : v.entries? = some entries) : ∀ entry ∈ entries, entry.2.everywhere p = true := by
  cases v with
  | dict | view =>
    obtain rfl := Option.some.inj hv
    simp only [everywhere, Bool.and_eq_true] at h
    exact (everywhereEntries_iff _).mp h.2
  | _ => simp [entries?] at hv

theorem mem_of_lookup {name : String} {entries : List (Value × Value)}
    (h : lookup name entries = some v) : (string name, v) ∈ entries := by
  induction entries with
  | nil => simp [lookup] at h
  | cons entry entries ih =>
    obtain ⟨key, w⟩ := entry
    cases key with
    | string s =>
      by_cases hs : s = name
      · subst hs
        simp only [lookup, if_true] at h
        obtain rfl := Option.some.inj h
        exact List.mem_cons_self
      · simp only [lookup, hs, if_false] at h
        exact List.mem_cons_of_mem _ (ih h)
    | _ => exact List.mem_cons_of_mem _ (ih h)

theorem everywhere_entryOrNull (hnull : p null = true) (h : v.everywhere p = true)
    {entries : List (Value × Value)} (hv : v.entries? = some entries) (name : String) :
    (entryOrNull name entries).everywhere p = true := by
  unfold entryOrNull
  cases hlookup : lookup name entries with
  | none => exact hnull
  | some w => exact everywhere_entries h hv _ (mem_of_lookup hlookup)

end DataSchema.Value
