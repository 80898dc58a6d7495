import DataSchema.Proofs.Alternatives
import DataSchema.Proofs.Totality
import DataSchema.Registry.Choices

/-!
The choice that is offered for a value of any kind. The choices are tried in order, and three of
them compete for mappings; what each of them accepts says which values it is offered for.
-/

namespace DataSchema

open Classical in
/-- If the answers of a test say whether `p` holds, the position that is found is that of the first
element with `p`. -/
theorem firstOf_eq_findIdx? {α : Type} {test : α → Except Error Bool} {p : α → Prop} {as : List α}
    (h : ∀ a ∈ as, ∀ ok, test a = .ok ok → (ok = true ↔ p a)) {found : Option Nat}
    (hfound : firstOf test as = .ok found) : found = as.findIdx? fun a => p a := by
  induction as generalizing found with
  | nil => exact (Except.ok.inj hfound).symm
  | cons a as ih =>
    rw [List.findIdx?_cons]
    cases ha : test a with
    | error e =>
      rw [firstOf_cons_error ha] at hfound
      contradiction
    | ok ok =>
      have hp := h a List.mem_cons_self ok ha
      cases ok with
      | true =>
        rw [firstOf_cons_true ha] at hfound
        simp [hp.mp rfl, ← Except.ok.inj hfound]
      | false =>
        have hnot : ¬p a := fun hpa => Bool.noConfusion (hp.mpr hpa)
        rw [firstOf_cons_false ha] at hfound
        cases hrest : firstOf test as with
        | error e =>
          rw [hrest] at hfound
          contradiction
        | ok rest =>
          have hlater := ih (fun b hb => h b (List.mem_cons_of_mem a hb)) hrest
          rw [hrest] at hfound
          simp [hnot, ← hlater, ← Except.ok.inj hfound]

theorem exists_firstOf {α : Type} {test : α → Except Error Bool} {as : List α}
    (h : ∀ a ∈ as, ∃ ok, test a = .ok ok) : ∃ found, firstOf test as = .ok found := by
  induction as with
  | nil => exact ⟨none, rfl⟩
  | cons a as ih =>
    obtain ⟨ok, ha⟩ := h a List.mem_cons_self
    cases ok with
    | true => exact ⟨some 0, firstOf_cons_true ha⟩
    | false =>
      obtain ⟨found, hfound⟩ := ih fun b hb => h b (List.mem_cons_of_mem a hb)
      exact ⟨found.map (· + 1), by rw [firstOf_cons_false ha, hfound]; rfl⟩

namespace Registry

variable {v : Value} {entries : List (Value × Value)}

/-- The entries of a person: a name and an age. -/
structure IsPerson (entries : List (Value × Value)) : Prop where
  name : ∃ s, Value.entryOrNull "name" entries = .string s
  age : ∃ q, (Value.entryOrNull "age" entries).real? = some q

/-- The entries of a picture: a file of the category of images. -/
def IsPicture (entries : List (Value × Value)) : Prop :=
  ∃ file, (Value.entryOrNull "file" entries).entries? = some file ∧
    IsFile (some Descriptor.imageTag) file

/-- Which choice a mapping is offered. It may be a person, a file and a picture at once, and then
the first of these counts. -/
inductive SuitsEntries (entries : List (Value × Value)) : Option Nat → Prop where
  | person (h : IsPerson entries) : SuitsEntries entries (some 3)
  | file (hnot : ¬IsPerson entries) (h : IsFile none entries) : SuitsEntries entries (some 5)
  | picture (hnot : ¬IsPerson entries) (hnot' : ¬IsFile none entries) (h : IsPicture entries) :
    SuitsEntries entries (some 6)
  | other (hnot : ¬IsPerson entries) (hnot' : ¬IsFile none entries) (hnot'' : ¬IsPicture entries) :
    SuitsEntries entries none

/-- Which choice a value is offered. -/
structure Suits (v : Value) (choice : Option Nat) : Prop where
  text : choice = some 0 ↔ ∃ s, v = .string s
  number : choice = some 1 ↔ ∃ q, v.real? = some q
  truth : choice = some 2 ↔ ∃ b, v = .bool b
  sequence : choice = some 4 ↔ ∃ items, v.elements? = some items
  mapping {entries : List (Value × Value)} (h : v.entries? = some entries) :
    SuitsEntries entries choice
  other (htext : ∀ s, v ≠ .string s) (hnumber : v.real? = none) (htruth : ∀ b, v ≠ .bool b)
    (hsequence : v.elements? = none) (hmapping : v.entries? = none) : choice = none

/-! ### What the choices accept -/

theorem accepts_person_iff (v : Value) :
    Accepts (.object [("name", .string), ("age", .number)]) v ↔
      ∃ entries, v.entries? = some entries ∧ IsPerson entries := by
  simp only [Accepts, AcceptAll, and_true]
  refine exists_congr fun entries => and_congr_right fun _ => ?_
  exact ⟨fun h => ⟨h.1, h.2⟩, fun h => ⟨h.name, h.age⟩⟩

/-- A tag that admits any category asks of a file what no tag asks. -/
theorem isFile_of_any {tag tag' : Option String} (h : admitsAnyCategory tag = true)
    (h' : admitsAnyCategory tag' = true) (hfile : IsFile tag entries) : IsFile tag' entries where
  name := hfile.name
  length := hfile.length
  mimeType := hfile.mimeType
  dataUrl := hfile.dataUrl
  category := by
    have hcategory := hfile.category
    rw [if_pos h] at hcategory
    rwa [if_pos h']

theorem accepts_file_any_iff (v : Value) : Accepts (.file (some "*/*")) v ↔
    ∃ entries, v.entries? = some entries ∧ IsFile none entries := by
  have hany : admitsAnyCategory (some "*/*") = true := by decide
  exact exists_congr fun entries => and_congr_right fun _ =>
    ⟨isFile_of_any hany rfl, isFile_of_any rfl hany⟩

theorem accepts_list_any_iff (v : Value) :
    Accepts (.list .any) v ↔ ∃ items, v.elements? = some items := by
  simp [Accepts]

theorem accepts_image_iff (v : Value) :
    Accepts .image v ↔ ∃ entries, v.entries? = some entries ∧ IsPicture entries := by
  simp [Accepts, IsPicture]

/-! ### The first that accepts -/

open Classical in
/-- The choices in their order, each by what it accepts. -/
theorem choice_eq {choice : Option Nat} (h : defaultChoiceFor v = .ok choice) : choice =
    if ∃ s, v = .string s then some 0
    else if ∃ q, v.real? = some q then some 1
    else if ∃ b, v = .bool b then some 2
    else if ∃ entries, v.entries? = some entries ∧ IsPerson entries then some 3
    else if ∃ items, v.elements? = some items then some 4
    else if ∃ entries, v.entries? = some entries ∧ IsFile none entries then some 5
    else if ∃ entries, v.entries? = some entries ∧ IsPicture entries then some 6
    else none := by
  rw [defaultChoiceFor, matchAlternative_eq_firstOf] at h
  rw [firstOf_eq_findIdx? (fun d _ ok => validate_decides) h]
  have hstring : Accepts .string v ↔ ∃ s, v = .string s := .rfl
  have hnumber : Accepts .number v ↔ ∃ q, v.real? = some q := .rfl
  have hboolean : Accepts .boolean v ↔ ∃ b, v = .bool b := .rfl
  simp only [defaultChoices, List.findIdx?_cons, List.findIdx?_nil, hstring, hnumber, hboolean,
    accepts_person_iff, accepts_list_any_iff, accepts_file_any_iff, accepts_image_iff,
    decide_eq_true_eq, apply_ite (Option.map (· + 1)), Option.map_some, Option.map_none]

/-- What is no mapping is of one class at most. -/
theorem suits_of_no_entries {choice : Option Nat} (hv : v.entries? = none)
    (h : defaultChoiceFor v = .ok choice) : Suits v choice := by
  rw [choice_eq h]
  cases v with
  | dict | view => contradiction
  | float x =>
    cases x <;> constructor <;> simp [Value.real?, Value.elements?, Value.entries?]
  | _ => constructor <;> simp [Value.real?, Value.elements?, Value.entries?]

/-- A mapping is of no other class. -/
theorem no_other_class (hv : v.entries? = some entries) :
    (¬∃ s, v = .string s) ∧ (¬∃ q, v.real? = some q) ∧ (¬∃ b, v = .bool b) ∧
      ¬∃ items, v.elements? = some items := by
  cases v with
  | dict | view => simp [Value.real?, Value.elements?]
  | _ => contradiction

theorem suitsEntries_of_answer {choice : Option Nat} (hv : v.entries? = some entries)
    (h : defaultChoiceFor v = .ok choice) : SuitsEntries entries choice := by
  obtain ⟨htext, hnumber, htruth, hsequence⟩ := no_other_class hv
  have hiff (p : List (Value × Value) → Prop) :
      (∃ entries, v.entries? = some entries ∧ p entries) ↔ p entries := by simp [hv]
  rw [choice_eq h, if_neg htext, if_neg hnumber, if_neg htruth, if_neg hsequence]
  split_ifs with hperson hfile hpicture
  · exact .person ((hiff _).mp hperson)
  · exact .file (mt (hiff _).mpr hperson) ((hiff _).mp hfile)
  · exact .picture (mt (hiff _).mpr hperson) (mt (hiff _).mpr hfile) ((hiff _).mp hpicture)
  · exact .other (mt (hiff _).mpr hperson) (mt (hiff _).mpr hfile) (mt (hiff _).mpr hpicture)

theorem suits_of_entries {choice : Option Nat} (hv : v.entries? = some entries)
    (h : SuitsEntries entries choice) : Suits v choice := by
  obtain ⟨htext, hnumber, htruth, hsequence⟩ := no_other_class hv
  have hne (n : Nat) (hn : n ∉ [3, 5, 6]) : choice ≠ some n := by
    rintro rfl
    cases h <;> simp at hn
  refine ⟨iff_of_false (hne 0 (by decide)) htext, iff_of_false (hne 1 (by decide)) hnumber,
    iff_of_false (hne 2 (by decide)) htruth, iff_of_false (hne 4 (by decide)) hsequence, ?_, ?_⟩
  · intro others hothers
    obtain rfl : entries = others := Option.some.inj (hv.symm.trans hothers)
    exact h
  · intro _ _ _ _ hmapping
    rw [hv] at hmapping
    contradiction

theorem suits_of_answer {choice : Option Nat} (h : defaultChoiceFor v = .ok choice) :
    Suits v choice := by
  cases hv : v.entries? with
  | none => exact suits_of_no_entries hv h
  | some entries => exact suits_of_entries hv (suitsEntries_of_answer hv h)

/-! ### Answers -/

theorem isBuilt_of_mem_defaultChoices : ∀ d ∈ defaultChoices, d.IsBuilt := by
  simp [defaultChoices, Descriptor.IsBuilt, Descriptor.FieldsBuilt]

theorem height_of_mem_defaultChoices : ∀ d ∈ defaultChoices, d.height ≤ 4 := by decide

/-- All choices are answered about for values with no fraction that is too large, however deep these
are. -/
theorem exists_choice (hv : v.everywhere Value.fitsFloat = true) :
    ∃ choice, defaultChoiceFor v = .ok choice := by
  rw [defaultChoiceFor, matchAlternative_eq_firstOf]
  have hlevels : Settings.default.depth.limit.levels = some 256 := rfl
  refine exists_firstOf fun d hd => ?_
  have hheight : d.height ≤ 256 := (height_of_mem_defaultChoices d hd).trans (by decide)
  obtain ⟨ok, hok, -⟩ :=
    validate_answers hlevels (isBuilt_of_mem_defaultChoices d hd) hheight hv
  exact ⟨ok, hok⟩

end Registry

end DataSchema
