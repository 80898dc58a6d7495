import DataSchema.Proofs.Content
import DataSchema.Proofs.Correspondence
import DataSchema.Proofs.Json

/-!
Canonical texts of data: data of any depth has a canonical text, and two values have one text just
if they are the same data, whatever the order of their entries.
-/

namespace DataSchema

namespace Json

/-! ### Entries in order -/

variable {α β : Type}

theorem sortByKey_eq_insertionSort (entries : List (String × α)) :
    sortByKey entries = entries.insertionSort fun a b => a.1 ≤ b.1 := by
  have hinsert (entry : String × α) (entries : List (String × α)) :
      insertByKey entry entries = entries.orderedInsert (fun a b => a.1 ≤ b.1) entry := by
    induction entries with
    | nil => rfl
    | cons other rest ih =>
      simp only [insertByKey, List.orderedInsert_cons, ← not_lt, ite_not, ih]
  induction entries with
  | nil => rfl
  | cons entry entries ih =>
    change insertByKey entry (sortByKey entries) = _
    rw [hinsert, ih, List.insertionSort_cons]

theorem perm_sortByKey (entries : List (String × α)) : (sortByKey entries).Perm entries := by
  rw [sortByKey_eq_insertionSort]
  exact List.perm_insertionSort _ entries

/-- Entries come in one order, and keys that differ tell which entries these were. -/
theorem sortByKey_eq_iff {entries others : List (String × α)}
    (h : (entries.map (·.1)).Nodup) :
    sortByKey entries = sortByKey others ↔ entries.Perm others := by
  constructor
  · intro heq
    exact (perm_sortByKey entries).symm.trans (heq ▸ perm_sortByKey others)
  · intro hperm
    have hsorted (entries : List (String × α)) :
        (sortByKey entries).Pairwise fun a b => a.1 ≤ b.1 := by
      rw [sortByKey_eq_insertionSort]
      have : Std.Total fun a b : String × α => a.1 ≤ b.1 := ⟨fun a b => le_total a.1 b.1⟩
      have : IsTrans (String × α) fun a b => a.1 ≤ b.1 := ⟨fun _ _ _ => le_trans⟩
      exact List.pairwise_insertionSort _ entries
    refine List.Perm.eq_of_pairwise ?_ (hsorted entries) (hsorted others)
      ((perm_sortByKey entries).trans (hperm.trans (perm_sortByKey others).symm))
    intro a b ha hb hab hba
    have hmem : a ∈ entries := (perm_sortByKey entries).mem_iff.mp ha
    have hmem' : b ∈ entries := hperm.mem_iff.mpr ((perm_sortByKey others).mem_iff.mp hb)
    exact List.inj_on_of_nodup_map h hmem hmem' (le_antisymm hab hba)

/-- Entries that correspond to each other are put in order in one way. -/
theorem forall₂_sortByKey {R : String × α → String × β → Prop} (hR : ∀ a b, R a b → a.1 = b.1)
    {entries : List (String × α)} {others : List (String × β)}
    (h : List.Forall₂ R entries others) :
    List.Forall₂ R (sortByKey entries) (sortByKey others) := by
  have hinsert {a : String × α} {b : String × β} (hab : R a b) {as : List (String × α)}
      {bs : List (String × β)} (h : List.Forall₂ R as bs) :
      List.Forall₂ R (insertByKey a as) (insertByKey b bs) := by
    induction h with
    | nil => exact .cons hab .nil
    | cons hcd hrest ih =>
      rw [insertByKey, insertByKey, hR _ _ hab, hR _ _ hcd]
      split
      · exact .cons hcd ih
      · exact .cons hab (.cons hcd hrest)
  induction h with
  | nil => exact .nil
  | cons hab _ ih => exact hinsert hab ih

theorem named?_map (named : List (String × α)) :
    named? (named.map fun entry => (.string entry.1, entry.2)) = some named := by
  induction named with
  | nil => rfl
  | cons entry named ih =>
    simp only [named?, List.map_cons, List.mapM_cons] at ih ⊢
    rw [ih]
    rfl

/-- Entries that are written or not, whatever entry fails, fail in one way. -/
theorem mappingText?_eq_ite {e : Error} {g : β → Content} {p : String × β → Prop}
    [DecidablePred p] {entries : List (String × Deferred)} {others : List (String × β)}
    (h : List.Forall₂ (fun entry other => entry.1 = other.1 ∧
      entry.2 () = if p other then .ok (g other.2).text else .error e) entries others) :
    mappingText? (entries.map fun entry => (.string entry.1, entry.2)) =
      if ∀ other ∈ others, p other then
        .ok (Content.mapping (sortByKey (others.map fun other => (other.1, g other.2)))).text
      else .error e := by
  have htexts : ((sortByKey entries).map fun entry => (Value.string entry.1, entry.2)).mapM
      entryText = if ∀ other ∈ sortByKey others, p other then
        .ok ((sortByKey others).map fun other => Content.entryText (other.1, g other.2))
      else .error e := by
    refine mapM_eq_ite (List.forall₂_map_left_iff.mpr ?_)
    refine (forall₂_sortByKey (fun _ _ hentry => hentry.1) h).imp ?_
    rintro ⟨name, value⟩ ⟨_, b⟩ ⟨rfl, hvalue⟩
    simp only [entryText, keyText?, bind, Except.bind] at hvalue ⊢
    rw [hvalue]
    by_cases hp : p (name, b)
    · rw [if_pos hp, if_pos hp]
      rfl
    · rw [if_neg hp, if_neg hp]
  have hall : (∀ other ∈ sortByKey others, p other) ↔ ∀ other ∈ others, p other :=
    forall_congr' fun other => imp_congr_left (perm_sortByKey others).mem_iff
  have hsorted : sortByKey (others.map fun other => (other.1, g other.2)) =
      (sortByKey others).map fun other => (other.1, g other.2) := by
    have hpairs : List.Forall₂ (fun (a : String × β) (b : String × Content) =>
        b = (a.1, g a.2)) others (others.map fun other => (other.1, g other.2)) :=
      List.forall₂_map_right_iff.mpr (List.forall₂_same.mpr fun _ _ => rfl)
    have hmap := map_eq_of_forall₂ (f := fun a : String × β => (a.1, g a.2)) (g := fun b => b)
      (forall₂_sortByKey (fun _ _ hab => hab ▸ rfl) hpairs) fun _ _ hab => hab.symm
    rw [hmap, List.map_id']
  rw [mappingText?, sort?, named?_map, hsorted]
  simp only [bind, Except.bind, htexts, hall]
  by_cases hgood : ∀ other ∈ others, p other
  · simp only [if_pos hgood, pure, Except.pure, Content.text, Content.entryTexts_eq_map,
      List.map_map, Function.comp_def]
  · rw [if_neg hgood, if_neg hgood]

/-- An entry whose value is written as a content under the same name. -/
def EntryWritten (entry : String × Deferred) (content : String × Content) : Prop :=
  entry.1 = content.1 ∧ entry.2 () = .ok content.2.text

theorem mappingText?_of_written {entries : List (String × Deferred)}
    {contents : List (String × Content)} (h : List.Forall₂ EntryWritten entries contents) :
    mappingText? (entries.map fun entry => (.string entry.1, entry.2)) =
      .ok (Content.mapping (sortByKey contents)).text := by
  have hwritten := mappingText?_eq_ite (e := .endless) (g := id) (p := fun _ => True) <|
    h.imp fun _ _ hentry => ⟨hentry.1, hentry.2.trans (if_pos trivial).symm⟩
  simpa using hwritten

/-! ### The content of data -/

mutual

/-- What is written for data; other values have no content of their own. -/
def content : Value → Content
  | .bool b => .word ⟨boolText b, isToken_boolText b⟩
  | .int n => .word ⟨Integer.text n, Integer.isToken_text n⟩
  | .float x => .word ⟨floatText x, isToken_floatText x⟩
  | .string s => .string s
  | .list items | .tuple items => .sequence (contents items)
  | .dict entries => .mapping (sortByKey (entryContents entries))
  | _ => .word ⟨"null", isToken_null⟩
termination_by structural v => v

def contents : List Value → List Content
  | [] => []
  | v :: vs => content v :: contents vs
termination_by structural vs => vs

def entryContents : List (Value × Value) → List (String × Content)
  | (.string name, v) :: entries => (name, content v) :: entryContents entries
  | _ => []
termination_by structural entries => entries

end

/-- The contents of entries under known names. -/
theorem entryContents_map {γ : Type} (name : γ → String) (v : γ → Value) (as : List γ) :
    entryContents (as.map fun a => (.string (name a), v a)) =
      as.map fun a => (name a, content (v a)) := by
  induction as with
  | nil => rfl
  | cons a as ih => rw [List.map_cons, entryContents, ih, List.map_cons]

theorem contents_eq_map (vs : List Value) : contents vs = vs.map content := by
  induction vs with
  | nil => rfl
  | cons v vs ih => rw [contents, ih, List.map_cons]

mutual

theorem canonical?_eq (v : Value) (h : v.IsJson) : canonical? v = .ok (content v).text := by
  cases v with
  | null | bool | int | float | string => rfl
  | list items | tuple items =>
    rw [canonical?, canonicalAll?_eq items h, content, Content.text]
    rfl
  | dict entries =>
    obtain ⟨named, hentries, hwritten⟩ := canonicalEntries_written entries h
    rw [canonical?, hentries, mappingText?_of_written hwritten, content]
  | _ => exact h.elim
termination_by structural v

theorem canonicalAll?_eq (vs : List Value) (h : Value.AllJson vs) :
    canonicalAll? vs = .ok (Content.texts (contents vs)) := by
  cases vs with
  | nil => rfl
  | cons v vs =>
    rw [canonicalAll?, canonical?_eq v h.1, canonicalAll?_eq vs h.2]
    rfl
termination_by structural vs

theorem canonicalEntries_written (entries : List (Value × Value)) (h : Value.EntriesJson entries) :
    ∃ named : List (String × Deferred),
      canonicalEntries entries = named.map (fun entry => (.string entry.1, entry.2)) ∧
        List.Forall₂ EntryWritten named (entryContents entries) := by
  cases entries with
  | nil => exact ⟨[], rfl, .nil⟩
  | cons entry entries =>
    obtain ⟨key, v⟩ := entry
    obtain ⟨hkey, hv, hrest⟩ := h
    obtain ⟨named, hentries, hwritten⟩ := canonicalEntries_written entries hrest
    cases key with
    | string name =>
      refine ⟨(name, fun _ => canonical? v) :: named, ?_, .cons ⟨rfl, canonical?_eq v hv⟩ hwritten⟩
      rw [canonicalEntries, hentries, List.map_cons]
    | _ => contradiction
termination_by structural entries

end

/-! ### Contents of the same data -/

theorem mem_entryContents {name : String} {c : Content} {entries : List (Value × Value)}
    (h : Value.EntriesJson entries) : (name, c) ∈ entryContents entries ↔
      ∃ v, (.string name, v) ∈ entries ∧ c = content v := by
  induction entries with
  | nil => simp [entryContents]
  | cons entry entries ih =>
    obtain ⟨key, v⟩ := entry
    obtain ⟨hkey, -, hrest⟩ := h
    cases key with
    | string s =>
      simp only [entryContents, List.mem_cons, ih hrest, Prod.mk.injEq, Value.string.injEq]
      constructor
      · rintro (⟨rfl, rfl⟩ | ⟨w, hw, rfl⟩)
        · exact ⟨v, .inl ⟨rfl, rfl⟩, rfl⟩
        · exact ⟨w, .inr hw, rfl⟩
      · rintro ⟨w, ⟨rfl, rfl⟩ | hw, rfl⟩
        · exact .inl ⟨rfl, rfl⟩
        · exact .inr ⟨w, hw, rfl⟩
    | _ => contradiction

theorem map_fst_entryContents {entries : List (Value × Value)} (h : Value.EntriesJson entries) :
    (entryContents entries).map (fun entry => Value.string entry.1) = entries.map (·.1) := by
  induction entries with
  | nil => rfl
  | cons entry entries ih =>
    obtain ⟨key, v⟩ := entry
    obtain ⟨hkey, -, hrest⟩ := h
    cases key with
    | string s => simp only [entryContents, List.map_cons, ih hrest]
    | _ => contradiction

theorem length_entryContents {entries : List (Value × Value)} (h : Value.EntriesJson entries) :
    (entryContents entries).length = entries.length := by
  simpa using congrArg List.length (map_fst_entryContents h)

/-- Keys that differ as values differ as texts. -/
theorem nodup_entryContents {entries : List (Value × Value)} (h : Value.EntriesJson entries)
    (hkeys : (entries.map (·.1)).Nodup) : ((entryContents entries).map (·.1)).Nodup := by
  rw [← map_fst_entryContents h] at hkeys
  refine List.Nodup.of_map Value.string ?_
  rwa [List.map_map]

/-- Entries with keys that differ are the same if they are as many and each is among the others. -/
theorem perm_iff_of_nodup {as bs : List α} (h : as.Nodup) :
    as.Perm bs ↔ as.length = bs.length ∧ ∀ a ∈ as, a ∈ bs :=
  ⟨fun hperm => ⟨hperm.length_eq, fun _ ha => hperm.mem_iff.mp ha⟩,
    fun hsub => (List.subperm_of_subset h hsub.2).perm_of_length_le hsub.1.ge⟩

/-- Words and texts are the same only within their class. -/
theorem content_eq_iff_of_leaf {v w : Value} (hv : v.isLeaf = true) (hw : w.IsJson) :
    content v = content w ↔ v.sameData w = true := by
  have hnull (n : Int) := (text_ne_null n).symm
  have hbool (n : Int) (b : Bool) := (text_ne_boolText n b).symm
  have hfloat (n : Int) (x : Binary64) := (text_ne_floatText n x).symm
  have hnull' (x : Binary64) := (floatText_ne_null x).symm
  have hbool' (x : Binary64) (b : Bool) := (floatText_ne_boolText x b).symm
  have hnull'' (b : Bool) := (boolText_ne_null b).symm
  cases v <;> first
    | contradiction
    | cases w <;> first
      | exact hw.elim
      | simp [content, Value.sameData, Integer.text_eq_iff, floatText_eq_iff, boolText_eq_iff,
          text_ne_null, text_ne_boolText, text_ne_floatText, floatText_ne_null,
          floatText_ne_boolText, boolText_ne_null, hnull, hbool, hfloat, hnull', hbool', hnull'']

mutual

theorem content_eq_iff (v w : Value) (hv : v.IsJson) (hw : w.IsJson) (hkeys : v.KeysDiffer)
    (hkeys' : w.KeysDiffer) : content v = content w ↔ v.sameData w = true := by
  cases v with
  | null | bool | int | float | string => exact content_eq_iff_of_leaf rfl hw
  | list items | tuple items =>
    cases w with
    | list others | tuple others =>
      rw [content, content, Content.sequence.injEq, Value.sameData]
      exact contents_eq_iff items others hv hw hkeys hkeys'
    | null | bool | int | float | string | dict => simp [content, Value.sameData]
    | _ => exact hw.elim
  | dict entries =>
    cases w with
    | dict others =>
      rw [content, content, Content.mapping.injEq, Value.sameData, sortByKey_eq_iff
        (nodup_entryContents hv hkeys.1), perm_iff_of_nodup
        (nodup_entryContents hv hkeys.1).of_map, length_entryContents hv, length_entryContents hw,
        entryContents_subset_iff entries others hv hw hkeys.2 hkeys'.2, Bool.and_eq_true,
        beq_iff_eq]
    | null | bool | int | float | string | list | tuple => simp [content, Value.sameData]
    | _ => exact hw.elim
  | _ => exact hv.elim
termination_by structural v

theorem contents_eq_iff (vs ws : List Value) (hvs : Value.AllJson vs) (hws : Value.AllJson ws)
    (hkeys : Value.AllKeysDiffer vs) (hkeys' : Value.AllKeysDiffer ws) :
    contents vs = contents ws ↔ Value.sameItems vs ws = true := by
  cases vs with
  | nil => cases ws <;> simp [contents, Value.sameItems]
  | cons v vs =>
    cases ws with
    | nil => simp [contents, Value.sameItems]
    | cons w ws =>
      rw [contents, contents, List.cons.injEq, Value.sameItems, Bool.and_eq_true,
        content_eq_iff v w hvs.1 hws.1 hkeys.1 hkeys'.1,
        contents_eq_iff vs ws hvs.2 hws.2 hkeys.2 hkeys'.2]
termination_by structural vs

theorem entryContents_subset_iff (entries others : List (Value × Value))
    (hentries : Value.EntriesJson entries) (hothers : Value.EntriesJson others)
    (hkeys : Value.EntriesKeysDiffer entries) (hkeys' : Value.EntriesKeysDiffer others) :
    (∀ entry ∈ entryContents entries, entry ∈ entryContents others) ↔
      Value.entriesAmong entries others = true := by
  cases entries with
  | nil => simp [entryContents, Value.entriesAmong]
  | cons entry entries =>
    obtain ⟨key, v⟩ := entry
    obtain ⟨hkey, hv, hrest⟩ := hentries
    cases key with
    | string name =>
      have hsame : ∀ other ∈ others,
          content v = content other.2 ↔ v.sameData other.2 = true := fun other hother =>
        content_eq_iff v other.2 hv (Value.entriesJson_iff.mp hothers _ hother).2
          hkeys.1 (Value.entriesKeysDiffer_iff.mp hkeys' _ hother)
      have hamong : (name, content v) ∈ entryContents others ↔
          others.any (fun other => Value.sameData (.string name) other.1 &&
            v.sameData other.2) = true := by
        simp only [mem_entryContents hothers, List.any_eq_true, Bool.and_eq_true]
        constructor
        · rintro ⟨w, hw, heq⟩
          exact ⟨_, hw, beq_self_eq_true name, (hsame _ hw).mp heq⟩
        · rintro ⟨⟨key, w⟩, hw, hname, hdata⟩
          cases key with
          | string s =>
            obtain rfl : name = s := beq_iff_eq.mp hname
            exact ⟨w, hw, (hsame _ hw).mpr hdata⟩
          | _ => contradiction
      rw [entryContents, List.forall_mem_cons, Value.entriesAmong, Bool.and_eq_true, hamong,
        entryContents_subset_iff entries others hrest hothers hkeys.2 hkeys']
    | _ => contradiction
termination_by structural entries

end

theorem sameData_refl {v : Value} (h : v.IsData) : v.sameData v = true :=
  (content_eq_iff v v h.json h.json h.keys h.keys).mp rfl

/-- Data has a text, and two texts are one just if the data is the same. -/
theorem canonical?_eq_iff {v w : Value} (hv : v.IsData) (hw : w.IsData) :
    ∃ s t, canonical? v = .ok s ∧ canonical? w = .ok t ∧ (s = t ↔ v.sameData w = true) := by
  refine ⟨_, _, canonical?_eq v hv.json, canonical?_eq w hw.json, ?_⟩
  rw [← content_eq_iff v w hv.json hw.json hv.keys hw.keys]
  exact ⟨Content.text_injective, congrArg Content.text⟩

end Json

end DataSchema
