import DataSchema.Proofs.Canonical
import DataSchema.Proofs.Store.Description

/-!
Canonical texts of objects. Main statement: data has a text if there is room to go as deep as it is
nested, and two objects have one text just if they are the same data.
-/

namespace DataSchema

namespace Store

variable {store : Store} {r : Ref}

/-! ### Nesting -/

theorem local_levelsOf : Local levelsOf := by
  intro f g cell h
  simp only [levelsOf, foldl_max_congr h]

/-- The levels of collections in an object that is a tree. -/
def nesting (store : Store) (r : Ref) : Nat := store.known 0 levelsOf r

theorem nesting_eq (h : store.isTree r = true) :
    store.nesting r = levelsOf store.nesting (store.cell r) :=
  known_eq local_levelsOf (fun _ => rfl) h

theorem isWithin_iff (h : store.isTree r = true) {n : Nat} :
    store.isWithin n r = true ↔ store.nesting r ≤ n := by
  obtain ⟨order, horder⟩ := Option.isSome_iff_exists.mp h
  simp only [isWithin, nesting, known, horder, decide_eq_true_eq]

theorem nesting_of_plain {v : Value} (hcell : store.cell r = .plain v) : store.nesting r = 0 := by
  rw [nesting_eq (isTree_of_plain hcell), hcell]
  rfl

theorem nesting_eq_of_holder (h : store.isTree r = true) (hcell : ∀ v, store.cell r ≠ .plain v) :
    store.nesting r = 1 + (store.cell r).refs.foldl (fun n c => max n (store.nesting c)) 0 := by
  rw [nesting_eq h, levelsOf]
  exact hcell

theorem nesting_le_succ_iff (h : store.isTree r = true) (hcell : ∀ v, store.cell r ≠ .plain v)
    {n : Nat} : store.nesting r ≤ n + 1 ↔ ∀ c ∈ (store.cell r).refs, store.nesting c ≤ n := by
  rw [nesting_eq_of_holder h hcell, Nat.add_comm, Nat.add_le_add_iff_right, foldl_max_le_iff]
  simp

theorem nesting_lt_of_mem_refs {c : Ref} (h : store.isTree r = true)
    (hc : c ∈ (store.cell r).refs) : store.nesting c < store.nesting r := by
  have hcell (v : Value) : store.cell r ≠ .plain v := fun hplain => by
    simp [hplain, Cell.refs] at hc
  have hle := le_foldl_max (f := store.nesting) hc 0
  rw [nesting_eq_of_holder h hcell]
  omega

/-! ### Texts within the room -/

/-- What the cell of an object is like that is data. -/
inductive DataCell (store : Store) (r : Ref) : Prop where
  | plain {v : Value} (hcell : store.cell r = .plain v)
  | sequence {items : List Ref} (hcell : store.cell r = .list items ∨ store.cell r = .tuple items)
    (h : ∀ x ∈ items, (store.tree x).IsJson)
  | mapping {entries : List (Ref × Ref)} (hcell : store.cell r = .dict entries)
    (hkeys : ∀ entry ∈ entries, ∃ name, store.cell entry.1 = .plain (.string name))
    (h : ∀ entry ∈ entries, (store.tree entry.2).IsJson)

theorem dataCell (h : store.isTree r = true) (hdata : (store.tree r).IsJson) :
    store.DataCell r := by
  rw [tree_eq_assemble h] at hdata
  cases hcell : store.cell r with
  | plain v => exact .plain hcell
  | list items =>
    rw [hcell, Cell.assemble, Value.IsJson, Value.allJson_iff, List.forall_mem_map] at hdata
    exact .sequence (.inl hcell) hdata
  | tuple items =>
    rw [hcell, Cell.assemble, Value.IsJson, Value.allJson_iff, List.forall_mem_map] at hdata
    exact .sequence (.inr hcell) hdata
  | dict entries =>
    rw [hcell, Cell.assemble, Value.IsJson, Value.entriesJson_iff, List.forall_mem_map] at hdata
    refine .mapping hcell (fun entry hentry => ?_) fun entry hentry => (hdata entry hentry).2
    have hmem : entry.1 ∈ (store.cell r).refs := by
      simp only [hcell, Cell.refs, List.mem_flatMap]
      exact ⟨entry, hentry, by simp⟩
    obtain ⟨name, hname⟩ : ∃ name, store.tree entry.1 = .string name := by
      have htext := (hdata entry hentry).1
      cases hkey : store.tree entry.1 with
      | string name => exact ⟨name, rfl⟩
      | _ => simp [hkey, Value.isText] at htext
    exact ⟨name, cell_of_tree_plain (isTree_of_mem_refs h hmem) hname rfl⟩
  | descriptor kind held =>
    rw [hcell, Cell.assemble, Cell.assembleDescriptor] at hdata
    split at hdata <;> exact hdata.elim
  | _ => exact (hcell ▸ hdata).elim

theorem nesting_pos (h : store.isTree r = true) (hcell : ∀ v, store.cell r ≠ .plain v) :
    0 < store.nesting r := by
  rw [nesting_eq_of_holder h hcell]
  omega

theorem canonicalWithin_plain {v : Value} {n : Nat} {above : List Ref}
    (hcell : store.cell r = .plain v) (hdata : (store.tree r).IsJson) :
    store.canonicalWithin n above r =
      if store.nesting r ≤ n then .ok (Json.content (store.tree r)).text
      else .error .endless := by
  have htree : store.tree r = v := by simp only [tree, hcell]
  have hwritten : store.canonicalWithin n above r = Json.canonical? v := by
    cases n <;> simp only [canonicalWithin, hcell]
  rw [if_pos ((nesting_of_plain hcell).le.trans (Nat.zero_le n)), hwritten, ← htree,
    Json.canonical?_eq _ hdata]

/-- The text within so many levels of a sequence whose items have texts within one level less. -/
theorem canonicalWithin_sequence {items : List Ref} {n : Nat} {above : List Ref}
    (h : store.isTree r = true)
    (hcell : store.cell r = .list items ∨ store.cell r = .tuple items)
    (hnew : above.contains r = false)
    (hitems : ∀ x ∈ items, store.canonicalWithin n (r :: above) x =
      if store.nesting x ≤ n then .ok (Json.content (store.tree x)).text else .error .endless) :
    store.canonicalWithin (n + 1) above r =
      if store.nesting r ≤ n + 1 then .ok (Json.content (store.tree r)).text
      else .error .endless := by
  have htexts : items.mapM (store.canonicalWithin n (r :: above)) =
      if ∀ x ∈ items, store.nesting x ≤ n then
        .ok (items.map fun x => (Json.content (store.tree x)).text)
      else .error .endless := mapM_eq_ite (List.forall₂_same.mpr hitems)
  obtain ⟨hrefs, hcontent, hwritten⟩ : (store.cell r).refs = items ∧
      Json.content (store.tree r) = .sequence (Json.contents (items.map store.tree)) ∧
      store.canonicalWithin (n + 1) above r =
        (do return Json.sequenceText (← items.mapM (store.canonicalWithin n (r :: above)))) := by
    rw [tree_eq_assemble h]
    rcases hcell with hcell | hcell <;>
      exact ⟨by rw [hcell]; rfl, by rw [hcell]; rfl, by
        simp only [canonicalWithin, hcell, hnew, Bool.false_eq_true, if_false]⟩
  have hholder (v : Value) : store.cell r ≠ .plain v := by
    rcases hcell with hcell | hcell <;> simp [hcell]
  rw [hwritten, htexts, hcontent, Json.Content.text, Json.Content.texts_eq_map,
    Json.contents_eq_map]
  simp only [nesting_le_succ_iff h hholder, hrefs]
  by_cases hall : ∀ x ∈ items, store.nesting x ≤ n
  · rw [if_pos hall, if_pos hall]
    simp [bind, Except.bind, pure, Except.pure, Function.comp_def]
  · rw [if_neg hall, if_neg hall]
    rfl

/-- And of a mapping whose values have texts within one level less. -/
theorem canonicalWithin_mapping {entries : List (Ref × Ref)} {n : Nat} {above : List Ref}
    (h : store.isTree r = true) (hcell : store.cell r = .dict entries)
    (hkeys : ∀ entry ∈ entries, ∃ name, store.cell entry.1 = .plain (.string name))
    (hnew : above.contains r = false)
    (hentries : ∀ entry ∈ entries, store.canonicalWithin n (r :: above) entry.2 =
      if store.nesting entry.2 ≤ n then .ok (Json.content (store.tree entry.2)).text
      else .error .endless) :
    store.canonicalWithin (n + 1) above r =
      if store.nesting r ≤ n + 1 then .ok (Json.content (store.tree r)).text
      else .error .endless := by
  choose! name hname using hkeys
  have hwritten : store.canonicalWithin (n + 1) above r =
      Json.mappingText? ((entries.map fun entry => (name entry,
        fun _ => store.canonicalWithin n (r :: above) entry.2)).map
          fun entry => (.string entry.1, entry.2)) := by
    simp only [canonicalWithin, hcell, hnew, Bool.false_eq_true, if_false, List.map_map]
    refine congrArg Json.mappingText? (List.map_congr_left fun entry hentry => ?_)
    simp only [Function.comp_apply, face, hname entry hentry, Cell.face]
  have hcontent : Json.content (store.tree r) = .mapping (Json.sortByKey
      ((entries.map fun entry => (name entry, entry.2)).map
        fun other => (other.1, Json.content (store.tree other.2)))) := by
    have htree : store.tree r =
        .dict (entries.map fun entry => (.string (name entry), store.tree entry.2)) := by
      rw [tree_eq_assemble h, hcell, Cell.assemble]
      refine congrArg Value.dict (List.map_congr_left fun entry hentry => ?_)
      simp only [tree, hname entry hentry]
    rw [htree, Json.content, Json.entryContents_map, List.map_map]
    rfl
  have hnested : store.nesting r ≤ n + 1 ↔
      ∀ other ∈ entries.map fun entry => (name entry, entry.2), store.nesting other.2 ≤ n := by
    rw [nesting_le_succ_iff h (by simp [hcell]), hcell]
    simp only [Cell.refs, List.forall_mem_map, List.mem_flatMap]
    constructor
    · exact fun hall entry hentry => hall _ ⟨entry, hentry, by simp⟩
    · rintro hall c ⟨entry, hentry, hc⟩
      rcases List.mem_pair.mp hc with rfl | rfl
      · exact (nesting_of_plain (hname entry hentry)).le.trans (Nat.zero_le n)
      · exact hall entry hentry
  have hpairs : List.Forall₂ (fun (entry : String × Json.Deferred) (other : String × Ref) =>
      entry.1 = other.1 ∧ entry.2 () = if store.nesting other.2 ≤ n
        then .ok (Json.content (store.tree other.2)).text else .error .endless)
      (entries.map fun entry => (name entry,
        fun _ => store.canonicalWithin n (r :: above) entry.2))
      (entries.map fun entry => (name entry, entry.2)) := by
    rw [List.forall₂_map_left_iff, List.forall₂_map_right_iff]
    exact List.forall₂_same.mpr fun entry hentry => ⟨rfl, hentries entry hentry⟩
  rw [hwritten, hcontent, Json.mappingText?_eq_ite (g := fun x => Json.content (store.tree x))
    (p := fun other => store.nesting other.2 ≤ n) hpairs]
  simp only [hnested]

/-- Within so many levels data has its text if it is not nested deeper. What stands above an object
is nested deeper than it, so that no object is met below itself. -/
theorem canonicalWithin_eq {n : Nat} {above : List Ref} (h : store.isTree r = true)
    (hdata : (store.tree r).IsJson) (habove : ∀ a ∈ above, store.nesting r < store.nesting a) :
    store.canonicalWithin n above r =
      if store.nesting r ≤ n then .ok (Json.content (store.tree r)).text
      else .error .endless := by
  induction n generalizing above r with
  | zero =>
    cases dataCell h hdata with
    | plain hcell => exact canonicalWithin_plain hcell hdata
    | sequence hcell =>
      have hpos : 0 < store.nesting r := nesting_pos h fun v => by
        rcases hcell with hcell | hcell <;> simp [hcell]
      rw [if_neg (Nat.not_le.mpr hpos)]
      rcases hcell with hcell | hcell <;> simp only [canonicalWithin, hcell]
    | mapping hcell =>
      have hpos : 0 < store.nesting r := nesting_pos h fun v => by simp [hcell]
      rw [if_neg (Nat.not_le.mpr hpos)]
      simp only [canonicalWithin, hcell]
  | succ n ih =>
    have hnew : above.contains r = false := by
      simpa using fun hmem => Nat.lt_irrefl _ (habove r hmem)
    have hpart {c : Ref} (hc : c ∈ (store.cell r).refs) (hdata : (store.tree c).IsJson) :
        store.canonicalWithin n (r :: above) c =
          if store.nesting c ≤ n then .ok (Json.content (store.tree c)).text
          else .error .endless := by
      have hlt := nesting_lt_of_mem_refs h hc
      exact ih (isTree_of_mem_refs h hc) hdata <|
        List.forall_mem_cons.mpr ⟨hlt, fun a ha => hlt.trans (habove a ha)⟩
    cases dataCell h hdata with
    | plain hcell => exact canonicalWithin_plain hcell hdata
    | @sequence items hcell hitems =>
      have hrefs : (store.cell r).refs = items := by
        rcases hcell with hcell | hcell <;> rw [hcell] <;> rfl
      exact canonicalWithin_sequence h hcell hnew fun x hx => hpart (hrefs ▸ hx) (hitems x hx)
    | @mapping entries hcell hkeys hentries =>
      refine canonicalWithin_mapping h hcell hkeys hnew fun entry hentry => ?_
      refine hpart ?_ (hentries entry hentry)
      simp only [hcell, Cell.refs, List.mem_flatMap]
      exact ⟨entry, hentry, by simp⟩

/-- The text of data, if there is room to go as deep as it is nested. -/
theorem canonical?_of_isTree (h : store.isTree r = true) (hdata : (store.tree r).IsJson) :
    store.canonical? r =
      if store.isWithin canonicalLevels r then .ok (Json.content (store.tree r)).text
      else .error .endless := by
  unfold canonical?
  split
  · exact Json.canonical?_eq _ hdata
  · next hdeep =>
    rw [canonicalWithin_eq h hdata fun _ ha => absurd ha List.not_mem_nil,
      if_neg ((isWithin_iff h).not.mp hdeep)]

theorem canonical?_eq_iff {x y : Ref} (hx : store.isTree x = true) (hy : store.isTree y = true)
    (hdata : (store.tree x).IsData) (hdata' : (store.tree y).IsData) {s t : String}
    (hs : store.canonical? x = .ok s) (ht : store.canonical? y = .ok t) :
    s = t ↔ (store.tree x).sameData (store.tree y) = true := by
  rw [canonical?_of_isTree hx hdata.json] at hs
  rw [canonical?_of_isTree hy hdata'.json] at ht
  split at hs
  · split at ht
    · obtain rfl := Except.ok.inj hs
      obtain rfl := Except.ok.inj ht
      rw [← Json.content_eq_iff _ _ hdata.json hdata'.json hdata.keys hdata'.keys]
      exact ⟨Json.Content.text_injective, congrArg Json.Content.text⟩
    · contradiction
  · contradiction

/-! ### Examples -/

/-- Two mappings with their entries in different orders, one with a list and one with a tuple. -/
def mappings : Store := ⟨#[.plain .null, .plain (.string "a"), .plain (.string "b"),
  .plain (.int 1), .plain (.bool true), .list [3, 4], .tuple [3, 4], .dict [(2, 5), (1, 0)],
  .dict [(1, 0), (2, 6)]]⟩

theorem mappings_tree : mappings.tree 7 =
    .dict [(.string "b", .list [.int 1, .bool true]), (.string "a", .null)] := by rfl

theorem mappings_tree' : mappings.tree 8 =
    .dict [(.string "a", .null), (.string "b", .tuple [.int 1, .bool true])] := by rfl

theorem mappings_isData : (mappings.tree 7).IsData ∧ (mappings.tree 8).IsData := by
  rw [mappings_tree, mappings_tree']
  constructor
  all_goals
    constructor
    · simp [Value.IsJson, Value.EntriesJson, Value.AllJson, Value.isText]
    · simp [Value.KeysDiffer, Value.EntriesKeysDiffer, Value.AllKeysDiffer]

theorem mappings_isTree : mappings.isTree 7 = true ∧ mappings.isTree 8 = true := by
  decide +kernel

theorem mappings_isWithin :
    mappings.isWithin canonicalLevels 7 = true ∧ mappings.isWithin canonicalLevels 8 = true := by
  decide +kernel

/-- A number within lists, one in the other. -/
def lists (levels : Nat) : Store := ⟨(.plain .null :: .plain (.int 1) ::
  (List.range levels).map fun i => .list [i + 1]).toArray⟩

theorem lists_cell {levels i : Nat} (h : i < levels) :
    (lists levels).cell (i + 2) = .list [i + 1] := by
  simp [lists, cell, h]

theorem lists_isData {levels i : Nat} (h : i ≤ levels) :
    (lists levels).isTree (i + 1) = true ∧ ((lists levels).tree (i + 1)).IsData := by
  induction i with
  | zero =>
    have hcell : (lists levels).cell 1 = .plain (.int 1) := rfl
    exact ⟨isTree_of_plain hcell, by simp only [tree, hcell]; exact ⟨trivial, trivial⟩⟩
  | succ i ih =>
    obtain ⟨htree, hdata⟩ := ih (by omega)
    have htree' : (lists levels).isTree (i + 1 + 1) = true := isTree_of_refs fun c hc => by
      rw [lists_cell h] at hc
      exact List.mem_singleton.mp hc ▸ htree
    refine ⟨htree', ?_⟩
    rw [tree_eq_assemble htree', lists_cell h]
    exact ⟨⟨hdata.json, trivial⟩, ⟨hdata.keys, trivial⟩⟩

theorem lists_nesting {levels i : Nat} (h : i ≤ levels) : (lists levels).nesting (i + 1) = i := by
  induction i with
  | zero => exact nesting_of_plain (v := .int 1) rfl
  | succ i ih =>
    rw [nesting_eq (lists_isData h).1, lists_cell h]
    simp [levelsOf, Cell.refs, ih (by omega), Nat.add_comm]

theorem lists_canonical? {levels i : Nat} (h : i ≤ levels) :
    (lists levels).canonical? (i + 1) =
      if i ≤ canonicalLevels then .ok (Json.content ((lists levels).tree (i + 1))).text
      else .error .endless := by
  obtain ⟨htree, hdata⟩ := lists_isData h
  rw [canonical?_of_isTree htree hdata.json]
  simp only [isWithin_iff htree, lists_nesting h]

end Store

end DataSchema
