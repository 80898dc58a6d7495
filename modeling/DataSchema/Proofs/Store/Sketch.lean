import DataSchema.Proofs.Store.Conformance

/-!
Sketches, by which builders look at objects. They do not show all of an object, but they tell its
parts, which text it is, and whether it is a descriptor.
-/

namespace DataSchema

namespace Store

variable {store : Store}

/-! ### Trees and sketches -/

/-- Values that stand for objects: a stub, or what is assembled of other values. -/
def Depicts (store : Store) (f : Ref → Value) : Prop :=
  ∀ r, f r = (store.cell r).stub ∨ ∃ g, f r = (store.cell r).assemble g

theorem depicts_treeWithin (levels : Nat) (above : List Ref) :
    store.Depicts (store.treeWithin levels above) := by
  intro r
  cases levels with
  | zero => exact .inl rfl
  | succ levels =>
    unfold treeWithin
    split
    · exact .inl rfl
    · exact .inr ⟨_, rfl⟩

theorem tree_eq_treeWithin {r : Ref} (h : store.isTree r = false) :
    store.tree r = (store.cell r).assemble (store.treeWithin store.cells.size [r]) := by
  have horder : store.order? r = none := by simpa [isTree] using h
  unfold tree
  rw [horder]
  cases hcell : store.cell r with
  | plain v => rfl
  | _ => simp [treeWithin, hcell]

theorem depicts_tree : store.Depicts store.tree := by
  intro r
  cases h : store.isTree r with
  | true => exact .inr ⟨_, tree_eq_assemble h⟩
  | false => exact .inr ⟨_, tree_eq_treeWithin h⟩

theorem exists_depicts (store : Store) (r : Ref) :
    ∃ f, store.Depicts f ∧ store.tree r = (store.cell r).assemble f := by
  cases h : store.isTree r with
  | true => exact ⟨_, depicts_tree, tree_eq_assemble h⟩
  | false => exact ⟨_, depicts_treeWithin _ _, tree_eq_treeWithin h⟩

/-- What is shown of an object tells which text it is, and whether it is a descriptor. -/
structure Resembles (store : Store) (r : Ref) (v : Value) : Prop where
  text {s : String} (h : v = .string s) : store.cell r = .plain (.string s)
  descriptor {d : Descriptor} (h : v = .descriptor d) : (store.kind? r).isSome = true

section Depicts

variable {f : Ref → Value} (hf : store.Depicts f) {r : Ref}
include hf

theorem Depicts.plain {u : Value} (hcell : store.cell r = .plain u) : f r = u := by
  rcases hf r with heq | ⟨g, heq⟩
  · rwa [hcell] at heq
  · rwa [hcell] at heq

/-- What holds nothing and is no stub stands for a plain object. -/
theorem cell_of_depicts {v : Value} (h : f r = v) (hv : v.holds = false)
    (hstub : ∀ s, v ≠ .again s) : store.cell r = .plain v := by
  cases hcell : store.cell r with
  | plain u => rw [← h, hf.plain hcell]
  | descriptor kind held =>
    rcases hf r with heq | ⟨g, heq⟩
    · rw [h, hcell] at heq
      exact absurd heq (hstub _)
    · rw [← h, heq, hcell] at hv
      simp only [Cell.assemble, Cell.assembleDescriptor] at hv
      split at hv <;> contradiction
  | _ =>
    rcases hf r with heq | ⟨g, heq⟩
    · rw [h, hcell] at heq
      exact absurd heq (hstub _)
    · rw [← h, heq, hcell] at hv
      contradiction

/-- A descriptor stands for a descriptor. -/
theorem kind?_of_depicts {d : Descriptor} (h : f r = .descriptor d) :
    (store.kind? r).isSome = true := by
  unfold kind? face
  cases hcell : store.cell r with
  | plain u =>
    obtain rfl : u = .descriptor d := (hf.plain hcell).symm.trans h
    rfl
  | descriptor kind held => rfl
  | _ =>
    rcases hf r with heq | ⟨g, heq⟩
    · rw [h, hcell] at heq
      contradiction
    · rw [h, hcell] at heq
      contradiction

theorem Depicts.resembles (r : Ref) : store.Resembles r (f r) where
  text h := cell_of_depicts hf h rfl fun _ => nofun
  descriptor h := kind?_of_depicts hf h

end Depicts

theorem resembles_seen (r : Ref) : store.Resembles r (Build.seen store r) := by
  unfold Build.seen
  split
  · next kind held hcell => exact ⟨nofun, fun _ => by simp [kind?_of_descriptor hcell]⟩
  · exact depicts_tree.resembles r

/-! ### Parts -/

/-- What is shown of a part, given what is shown of objects. -/
def Part.shown (inside : Ref → Value) : Part → Value
  | held r => inside r
  | loose v => v

def Part.Resembles (store : Store) : Part → Value → Prop
  | held r, v => store.Resembles r v
  | loose u, v => u = v

theorem Part.Resembles.shown {f : Ref → Value} (hf : ∀ r, store.Resembles r (f r)) (part : Part) :
    part.Resembles store (part.shown f) := by
  cases part with
  | held r => exact hf r
  | loose v => rfl

theorem parts?_assembleDescriptor (kind : Kind) (held : Value) :
    (Cell.assembleDescriptor kind held).parts? = none := by
  unfold Cell.assembleDescriptor
  split <;> rfl

/-- All parts are shown, and nothing else. -/
theorem parts?_assemble (f : Ref → Value) (r : Ref) : ((store.cell r).assemble f).parts? =
    (store.parts? r).map fun parts => parts.map (Part.shown f) := by
  unfold parts?
  cases store.cell r with
  | list refs | tuple refs | set refs =>
    simp only [Cell.assemble, Value.parts?, Option.map_some, List.map_map]
    rfl
  | dict entries | view entries =>
    simp only [Cell.assemble, Value.parts?, Option.map_some, List.map_map]
    rfl
  | plain v =>
    have hshown : (fun items : List Value => (items.map Part.loose).map (Part.shown f)) = id := by
      funext items
      rw [List.map_map]
      exact List.map_id items
    simp only [Cell.assemble, Option.map_map, Function.comp_def, hshown, Option.map_id, id]
  | descriptor kind held => exact parts?_assembleDescriptor kind (f held)

theorem tree_of_descriptor {r : Ref} {kind : Kind} {held : Ref}
    (hcell : store.cell r = .descriptor kind held) :
    ∃ v, store.tree r = Cell.assembleDescriptor kind v := by
  obtain ⟨f, -, htree⟩ := store.exists_depicts r
  exact ⟨f held, by rw [htree, hcell]; rfl⟩

theorem parts?_opened (f : Ref → Value) (r : Ref) : (Build.opened store f r).parts? =
    (store.parts? r).map fun parts => parts.map (Part.shown f) := by
  rw [← parts?_assemble]
  unfold Build.opened
  cases hcell : store.cell r with
  | list | tuple | set => rfl
  | dict entries | view entries =>
    simp only [Cell.assemble, Value.parts?, List.map_map]
    rfl
  | plain v => simp only [depicts_tree.plain hcell, Cell.assemble]
  | descriptor kind held =>
    obtain ⟨v, htree⟩ := tree_of_descriptor hcell
    simp only [htree, Cell.assemble, parts?_assembleDescriptor]

theorem pair?_of_parts? {part p q : Part} (h : store.partsOf? part = some [p, q]) :
    store.pair? part = .ok (p, q) := by
  simp only [pair?, h]

/-- What is shown as a pair is one. -/
theorem exists_pair_of_shown {part : Part} {v w : Value}
    (h : (part.shown (Build.openedPair store)).parts? = some [v, w]) :
    ∃ p q, store.pair? part = .ok (p, q) ∧ p.Resembles store v ∧ q.Resembles store w := by
  cases part with
  | loose u =>
    have hparts : u.parts? = some [v, w] := h
    exact ⟨.loose v, .loose w, pair?_of_parts? (by simp [partsOf?, hparts]), rfl, rfl⟩
  | held x =>
    have hseen {a b : Ref} (hparts : store.parts? x = some [.held a, .held b])
        (heq : some [store.tree a, Build.seen store b] = some [v, w]) :
        ∃ p q, store.pair? (.held x) = .ok (p, q) ∧ p.Resembles store v ∧
          q.Resembles store w := by
      obtain ⟨rfl, rfl⟩ : store.tree a = v ∧ Build.seen store b = w := by simpa using heq
      exact ⟨_, _, pair?_of_parts? hparts, depicts_tree.resembles a, resembles_seen b⟩
    simp only [Part.shown] at h
    unfold Build.openedPair at h
    split at h
    · next hcell => exact hseen (by simp [parts?, hcell]) h
    · next hcell => exact hseen (by simp [parts?, hcell]) h
    · next hcell => exact hseen (by simp [parts?, hcell]) h
    · next hcell => exact hseen (by simp [parts?, hcell]) h
    · next hcell => exact hseen (by simp [parts?, hcell]) h
    · obtain ⟨f, hf, htree⟩ := store.exists_depicts x
      rw [htree, parts?_assemble] at h
      obtain ⟨parts, hparts, hmap⟩ := Option.map_eq_some_iff.mp h
      obtain ⟨p, q, rfl⟩ : ∃ p q, parts = [p, q] :=
        List.length_eq_two.mp (by simpa using congrArg List.length hmap)
      obtain ⟨rfl, rfl⟩ : p.shown f = v ∧ q.shown f = w := by simpa using hmap
      exact ⟨p, q, pair?_of_parts? hparts, .shown hf.resembles p, .shown hf.resembles q⟩

/-! ### Entries -/

/-- An entry is shown by its key and its value. -/
def Follows (store : Store) (entry : Ref × Ref) (shown : Value × Value) : Prop :=
  store.Resembles entry.1 shown.1 ∧ store.Resembles entry.2 shown.2

/-- A pair of a store, whose parts are shown as the given ones, maybe in a later store. -/
def Opens (store store' : Store) (part : Part) (shown : Value × Value) : Prop :=
  ∃ p q, store.pair? part = .ok (p, q) ∧ p.Resembles store' shown.1 ∧ q.Resembles store' shown.2

/-- An object from which entries are read that are shown as the given ones. -/
inductive Offers (store : Store) (r : Ref) (shown : List (Value × Value)) : Prop where
  | entries {entries : List (Ref × Ref)} (h : store.entries? r = some entries)
    (hshown : List.Forall₂ store.Follows entries shown)
  | parts {parts : List Part} (hentries : store.entries? r = none)
    (h : store.parts? r = some parts)
    (hshown : List.Forall₂ (store.Opens store) parts shown)

theorem parts?_sketch {r : Ref} (h : store.entries? r = none) :
    (Build.sketch store .object r).parts? =
      (store.parts? r).map fun parts => parts.map (Part.shown (Build.openedPair store)) := by
  simp only [Build.sketch, h, parts?_opened]

theorem entries?_sketch (hproper : store.Proper) {r : Ref} (h : store.entries? r = none) :
    (Build.sketch store .object r).entries? = none := by
  simp only [Build.sketch, h]
  unfold entries? at h
  unfold Build.opened
  cases hcell : store.cell r with
  | list | tuple | set => rfl
  | dict | view => simp [hcell] at h
  | plain v =>
    simp only [depicts_tree.plain hcell]
    exact (hproper.plain hcell).entries?
  | descriptor kind held =>
    obtain ⟨v, htree⟩ := tree_of_descriptor hcell
    simp only [htree, Cell.assembleDescriptor]
    split <;> rfl

/-- What can be written over fields offers entries. -/
theorem offers_of_updates? (hproper : store.Proper) {r : Ref} {written : List (Value × Value)}
    (h : Descriptor.updates? (Build.sketch store .object r) = .ok written) :
    store.Offers r written := by
  cases hentries : store.entries? r with
  | some entries =>
    simp only [Build.sketch, hentries] at h
    obtain rfl := Except.ok.inj h
    refine .entries hentries (List.forall₂_map_right_iff.mpr (List.forall₂_same.mpr ?_))
    exact fun entry _ => ⟨depicts_tree.resembles entry.1, resembles_seen entry.2⟩
  | none =>
    unfold Descriptor.updates? at h
    rw [entries?_sketch hproper hentries, parts?_sketch hentries] at h
    cases hparts : store.parts? r with
    | none =>
      rw [hparts] at h
      contradiction
    | some parts =>
      rw [hparts] at h
      refine .parts hentries hparts ?_
      have hpairs := List.forall₂_map_left_iff.mp (forall₂_of_mapM h)
      refine hpairs.imp fun part entry hentry => exists_pair_of_shown ?_
      split at hentry
      · contradiction
      · next key w hshown =>
        split at hentry
        · obtain rfl := Except.ok.inj hentry
          exact hshown
        · contradiction
      · contradiction

end Store

end DataSchema
