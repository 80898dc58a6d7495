import DataSchema.Proofs.Fingerprint
import DataSchema.Proofs.Store.Graph

/-!
Descriptions of schemas that may hold themselves. Main statement: as far as there is room to go
deep, a schema has the description of the tree that its graph looks like, and it is refused just if
it comes to a cycle.
-/

namespace DataSchema

namespace Store

variable {store : Store} {v w : Fin store.cells.size} {active : List (Fin store.cells.size)}
  {t : Unfolding (Fin store.cells.size)}

theorem describeWithin_active {levels : Nat} (h : v ∈ active) :
    store.describeWithin (levels + 1) (active.map (·.val)) v =
      .error (.cyclicGraph (store.kind v)) := by
  have hmem : (active.map (·.val)).contains v.val = true := by
    simpa using ⟨v, h, rfl⟩
  simp only [describeWithin, hmem]
  rfl

/-- A schema is described from what its children in the graph are described as, a call below. -/
theorem IsSchema.describeWithin_eq (h : store.IsSchema (.object v)) (hv : v ∉ active)
    (levels : Nat) : store.describeWithin (levels + 1) (active.map (·.val)) v =
      ((store.graph.vertex v).children.mapM fun below => do
          return (below.1, ← store.describeWithin levels ((v :: active).map (·.val)) below.2)) >>=
        fun described => .ok (.mk (store.graph.vertex v).kind
          (if described.isEmpty then (store.graph.vertex v).configuration else .null)
          described) := by
  have hnot : (active.map (·.val)).contains v.val = false := by
    rw [← Bool.not_eq_true, List.contains_iff_mem, List.mem_map]
    rintro ⟨u, hu, heq⟩
    exact hv (Fin.ext heq ▸ hu)
  have hkind : (store.kind? v).isNone = false := by simp [h.formed.kind?]
  simp only [describeWithin, hnot, h.branches?_vertex, hkind, Bool.false_eq_true, if_false,
    List.mapM_map, Function.comp_def, bind, Except.bind, ofValue?_toValue, pure, Except.pure,
    List.map_cons]
  generalize hdescribed : List.mapM (m := Except Error) _ (store.graph.vertex v).children = result
  cases result with
  | error e => rfl
  | ok described =>
    dsimp only
    by_cases hnone : (store.graph.vertex v).children = []
    · rw [configuration_vertex hnone]
      rfl
    · have hempty : described.isEmpty = false := by
        rw [isEmpty_of_mapM hdescribed, List.isEmpty_eq_false_iff]
        exact hnone
      rw [hempty]
      rfl

/-- A schema is described as its vertex in the graph, or else there is a way down with more vertices
than there are calls. -/
theorem IsSchema.describeWithin_cases (h : store.IsSchema (.object v))
    (active : List (Fin store.cells.size)) (levels : Nat) :
    store.describeWithin levels (active.map (·.val)) v = store.graph.describeBelow active v ∨
      store.describeWithin levels (active.map (·.val)) v = .error .endless ∧
        store.graph.Descent active v (levels + 1) := by
  induction levels generalizing v active with
  | zero => exact .inr ⟨rfl, .last active v⟩
  | succ levels ih =>
    by_cases hv : v ∈ active
    · rw [describeWithin_active hv, Graph.describeBelow_active hv]
      exact .inl rfl
    · have hchildren := mapM_eq_or_error (e := .endless)
        (P := fun below => store.graph.Descent (v :: active) below.2 (levels + 1))
        (f := fun below : Step × Fin store.cells.size => do
          return (below.1, ← store.describeWithin levels ((v :: active).map (·.val)) below.2))
        (g := fun below => do
          return (below.1, ← store.graph.describeBelow (v :: active) below.2))
        fun below (hbelow : below ∈ (store.graph.vertex v).children) => by
          rcases ih (h.of_child hbelow) (v :: active) with heq | ⟨hfail, hdescent⟩
          · exact .inl (by rw [heq])
          · exact .inr ⟨by rw [hfail]; rfl, hdescent⟩
      rw [h.describeWithin_eq hv, Graph.describeBelow_eq hv]
      rcases hchildren with heq | ⟨hfail, below, hbelow, hdescent⟩
      · exact .inl (by rw [heq])
      · exact .inr ⟨by rw [hfail]; rfl, .step hv hbelow hdescent⟩

/-- Where no cycle is come to, there are calls enough just if the tree is not deeper. -/
theorem IsSchema.describeWithin_of_unfolds (h : store.IsSchema (.object v))
    (ht : store.graph.Unfolds v t) (active : List (Fin store.cells.size))
    (hactive : ∀ u ∈ active, ¬store.graph.Reaches v u) (levels : Nat) :
    store.describeWithin levels (active.map (·.val)) v =
      if t.depth ≤ levels then .ok (store.graph.told t) else .error .endless := by
  induction levels generalizing v t active with
  | zero => exact (if_neg (Nat.not_le_of_lt t.depth_pos)).symm
  | succ levels ih =>
    have hv : v ∉ active := fun hmem => hactive v hmem (.refl v)
    have hbelow : ∀ below ∈ (store.graph.vertex v).children,
        store.IsSchema (.object below.2) ∧ ∀ u ∈ v :: active, ¬store.graph.Reaches below.2 u :=
      fun below hmem => ⟨h.of_child hmem, ht.not_reaches_child hactive hmem⟩
    obtain ⟨children, rfl, hall⟩ := Graph.unfolds_iff.mp ht
    have hdescribed := mapM_eq_ite (e := .endless) (p := fun child => child.2.depth ≤ levels)
      (f := fun below : Step × Fin store.cells.size => do
        return (below.1, ← store.describeWithin levels ((v :: active).map (·.val)) below.2))
      (g := fun child : Step × Unfolding (Fin store.cells.size) =>
        (child.1, store.graph.told child.2))
      ((forall₂_with hall hbelow fun child hchild => hchild).imp fun below child hchild => by
          obtain ⟨⟨hschema, hnew⟩, -, hkey, hunfolds⟩ := hchild
          rw [ih hschema hunfolds _ hnew, hkey]
          split <;> rfl)
    rw [h.describeWithin_eq hv, hdescribed, Graph.told_node]
    simp only [Unfolding.depth_le_succ]
    split
    · simp only [bind, Except.bind, List.isEmpty_map]
    · rfl

/-- All that describing a schema can come to. Room is wanting only if there is a way down that is
longer than there are calls. -/
theorem IsSchema.describe?_cases (h : store.IsSchema (.object v)) :
    store.describe? v = store.graph.describe v ∨ store.describe? v = .error .endless ∧
      store.graph.Descent [] v (describeLevels + 1) := by
  unfold describe?
  rw [dif_pos v.isLt]
  split
  · exact .inl rfl
  · exact h.describeWithin_cases [] describeLevels

/-- A schema that comes to no cycle has the description of its tree, as far as there is room. -/
theorem IsSchema.describe?_of_unfolds (h : store.IsSchema (.object v))
    (ht : store.graph.Unfolds v t) : store.describe? v =
      if t.depth ≤ describeLevels then .ok (store.graph.told t) else .error .endless := by
  have htree := h.isTree_of_unfolds ht
  unfold describe?
  rw [dif_pos v.isLt, h.all_isIntact, Bool.and_true]
  split
  · next hroom =>
    have hlevels := levels_le_of_hasRoom htree hroom
    rw [if_pos ((h.depth_le_levels ht).trans hlevels)]
    exact ht.describe_eq
  · exact h.describeWithin_of_unfolds ht [] (by simp) describeLevels

/-- Where there is room for each way down, a schema is described as its graph is. -/
theorem IsSchema.describe?_eq (h : store.IsSchema (.object v))
    (hroom : ∀ n, store.graph.Descent [] v n → n ≤ describeLevels) :
    store.describe? v = store.graph.describe v := by
  rcases h.describe?_cases with heq | ⟨-, hdescent⟩
  · exact heq
  · exact absurd (hroom _ hdescent) (Nat.not_succ_le_self _)

/-- Schemas without cycles that look like one tree are described alike. -/
theorem describe?_of_same_unfolding {store' : Store} {w : Fin store'.cells.size}
    {t' : Unfolding (Fin store'.cells.size)} (hv : store.IsSchema (.object v))
    (hw : store'.IsSchema (.object w)) (ht : store.graph.Unfolds v t)
    (ht' : store'.graph.Unfolds w t') (h : t.map store.graph.label = t'.map store'.graph.label) :
    store.describe? v = store'.describe? w := by
  have hdepth : t.depth = t'.depth := by
    rw [← Unfolding.depth_map store.graph.label t, h, Unfolding.depth_map]
  rw [hv.describe?_of_unfolds ht, hw.describe?_of_unfolds ht', hdepth, Graph.told, h, Graph.told]

/-- Below a schema that is a tree are trees, with fewer levels the further they are down. -/
theorem IsSchema.isTree_of_leads (h : store.IsSchema (.object v)) (htree : store.isTree v = true)
    {path : Path} (hpath : store.graph.Leads v path w) :
    store.isTree w = true ∧ store.levels w + path.length ≤ store.levels v := by
  induction hpath with
  | here => exact ⟨htree, Nat.le_refl _⟩
  | child hchild _ ih =>
    have hstep := h.child hchild
    have hlt := h.branches.levels_lt htree _ hstep
    dsimp only at hlt
    obtain ⟨htree', hle⟩ := ih (h.of_child hchild) (h.branches.isTree_iff.mp htree _ hstep)
    exact ⟨htree', by rw [List.length_cons]; omega⟩

/-- A schema is a tree just if it comes to no cycle. -/
theorem IsSchema.isTree_iff (h : store.IsSchema (.object v)) :
    store.isTree v = true ↔ ¬store.graph.Cyclic v := by
  constructor
  · rintro htree ⟨w, ⟨path, hpath⟩, path', hne, hback⟩
    obtain ⟨hw, -⟩ := h.isTree_of_leads htree hpath
    obtain ⟨-, hle⟩ := (h.of_reaches ⟨path, hpath⟩).isTree_of_leads hw hback
    have hpos := List.length_pos_iff.mpr hne
    omega
  · intro hacyclic
    obtain ⟨t, ht⟩ := Graph.exists_unfolds_iff.mpr hacyclic
    exact h.isTree_of_unfolds ht

/-! ### Rings -/

/-- Lists of each other: each holds the one before it, and the first holds the last. -/
def ring (n : Nat) : Store := ⟨((List.range (n + 1)).map fun
  | 0 => .plain .null
  | 1 => .descriptor .list n
  | i + 2 => .descriptor .list (i + 1)).toArray⟩

variable {n i : Nat}

theorem cell_ring (h : i < n) :
    (ring n).cell (i + 1) = .descriptor .list (if i = 0 then n else i) := by
  cases i <;> simp [ring, Store.cell, h]

theorem size_ring (n : Nat) : (ring n).cells.size = n + 1 := by
  simp [ring]

theorem ring_isSchema (h : i < n) : (ring n).IsSchema (.object (i + 1)) := by
  refine ⟨fun r => ∃ i < n, r = i + 1, ⟨i, h, rfl⟩, ?_⟩
  rintro _ ⟨i, h, rfl⟩
  have hheld : ∃ j < n, (if i = 0 then n else i) = j + 1 := by
    split
    · exact ⟨n - 1, by omega, by omega⟩
    · exact ⟨i - 1, by omega, by omega⟩
  exact .list (cell_ring h) hheld

theorem ring_proper (n : Nat) : (ring n).Proper := by
  refine .of_mem (by simp [ring, absent]) fun cell hcell => ?_
  simp only [ring, List.mem_toArray, List.mem_map] at hcell
  obtain ⟨i, -, rfl⟩ := hcell
  match i with
  | 0 => trivial
  | 1 => rfl
  | i + 2 => rfl

/-- The levels go up from each list to the next, so that the first would have fewer than the last,
which it holds. -/
theorem isTree_ring (h : 0 < n) : (ring n).isTree n = false := by
  rw [← Bool.not_eq_true]
  intro htree
  have hdown : ∀ k < n, (ring n).isTree (n - k) = true ∧
      (ring n).levels (n - k) + k ≤ (ring n).levels n := by
    intro k hk
    induction k with
    | zero => exact ⟨htree, Nat.le_refl _⟩
    | succ k ih =>
      obtain ⟨hbefore, hle⟩ := ih (by omega)
      have hcell := cell_ring (n := n) (i := n - k - 1) (by omega)
      rw [if_neg (by omega), show n - k - 1 + 1 = n - k by omega] at hcell
      have hlt := levels_held_lt hcell hbefore
      rw [Nat.sub_add_eq]
      exact ⟨isTree_iff_refs.mp hbefore _ (by simp [hcell, Cell.refs]), by omega⟩
  obtain ⟨hfirst, hle⟩ := hdown (n - 1) (by omega)
  rw [show n - (n - 1) = 0 + 1 by omega] at hfirst hle
  have hcell := cell_ring h
  rw [if_pos rfl] at hcell
  have hlt := levels_held_lt hcell hfirst
  omega

theorem cyclic_ring (h : 0 < n) : ∃ hlt, (ring n).graph.Cyclic ⟨n, hlt⟩ := by
  obtain ⟨i, rfl⟩ := Nat.exists_eq_add_one.mpr h
  have hschema : (ring (i + 1)).IsSchema (.object (i + 1)) := ring_isSchema (Nat.lt_succ_self i)
  have hlt := hschema.formed.lt_size
  refine ⟨hlt, by_contra fun hacyclic => ?_⟩
  have htree := (IsSchema.isTree_iff (v := ⟨i + 1, hlt⟩) hschema).mpr hacyclic
  rw [isTree_ring h] at htree
  contradiction

/-- A ring that is longer than there are calls is not described to the end. -/
theorem describeWithin_ring {levels : Nat} {active : List Ref} (hi : i < n) (h : levels ≤ i + 1)
    (hactive : ∀ u ∈ active, i + 1 < u) :
    (ring n).describeWithin levels active (i + 1) = .error .endless := by
  induction levels generalizing i active with
  | zero => rfl
  | succ levels ih =>
    have hnot : active.contains (i + 1) = false := by
      rw [← Bool.not_eq_true, List.contains_iff_mem]
      exact fun hmem => Nat.lt_irrefl _ (hactive _ hmem)
    have hbelow : (ring n).describeWithin levels ((i + 1) :: active) (if i = 0 then n else i) =
        .error .endless := by
      cases i with
      | zero =>
        obtain rfl : levels = 0 := by omega
        rfl
      | succ i =>
        refine ih (by omega) (by omega) (List.forall_mem_cons.mpr ⟨by omega, fun u hu => ?_⟩)
        have hlt := hactive u hu
        omega
    simp only [describeWithin, hnot, branches?, cell_ring hi]
    simp [hbelow, bind, Except.bind]

theorem describe?_ring (h : describeLevels < n) : (ring n).describe? n = .error .endless := by
  obtain ⟨i, rfl⟩ := Nat.exists_eq_add_one.mpr (Nat.zero_lt_of_lt h)
  have hroom : (ring (i + 1)).hasRoom (i + 1) = false := by
    have horder : (ring (i + 1)).order? (i + 1) = none := by
      simpa [isTree] using isTree_ring (n := i + 1) (by omega)
    simp only [hasRoom, horder, size_ring, decide_eq_false_iff_not, Nat.not_le]
    exact Nat.lt_succ_of_lt h
  have hlt : i + 1 < (ring (i + 1)).cells.size := by
    rw [size_ring]
    exact Nat.lt_succ_self (i + 1)
  unfold describe?
  rw [dif_pos hlt, hroom]
  exact describeWithin_ring (Nat.lt_succ_self i) (Nat.le_of_lt h) (by simp)

/-! ### Examples -/

theorem cyclic_recursive : recursive.graph.Cyclic ⟨3, by decide⟩ := by
  have hlist : recursive.graph.Leads ⟨4, by decide⟩ [.key "value_type"] ⟨3, by decide⟩ :=
    .child List.mem_cons_self (.here _)
  have hback : recursive.graph.Leads ⟨3, by decide⟩ [.index 1, .key "value_type"] ⟨3, by decide⟩ :=
    .child (List.mem_cons_of_mem _ List.mem_cons_self) hlist
  exact ⟨_, .refl _, _, List.cons_ne_nil _ _, hback⟩

theorem descent_recursive {n : Nat} (h : recursive.graph.Descent [] ⟨3, by decide⟩ n) :
    n ≤ describeLevels :=
  h.le_left.trans (by decide)

/-- Numbers or lists of such, where the numbers are two objects. -/
def copied : Store := ⟨#[.plain .null, .plain (.descriptor .number), .tuple [1, 4],
  .descriptor .union 2, .descriptor .list 5, .plain (.descriptor .number)]⟩

theorem copied_isSchema : copied.IsSchema (.object 3) := by
  refine ⟨fun r => r = 1 ∨ r = 3 ∨ r = 4 ∨ r = 5, .inr (.inl rfl), ?_⟩
  rintro r (rfl | rfl | rfl | rfl)
  · exact .leaf (d := .number) rfl rfl trivial
  · exact .union rfl rfl (by simp)
  · exact .list rfl (.inr (.inr (.inr rfl)))
  · exact .leaf (d := .number) rfl rfl trivial

def copiedTree : Unfolding (Fin copied.cells.size) :=
  .node ⟨3, by decide⟩ [(.index 0, .node ⟨1, by decide⟩ []),
    (.index 1, .node ⟨4, by decide⟩ [(.key "value_type", .node ⟨5, by decide⟩ [])])]

theorem unfolds_copied : copied.graph.Unfolds ⟨3, by decide⟩ copiedTree := by
  have hnumber : copied.graph.Unfolds ⟨1, by decide⟩ (.node ⟨1, by decide⟩ []) := .intro rfl .nil
  have hnumber' : copied.graph.Unfolds ⟨5, by decide⟩ (.node ⟨5, by decide⟩ []) := .intro rfl .nil
  have hlist : copied.graph.Unfolds ⟨4, by decide⟩
      (.node ⟨4, by decide⟩ [(.key "value_type", .node ⟨5, by decide⟩ [])]) :=
    .intro rfl (.cons hnumber' .nil)
  exact .intro rfl (.cons hnumber (.cons hlist .nil))

/-- What the unions look like, whether the numbers are one object or two. -/
def numbersTree : Unfolding (Kind × Value) :=
  .node (.union, .null) [(.index 0, .node (.number, .null) []),
    (.index 1, .node (.list, .null) [(.key "value_type", .node (.number, .null) [])])]

theorem sharedTree_map : sharedTree.map shared.graph.label = numbersTree := rfl

theorem copiedTree_map : copiedTree.map copied.graph.label = numbersTree := rfl

end Store

end DataSchema
