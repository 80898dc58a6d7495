import DataSchema.Proofs.Graph.Description
import DataSchema.Proofs.Graph.Walk
import DataSchema.Proofs.Store.Alternatives
import DataSchema.Proofs.Store.Description
import DataSchema.Proofs.Store.Interchange

/-!
The graph of the schemas in a store. Below a schema are schemas, each under its step, so that walks
over the store are those over the graph.
-/

namespace DataSchema

namespace Store

variable {store : Store} {member : Ref → Prop} {r x : Ref}

/-! ### Steps -/

/-- The steps from an object to the descriptors below it. -/
def steps (store : Store) (r : Ref) : List (Step × Ref) :=
  ((store.branches? r).toOption.getD []).filterMap store.step?

/-- The branch that a step is read from. -/
def branchOf (below : Step × Ref) : Branch := .ok (below.1.toValue, .held below.2)

theorem isTree_iff_refs : store.isTree r = true ↔
    ∀ c ∈ (store.cell r).refs, store.isTree c = true :=
  ⟨fun h _ hc => isTree_of_mem_refs h hc, isTree_of_refs⟩

/-- The branches of an object are steps to members of a set, on which alone it depends whether the
object is a tree. -/
structure Branches (store : Store) (member : Ref → Prop) (r : Ref) (below : List (Step × Ref)) :
    Prop where
  branches? : store.branches? r = .ok (below.map branchOf)
  backwards? : store.branchesBackwards? r = (store.branches? r).map List.reverse
  member : ∀ b ∈ below, member b.2
  isTree_iff : store.isTree r = true ↔ ∀ b ∈ below, store.isTree b.2 = true
  levels_lt : store.isTree r = true → ∀ b ∈ below, store.levels b.2 < store.levels r

theorem Branches.none (h : store.branches? r = .ok [])
    (hback : store.branchesBackwards? r = (store.branches? r).map List.reverse)
    (htree : store.isTree r = true) : store.Branches member r [] :=
  ⟨h, hback, by simp, by simpa using htree, by simp⟩

/-- An object in whose field a descriptor is has one step. -/
theorem Branches.single {kind : Kind} {held : Ref} (key : Step)
    (hcell : store.cell r = .descriptor kind held)
    (h : store.branches? r = .ok [branchOf (key, held)])
    (hback : store.branchesBackwards? r = (store.branches? r).map List.reverse)
    (hheld : member held) : store.Branches member r [(key, held)] where
  branches? := h
  backwards? := hback
  member := by simpa using hheld
  isTree_iff := by simp [isTree_iff_refs (r := r), hcell, Cell.refs]
  levels_lt htree := by simpa using levels_held_lt hcell htree

/-- The step to the descriptor in a pair of a name and a descriptor. -/
structure PairStep (store : Store) (member : Ref → Prop) (x : Ref) (below : Step × Ref) : Prop where
  member : member below.2
  mem_refs : below.2 ∈ (store.cell x).refs
  branch : (do let (name, d) ← store.pair? (.held x); return (store.valueOf name, d)) =
    branchOf below
  isTree_iff : store.isTree x = true ↔ store.isTree below.2 = true

theorem exists_pairStep (h : ∃ key name d, store.cell x = .tuple [key, d] ∧
    store.cell key = .plain (.string name) ∧ member d) :
    ∃ below, store.PairStep member x below := by
  obtain ⟨key, name, d, hpair, hname, hd⟩ := h
  refine ⟨(.key name, d), hd, by simp [hpair, Cell.refs], ?_, ?_⟩
  · have hparts : store.pair? (.held x) = .ok (.held key, .held d) := by
      simp [pair?, partsOf?, parts?, hpair]
    have hvalue : store.tree key = .string name := by simp only [tree, hname]
    rw [hparts]
    simp only [bind, Except.bind, valueOf, hvalue]
    rfl
  · simp [isTree_iff_refs (r := x), hpair, Cell.refs, isTree_of_plain hname]

/-- What a descriptor holds in a tuple in its field decides whether it is a tree. -/
theorem isTree_iff_items {kind : Kind} {held : Ref} {items : List Ref}
    (hcell : store.cell r = .descriptor kind held) (hheld : store.cell held = .tuple items) :
    store.isTree r = true ↔ ∀ x ∈ items, store.isTree x = true := by
  rw [isTree_iff_refs, hcell, Cell.refs, List.forall_mem_singleton, isTree_iff_refs, hheld,
    Cell.refs]

theorem levels_item_lt {kind : Kind} {held : Ref} {items : List Ref}
    (hcell : store.cell r = .descriptor kind held) (hheld : store.cell held = .tuple items)
    (h : store.isTree r = true) (hx : x ∈ items) : store.levels x < store.levels r := by
  have hmem : x ∈ (store.cell held).refs := by simpa [hheld, Cell.refs] using hx
  have htree := isTree_of_mem_refs (c := held) h (by simp [hcell, Cell.refs])
  have hle := levels_le_of_mem_refs htree hmem
  have hlt := levels_held_lt hcell h
  omega

/-- The branches of an object are those of the pairs in its field. -/
theorem Branches.object {held : Ref} {items : List Ref} {below : List (Step × Ref)}
    (hcell : store.cell r = .descriptor .object held) (hheld : store.cell held = .tuple items)
    (h : List.Forall₂ (store.PairStep member) items below) : store.Branches member r below where
  branches? := by
    simp only [Store.branches?, hcell, partList?, parts?, hheld, bind, Except.bind, List.map_map]
    exact congrArg Except.ok (map_eq_of_forall₂ h fun x b hb => hb.branch)
  backwards? := by simp only [branchesBackwards?, hcell, hheld]
  member := forall_mem_of_forall₂ h fun _ _ hb => hb.member
  isTree_iff := by
    rw [isTree_iff_items hcell hheld]
    constructor
    · intro hitems b hb
      obtain ⟨x, hx, hstep⟩ := exists_of_mem_left h.flip hb
      exact hstep.isTree_iff.mp (hitems x hx)
    · intro hbelow x hx
      obtain ⟨b, hb, hstep⟩ := exists_of_mem_left h hx
      exact hstep.isTree_iff.mpr (hbelow b hb)
  levels_lt htree b hb := by
    obtain ⟨x, hx, hstep⟩ := exists_of_mem_left h.flip hb
    have hitem := (isTree_iff_items hcell hheld).mp htree x hx
    have hle := levels_le_of_mem_refs hitem hstep.mem_refs
    have hlt := levels_item_lt hcell hheld htree hx
    omega

/-- The branches of a union are its alternatives, each at its position. -/
theorem Branches.union {held : Ref} {items : List Ref}
    (hcell : store.cell r = .descriptor .union held) (hheld : store.cell held = .tuple items)
    (h : ∀ x ∈ items, member x) :
    store.Branches member r (items.mapIdx fun i x => (.index i, x)) where
  branches? := by
    have hbranches : (items.map Part.held).mapIdx (fun i part => .ok (Value.int i, part)) =
        (items.mapIdx fun i x => (Step.index i, x)).map branchOf := by
      simp only [List.mapIdx_eq_zipIdx_map, List.zipIdx_map, List.map_map]
      rfl
    simp only [Store.branches?, hcell, partList?, parts?, hheld, bind, Except.bind]
    exact congrArg Except.ok hbranches
  backwards? := by simp only [branchesBackwards?, hcell]
  member b hb := by
    obtain ⟨i, hi, rfl⟩ := List.mem_mapIdx.mp hb
    exact h _ (List.getElem_mem hi)
  isTree_iff := by
    rw [isTree_iff_items hcell hheld]
    constructor
    · intro hitems b hb
      obtain ⟨i, hi, rfl⟩ := List.mem_mapIdx.mp hb
      exact hitems _ (List.getElem_mem hi)
    · intro hbelow x hx
      obtain ⟨i, hi, rfl⟩ := List.getElem_of_mem hx
      exact hbelow _ (List.mem_mapIdx.mpr ⟨i, hi, rfl⟩)
  levels_lt htree b hb := by
    obtain ⟨i, hi, rfl⟩ := List.mem_mapIdx.mp hb
    exact levels_item_lt hcell hheld htree (List.getElem_mem hi)

/-- The branches of a schema are steps to schemas. -/
theorem Formed.exists_branches (h : store.Formed member r) :
    ∃ below, store.Branches member r below := by
  cases h with
  | leaf hcell => exact ⟨[], .none (by simp only [Store.branches?, hcell])
      (by simp only [branchesBackwards?, hcell]) (isTree_of_plain hcell)⟩
  | literal hcell hheld => exact ⟨[], .none (by simp only [Store.branches?, hcell])
      (by simp only [branchesBackwards?, hcell])
      (isTree_of_refs (by simpa [hcell, Cell.refs] using isTree_of_plain hheld))⟩
  | file tag hcell hheld => exact ⟨[], .none (by simp only [Store.branches?, hcell])
      (by simp only [branchesBackwards?, hcell])
      (isTree_of_refs (by simpa [hcell, Cell.refs] using isTree_of_plain hheld))⟩
  | list hcell hheld | record hcell hheld | optional hcell hheld | type hcell hheld =>
    exact ⟨_, .single (.key _) hcell (by simp only [Store.branches?, hcell]; rfl)
      (by simp only [branchesBackwards?, hcell]) hheld⟩
  | object hcell hheld hitems =>
    obtain ⟨below, hbelow⟩ := exists_forall₂_of_mem fun x hx => exists_pairStep (hitems x hx)
    exact ⟨below, .object hcell hheld hbelow⟩
  | union hcell hheld hitems => exact ⟨_, .union hcell hheld hitems⟩

theorem Formed.lt_size (h : store.Formed member r) : r < store.cells.size := by
  by_contra hge
  have hcell := cell_of_size_le (Nat.le_of_not_lt hge)
  have hkind := h.kind?
  simp [Store.kind?, face, hcell, Cell.face, Value.descriptorKind?] at hkind

/-- The steps of an object are its branches, if these are steps to descriptors. -/
theorem Branches.steps_eq {below : List (Step × Ref)} (h : store.Branches member r below)
    (hkind : ∀ x, member x → (store.kind? x).isSome = true) : store.steps r = below := by
  have hstep : ∀ b ∈ below, (store.step? ∘ branchOf) b = some (id b) := fun b hb =>
    step?_branch (hkind b.2 (h.member b hb))
  rw [steps, h.branches?, Except.toOption, Option.getD_some, List.filterMap_map,
    List.filterMap_eq_map_iff_forall_eq_some.mpr hstep, List.map_id]

/-- Below a schema are schemas. -/
theorem IsSchema.branches (h : store.IsSchema (.object r)) :
    store.Branches (fun x => store.IsSchema (.object x)) r (store.steps r) := by
  obtain ⟨below, hbelow⟩ := h.formed.exists_branches
  rwa [hbelow.steps_eq fun x hx => hx.formed.kind?]

theorem IsSchema.isIntact (h : store.IsSchema (.object r)) : store.isIntact r = true := by
  have hbranches := h.branches
  have hall : ((store.steps r).map branchOf).reverse.all
      (fun branch => (store.step? branch).isSome) = true := by
    rw [List.all_reverse, List.all_map, List.all_eq_true]
    intro b hb
    exact Option.isSome_iff_exists.mpr ⟨b, step?_branch (hbranches.member b hb).formed.kind?⟩
  simp only [Store.isIntact, h.formed.kind?, hbranches.backwards?, hbranches.branches?, Except.map,
    hall, Bool.and_self]

/-! ### Vertices -/

variable {v w : Fin store.cells.size}

theorem children_vertex_eq (v : Fin store.cells.size) : (store.graph.vertex v).children =
    (store.steps v).filterMap fun below =>
      if h : below.2 < store.cells.size then some (below.1, ⟨below.2, h⟩) else none := rfl

/-- The children of a schema in the graph are the descriptors below it. -/
theorem IsSchema.children_vertex (h : store.IsSchema (.object v)) :
    (store.graph.vertex v).children.map (fun below => (below.1, below.2.val)) = store.steps v := by
  rw [children_vertex_eq, List.map_filterMap]
  refine (List.filterMap_eq_map_iff_forall_eq_some.mpr fun below hbelow => ?_).trans
    (List.map_id _)
  rw [dif_pos (h.branches.member below hbelow).formed.lt_size]
  rfl

theorem IsSchema.child (h : store.IsSchema (.object v)) {below : Step × Fin store.cells.size}
    (hbelow : below ∈ (store.graph.vertex v).children) :
    (below.1, below.2.val) ∈ store.steps v := by
  rw [← h.children_vertex]
  exact List.mem_map.mpr ⟨below, hbelow, rfl⟩

theorem IsSchema.of_child (h : store.IsSchema (.object v)) {below : Step × Fin store.cells.size}
    (hbelow : below ∈ (store.graph.vertex v).children) : store.IsSchema (.object below.2) :=
  h.branches.member _ (h.child hbelow)

/-- Only schemas are reached from a schema. -/
theorem IsSchema.of_reaches (h : store.IsSchema (.object v)) (hw : store.graph.Reaches v w) :
    store.IsSchema (.object w) := by
  obtain ⟨path, hpath⟩ := hw
  induction hpath with
  | here => exact h
  | child hchild _ ih => exact ih (h.of_child hchild)

/-- The branches of a schema are its children in the graph. -/
theorem IsSchema.branches?_vertex (h : store.IsSchema (.object v)) : store.branches? v =
    .ok ((store.graph.vertex v).children.map fun below =>
      .ok (below.1.toValue, .held below.2)) := by
  rw [h.branches.branches?, ← h.children_vertex, List.map_map]
  rfl

/-- All that a walk comes to from a schema is intact. -/
theorem IsSchema.all_isIntact (h : store.IsSchema (.object v)) :
    ((store.graph.walk v).all fun place => store.isIntact place.2) = true := by
  rw [List.all_eq_true]
  intro place hplace
  have hreached := Graph.mem_walk_iff.mp (List.mem_map.mpr ⟨place, hplace, rfl⟩)
  exact (h.of_reaches hreached).isIntact

/-- A walk over objects from a schema is that over the graph. -/
theorem IsSchema.walk?_eq (h : store.IsSchema (.object v)) : store.walk? v =
    .ok ((store.graph.walk v).map fun place =>
      (place.1.map Step.toValue, store.kind place.2)) := by
  rw [walk?, dif_pos v.isLt]
  exact if_pos h.all_isIntact

/-- Where no cycle is come to, objects hold each other as trees do. -/
theorem IsSchema.isTree_of_unfolds (h : store.IsSchema (.object v))
    {t : Unfolding (Fin store.cells.size)} (ht : store.graph.Unfolds v t) :
    store.isTree v = true := by
  induction hn : t.depth using Nat.strongRecOn generalizing v t with
  | ind n ih =>
    subst hn
    obtain ⟨children, rfl, hall⟩ := Graph.unfolds_iff.mp ht
    refine h.branches.isTree_iff.mpr ?_
    rw [← h.children_vertex, List.forall_mem_map]
    intro below hbelow
    obtain ⟨child, hchild, -, hunfolds⟩ := exists_of_mem_left hall hbelow
    exact ih _ (Unfolding.depth_lt _ hchild) (h.of_child hbelow) hunfolds rfl

theorem IsSchema.levels_pos (h : store.IsSchema (.object r)) (htree : store.isTree r = true) :
    0 < store.levels r := by
  rw [levels_eq htree]
  rcases h.formed.cell with ⟨d, hcell, -⟩ | ⟨kind, held, hcell, -⟩
  · simp only [hcell, descriptorLevels]
    omega
  · simp only [hcell, descriptorLevels]
    omega

/-- A schema that is a tree is not known to have fewer levels than the tree. -/
theorem IsSchema.depth_le_levels (h : store.IsSchema (.object v))
    {t : Unfolding (Fin store.cells.size)} (ht : store.graph.Unfolds v t) :
    t.depth ≤ store.levels v := by
  induction hn : t.depth using Nat.strongRecOn generalizing v t with
  | ind n ih =>
    subst hn
    have htree := h.isTree_of_unfolds ht
    obtain ⟨children, rfl, hall⟩ := Graph.unfolds_iff.mp ht
    obtain ⟨m, hm⟩ := Nat.exists_eq_add_one.mpr (h.levels_pos htree)
    rw [hm, Unfolding.depth_le_succ]
    intro child hchild
    obtain ⟨below, hbelow, -, hunfolds⟩ := exists_of_mem_left hall.flip hchild
    have hle := ih _ (Unfolding.depth_lt _ hchild) (h.of_child hbelow) hunfolds rfl
    have hlt := h.branches.levels_lt htree _ (h.child hbelow)
    dsimp only at hlt
    omega

/-! ### Examples -/

/-- The walk from a union that is in one of its alternatives ends where it is met again. -/
theorem walk_recursive : recursive.graph.walk ⟨3, by decide⟩ =
    [([], ⟨3, by decide⟩), ([.index 0], ⟨1, by decide⟩), ([.index 1], ⟨4, by decide⟩)] := by
  have hagain : recursive.graph.walkFrom [⟨4, by decide⟩, ⟨1, by decide⟩, ⟨3, by decide⟩]
      [([.index 1, .key "value_type"], ⟨3, by decide⟩)] = [] :=
    (Graph.walkFrom_seen (by decide)).trans Graph.walkFrom_nil
  have hlist : recursive.graph.walkFrom [⟨1, by decide⟩, ⟨3, by decide⟩]
      [([.index 1], ⟨4, by decide⟩)] = [([.index 1], ⟨4, by decide⟩)] :=
    (Graph.walkFrom_fresh (by decide)).trans (congrArg _ hagain)
  have hbelow : recursive.graph.walkFrom [⟨3, by decide⟩]
      [([.index 0], ⟨1, by decide⟩), ([.index 1], ⟨4, by decide⟩)] =
        [([.index 0], ⟨1, by decide⟩), ([.index 1], ⟨4, by decide⟩)] :=
    (Graph.walkFrom_fresh (by decide)).trans (congrArg _ hlist)
  exact (Graph.walkFrom_fresh List.not_mem_nil).trans (congrArg _ hbelow)

/-- Numbers or lists of such, where the numbers are one object. -/
def shared : Store := ⟨#[.plain .null, .plain (.descriptor .number), .tuple [1, 4],
  .descriptor .union 2, .descriptor .list 1]⟩

theorem shared_isSchema : shared.IsSchema (.object 3) := by
  refine ⟨fun r => r = 1 ∨ r = 3 ∨ r = 4, .inr (.inl rfl), ?_⟩
  rintro r (rfl | rfl | rfl)
  · exact .leaf (d := .number) rfl rfl trivial
  · exact .union rfl rfl (by simp)
  · exact .list rfl (.inl rfl)

/-- The tree of the union, in which the numbers stand twice. -/
def sharedTree : Unfolding (Fin shared.cells.size) :=
  .node ⟨3, by decide⟩ [(.index 0, .node ⟨1, by decide⟩ []),
    (.index 1, .node ⟨4, by decide⟩ [(.key "value_type", .node ⟨1, by decide⟩ [])])]

theorem unfolds_shared : shared.graph.Unfolds ⟨3, by decide⟩ sharedTree := by
  have hnumber : shared.graph.Unfolds ⟨1, by decide⟩ (.node ⟨1, by decide⟩ []) := .intro rfl .nil
  have hlist : shared.graph.Unfolds ⟨4, by decide⟩
      (.node ⟨4, by decide⟩ [(.key "value_type", .node ⟨1, by decide⟩ [])]) :=
    .intro rfl (.cons hnumber .nil)
  exact .intro rfl (.cons hnumber (.cons hlist .nil))

end Store

/-- A walk comes to all that is reached, to each vertex once, in the order of the recursive
traversal, and on a path that leads there; where no cycle is come to, this is the order of the tree
that is described. From a schema a walk over objects is that over the graph, whose children are the
branches of the objects. -/
theorem walk_is_preorder :
    (∀ (size : Nat) (g : Graph size) (root : Fin size), g.IsPreorder root (g.walk root) ∧
      (¬g.Cyclic root → ∃ t, g.Unfolds root t ∧
        g.walk root = (t.listing []).eraseDupsBy (fun a b => a.2 == b.2) ∧
        g.describe root = .ok (g.told t) ∧ (g.told t).listing [] =
          (t.listing []).map fun place => (place.1, (g.vertex place.2).kind))) ∧
    ∀ (store : Store) (r : Ref), store.IsSchema (.object r) → ∃ h : r < store.cells.size,
      store.walk? r = .ok ((store.graph.walk ⟨r, h⟩).map fun place =>
        (place.1.map Step.toValue, store.kind place.2)) ∧
      ∀ v, store.graph.Reaches ⟨r, h⟩ v → store.branches? v =
        .ok ((store.graph.vertex v).children.map fun below =>
          .ok (below.1.toValue, .held below.2)) := by
  refine ⟨fun size g root => ⟨g.isPreorder_walk root, fun hacyclic => ?_⟩, fun store r hr => ?_⟩
  · obtain ⟨t, ht⟩ := Graph.exists_unfolds_iff.mpr hacyclic
    exact ⟨t, ht, ht.walk_eq, ht.describe_eq, Graph.listing_told []⟩
  · refine ⟨hr.formed.lt_size, hr.walk?_eq (v := ⟨r, _⟩), fun v hv => ?_⟩
    exact (hr.of_reaches hv).branches?_vertex

/-- A union that is among its own alternatives, in a list, and one that holds numbers twice. -/
theorem walk_is_preorder_union :
    let loop := Store.recursive
    let store := Store.shared
    loop.IsSchema (.object 3) ∧ loop.walk? 3 =
      .ok [([], .union), ([.int 0], .number), ([.int 1], .list)] ∧
    store.IsSchema (.object 3) ∧ ¬store.graph.Cyclic ⟨3, by decide⟩ ∧
      store.walk? 3 = .ok [([], .union), ([.int 0], .number), ([.int 1], .list)] ∧
      ∃ t, store.graph.describe ⟨3, by decide⟩ = .ok (store.graph.told t) ∧
        (store.graph.told t).listing [] = [([], .union), ([.index 0], .number),
          ([.index 1], .list), ([.index 1, .key "value_type"], .number)] := by
  intro loop store
  obtain ⟨hgraphs, hstores⟩ := walk_is_preorder
  obtain ⟨_, hwalk, -⟩ := hstores loop 3 Store.recursive_isSchema
  have hacyclic := Store.unfolds_shared.not_cyclic
  obtain ⟨t, ht, hplaces, hdescribe, hlisting⟩ :=
    (hgraphs _ store.graph ⟨3, by decide⟩).2 hacyclic
  obtain ⟨_, hwalk', -⟩ := hstores store 3 Store.shared_isSchema
  obtain rfl := ht.unique Store.unfolds_shared
  rw [hwalk, Store.walk_recursive, hwalk', hplaces]
  exact ⟨Store.recursive_isSchema, rfl, Store.shared_isSchema, hacyclic, rfl, _, hdescribe,
    hlisting⟩

end DataSchema
