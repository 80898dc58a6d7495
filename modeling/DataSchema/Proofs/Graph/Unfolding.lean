import DataSchema.Graph
import DataSchema.Proofs.Correspondence

/-!
What a graph looks like from a vertex: the paths that lead to others, the cycles that are come to,
and the tree in which each vertex stands once for every path to it. There is such a tree just if no
cycle is come to.
-/

namespace DataSchema

/-- A tree with a label at each node, and below each node others under steps. -/
inductive Unfolding (α : Type) where
  | node (label : α) (children : List (Step × Unfolding α))

namespace Unfolding

variable {α β : Type}

mutual

/-- What a tree comes to if each node makes something of what its children come to. -/
def fold (f : α → List (Step × β) → β) : Unfolding α → β
  | node label children => f label (foldAll f children)
termination_by structural t => t

def foldAll (f : α → List (Step × β) → β) : List (Step × Unfolding α) → List (Step × β)
  | [] => []
  | (key, t) :: children => (key, fold f t) :: foldAll f children
termination_by structural children => children

end

theorem fold_node (f : α → List (Step × β) → β) (label : α)
    (children : List (Step × Unfolding α)) :
    (node label children).fold f =
      f label (children.map fun child => (child.1, child.2.fold f)) := by
  have hall : foldAll f children = children.map fun child => (child.1, child.2.fold f) := by
    induction children with
    | nil => rfl
    | cons child children ih => rw [foldAll, ih, List.map_cons]
  rw [fold, hall]

/-- The tree with other labels. -/
def map (f : α → β) : Unfolding α → Unfolding β :=
  fold fun label children => node (f label) children

theorem map_node (f : α → β) (label : α) (children : List (Step × Unfolding α)) :
    (node label children).map f =
      node (f label) (children.map fun child => (child.1, child.2.map f)) :=
  fold_node _ label children

/-- The number of nodes on the longest way down. -/
def depth : Unfolding α → Nat :=
  fold fun _ children => 1 + children.foldl (fun n child => max n child.2) 0

/-- The nodes as a traversal comes to them, each before those below it, with the paths to them. The
path to the root is given. -/
def listing (t : Unfolding α) : Path → List (Path × α) :=
  t.fold fun label children path =>
    (path, label) :: children.flatMap fun child => child.2 (path ++ [child.1])

theorem listing_node (label : α) (children : List (Step × Unfolding α)) (path : Path) :
    (node label children).listing path =
      (path, label) :: children.flatMap fun child => child.2.listing (path ++ [child.1]) := by
  rw [listing, fold_node, List.flatMap_map]
  rfl

/-- A tree of kinds and configurations, told as a description. -/
def description : Unfolding (Kind × Value) → Description :=
  fold fun label children =>
    .mk label.1 (if children.isEmpty then label.2 else .null) children

theorem description_node (label : Kind × Value)
    (children : List (Step × Unfolding (Kind × Value))) :
    (node label children).description =
      .mk label.1 (if children.isEmpty then label.2 else .null)
        (children.map fun child => (child.1, child.2.description)) := by
  rw [description, fold_node, List.isEmpty_map]

theorem depth_le_succ {label : α} {children : List (Step × Unfolding α)} {n : Nat} :
    (node label children).depth ≤ n + 1 ↔ ∀ child ∈ children, child.2.depth ≤ n := by
  have hmax (m : Nat) : (children.map fun child => (child.1, child.2.depth)).foldl
      (fun n child => max n child.2) m ≤ n ↔ m ≤ n ∧ ∀ child ∈ children, child.2.depth ≤ n := by
    induction children generalizing m with
    | nil => simp
    | cons child children ih =>
      rw [List.map_cons, List.foldl_cons, ih, List.forall_mem_cons, Nat.max_le, and_assoc]
  rw [depth, fold_node, Nat.add_comm, Nat.add_le_add_iff_right]
  exact (hmax 0).trans (and_iff_right (Nat.zero_le n))

theorem depth_pos (t : Unfolding α) : 0 < t.depth := by
  cases t with
  | node label children =>
    rw [depth, fold_node]
    omega

/-- A tree with other labels is as deep. -/
theorem depth_map (f : α → β) (t : Unfolding α) : (t.map f).depth = t.depth := by
  have hle (n : Nat) : ∀ t : Unfolding α, (t.map f).depth ≤ n ↔ t.depth ≤ n := by
    induction n with
    | zero =>
      intro t
      exact iff_of_false (Nat.not_le_of_lt (t.map f).depth_pos) (Nat.not_le_of_lt t.depth_pos)
    | succ n ih =>
      rintro ⟨label, children⟩
      simp only [map_node, depth_le_succ, List.forall_mem_map, ih]
  exact Nat.le_antisymm ((hle _ t).mpr (Nat.le_refl _)) ((hle _ t).mp (Nat.le_refl _))

theorem depth_lt (label : α) {children : List (Step × Unfolding α)} {child : Step × Unfolding α}
    (h : child ∈ children) : child.2.depth < (node label children).depth := by
  obtain ⟨n, hn⟩ := Nat.exists_eq_add_one.mpr (node label children).depth_pos
  have hle := depth_le_succ.mp (Nat.le_of_eq hn) child h
  omega

end Unfolding

namespace Graph

variable {size : Nat} {g : Graph size} {u v w : Fin size}

/-! ### Paths -/

/-- A path that leads from a vertex to another through children. -/
inductive Leads (g : Graph size) : Fin size → Path → Fin size → Prop
  | here (v : Fin size) : Leads g v [] v
  | child {v w u : Fin size} {key : Step} {path : Path} (h : (key, w) ∈ (g.vertex v).children)
    (hrest : Leads g w path u) : Leads g v (key :: path) u

theorem Leads.append {path path' : Path} (h : g.Leads u path v) (h' : g.Leads v path' w) :
    g.Leads u (path ++ path') w := by
  induction h with
  | here => exact h'
  | child hchild _ ih => exact .child hchild (ih h')

/-- Some path leads from a vertex to another. -/
def Reaches (g : Graph size) (v w : Fin size) : Prop := ∃ path, g.Leads v path w

theorem Reaches.refl (v : Fin size) : g.Reaches v v := ⟨[], .here v⟩

theorem Reaches.trans (h : g.Reaches u v) (h' : g.Reaches v w) : g.Reaches u w := by
  obtain ⟨path, hpath⟩ := h
  obtain ⟨path', hpath'⟩ := h'
  exact ⟨path ++ path', hpath.append hpath'⟩

theorem Reaches.child {below : Step × Fin size} (h : below ∈ (g.vertex v).children) :
    g.Reaches v below.2 :=
  ⟨[below.1], .child h (.here _)⟩

/-- A vertex reaches itself and what its children reach. -/
theorem reaches_iff :
    g.Reaches v w ↔ v = w ∨ ∃ below ∈ (g.vertex v).children, g.Reaches below.2 w := by
  constructor
  · rintro ⟨path, hpath⟩
    cases hpath with
    | here => exact .inl rfl
    | child hchild hrest => exact .inr ⟨_, hchild, _, hrest⟩
  · rintro (rfl | ⟨below, hchild, hrest⟩)
    · exact .refl v
    · exact (Reaches.child hchild).trans hrest

/-- A vertex below itself. -/
def OnCycle (g : Graph size) (v : Fin size) : Prop := ∃ path, path ≠ [] ∧ g.Leads v path v

/-- A vertex from which a cycle is come to. -/
def Cyclic (g : Graph size) (v : Fin size) : Prop := ∃ w, g.Reaches v w ∧ g.OnCycle w

theorem Cyclic.of_reaches (h : g.Reaches v w) (hw : g.Cyclic w) : g.Cyclic v := by
  obtain ⟨u, hu, hcycle⟩ := hw
  exact ⟨u, h.trans hu, hcycle⟩

theorem onCycle_of_child {below : Step × Fin size} (h : below ∈ (g.vertex v).children)
    (hback : g.Reaches below.2 v) : g.OnCycle v := by
  obtain ⟨path, hpath⟩ := hback
  exact ⟨below.1 :: path, List.cons_ne_nil _ _, .child h hpath⟩

/-! ### Unfoldings -/

/-- The tree that a graph looks like from a vertex. -/
inductive Unfolds (g : Graph size) : Fin size → Unfolding (Fin size) → Prop
  | intro {v : Fin size} {children : List (Step × Unfolding (Fin size))}
    (hkeys : (g.vertex v).children.map (·.1) = children.map (·.1))
    (hchildren : List.Forall₂ (Unfolds g) ((g.vertex v).children.map (·.2))
      (children.map (·.2))) : Unfolds g v (.node v children)

/-- A child of a vertex and the tree that stands for it. -/
def Stands (g : Graph size) (below : Step × Fin size) (child : Step × Unfolding (Fin size)) :
    Prop :=
  below.1 = child.1 ∧ g.Unfolds below.2 child.2

theorem unfolds_iff {t : Unfolding (Fin size)} : g.Unfolds v t ↔ ∃ children,
    t = .node v children ∧ List.Forall₂ g.Stands (g.vertex v).children children := by
  constructor
  · rintro ⟨hkeys, hchildren⟩
    exact ⟨_, rfl, forall₂_pairs_iff.mpr ⟨hkeys, hchildren⟩⟩
  · rintro ⟨children, rfl, h⟩
    obtain ⟨hkeys, hchildren⟩ := forall₂_pairs_iff.mp h
    exact .intro hkeys hchildren

/-- There is one tree at most. -/
theorem Unfolds.unique {t t' : Unfolding (Fin size)} (h : g.Unfolds v t) (h' : g.Unfolds v t') :
    t = t' := by
  induction hn : t.depth using Nat.strongRecOn generalizing v t t' with
  | ind n ih =>
    subst hn
    obtain ⟨children, rfl, hall⟩ := unfolds_iff.mp h
    obtain ⟨children', rfl, hall'⟩ := unfolds_iff.mp h'
    have hsame := forall₂_with (forall₂_trans hall.flip hall')
      (fun child hchild => Unfolding.depth_lt v hchild) fun _ _ => trivial
    have heq : List.Forall₂ (· = ·) children children' := hsame.imp fun child child' hboth => by
      obtain ⟨hlt, -, below, ⟨hkey, hunfolds⟩, hkey', hunfolds'⟩ := hboth
      exact Prod.ext (hkey.symm.trans hkey') (ih _ hlt hunfolds hunfolds' rfl)
    rw [List.forall₂_eq_eq_eq] at heq
    rw [heq]

/-- The trees of the vertices below one are lower. -/
theorem Unfolds.leads {t : Unfolding (Fin size)} {path : Path} (h : g.Unfolds v t)
    (hpath : g.Leads v path w) : ∃ t', g.Unfolds w t' ∧ t'.depth + path.length ≤ t.depth := by
  induction hpath generalizing t with
  | here => exact ⟨t, h, Nat.le_refl _⟩
  | @child v _ _ _ _ hchild _ ih =>
    obtain ⟨children, rfl, hall⟩ := unfolds_iff.mp h
    obtain ⟨child, hmem, -, hunfolds⟩ := exists_of_mem_left hall hchild
    obtain ⟨t', ht', hle⟩ := ih hunfolds
    have hlt := Unfolding.depth_lt v hmem
    exact ⟨t', ht', by rw [List.length_cons]; omega⟩

/-- A vertex on a cycle would have a tree below its own, again and again. -/
theorem Unfolds.not_onCycle {t : Unfolding (Fin size)} (h : g.Unfolds v t) : ¬g.OnCycle v := by
  rintro ⟨path, hne, hpath⟩
  induction hn : t.depth using Nat.strongRecOn generalizing t with
  | ind n ih =>
    subst hn
    obtain ⟨t', ht', hle⟩ := h.leads hpath
    have hpos := List.length_pos_iff.mpr hne
    exact ih t'.depth (by omega) ht' rfl

theorem Unfolds.not_cyclic {t : Unfolding (Fin size)} (h : g.Unfolds v t) : ¬g.Cyclic v := by
  rintro ⟨w, ⟨path, hpath⟩, hcycle⟩
  obtain ⟨t', ht', -⟩ := h.leads hpath
  exact ht'.not_onCycle hcycle

/-- Where no cycle is come to there is a tree. The vertices above one are kept in a list, in which
it cannot be found, so that fewer and fewer are left. -/
theorem exists_unfolds_below (above : List (Fin size))
    (habove : ∀ u ∈ above, ∃ path, path ≠ [] ∧ g.Leads u path v) (h : ¬g.Cyclic v) :
    ∃ t, g.Unfolds v t := by
  induction hn : left above using Nat.strongRecOn generalizing above v with
  | ind n ih =>
    subst hn
    have hnew : v ∉ above := fun hmem => h ⟨v, .refl v, habove v hmem⟩
    have htree : ∀ below ∈ (g.vertex v).children, ∃ t, g.Unfolds below.2 t := by
      intro below hbelow
      have hacyclic : ¬g.Cyclic below.2 := fun hcyclic => h (.of_reaches (.child hbelow) hcyclic)
      refine ih _ (left_cons_lt hnew) (v :: above) ?_ hacyclic rfl
      refine List.forall_mem_cons.mpr ⟨⟨[below.1], by simp, .child hbelow (.here _)⟩, ?_⟩
      intro u hu
      obtain ⟨path, -, hpath⟩ := habove u hu
      exact ⟨path ++ [below.1], by simp, hpath.append (.child hbelow (.here _))⟩
    obtain ⟨children, hchildren⟩ := exists_forall₂_of_mem (R := g.Stands) fun below hbelow =>
      let ⟨t, ht⟩ := htree below hbelow
      ⟨(below.1, t), rfl, ht⟩
    exact ⟨_, unfolds_iff.mpr ⟨children, rfl, hchildren⟩⟩

/-- A vertex has a tree just if no cycle is come to from it. -/
theorem exists_unfolds_iff : (∃ t, g.Unfolds v t) ↔ ¬g.Cyclic v :=
  ⟨fun ⟨_, ht⟩ => ht.not_cyclic, exists_unfolds_below [] (by simp)⟩

/-- The tree of a vertex lists what the vertex reaches. -/
theorem Unfolds.mem_listing_iff {t : Unfolding (Fin size)} (h : g.Unfolds v t) (path : Path) :
    w ∈ (t.listing path).map (·.2) ↔ g.Reaches v w := by
  induction hn : t.depth using Nat.strongRecOn generalizing v t path with
  | ind n ih =>
    subst hn
    obtain ⟨children, rfl, hall⟩ := unfolds_iff.mp h
    rw [Unfolding.listing_node, List.map_cons, List.mem_cons, reaches_iff, eq_comm,
      List.map_flatMap, List.mem_flatMap]
    refine or_congr_right ⟨?_, ?_⟩
    · rintro ⟨child, hchild, hw⟩
      obtain ⟨below, hbelow, -, hunfolds⟩ := exists_of_mem_left hall.flip hchild
      exact ⟨below, hbelow, (ih _ (Unfolding.depth_lt v hchild) hunfolds _ rfl).mp hw⟩
    · rintro ⟨below, hbelow, hw⟩
      obtain ⟨child, hchild, -, hunfolds⟩ := exists_of_mem_left hall hbelow
      exact ⟨child, hchild, (ih _ (Unfolding.depth_lt v hchild) hunfolds _ rfl).mpr hw⟩

end Graph

end DataSchema
