import DataSchema.Proofs.Graph.Unfolding
import DataSchema.Proofs.Sequence

/-!
Descriptions of graphs. Main statement: a description is that of the tree that the graph looks like,
however its vertices are shared, and it is refused just if a cycle is come to.
-/

namespace DataSchema

namespace Description

mutual

/-- The kinds that are told of, each before those below it, with the paths to them. -/
def listing : Description → Path → List (Path × Kind)
  | mk kind _ children, path => (path, kind) :: listingAll children path
termination_by structural d => d

def listingAll : List (Step × Description) → Path → List (Path × Kind)
  | [], _ => []
  | (key, d) :: children, path => listing d (path ++ [key]) ++ listingAll children path
termination_by structural children => children

end

theorem listingAll_eq (children : List (Step × Description)) (path : Path) :
    listingAll children path =
      children.flatMap fun child => child.2.listing (path ++ [child.1]) := by
  induction children with
  | nil => rfl
  | cons child children ih => rw [listingAll, ih, List.flatMap_cons]

end Description

namespace Graph

variable {size : Nat} {g : Graph size} {u v w : Fin size} {active : List (Fin size)}
  {t : Unfolding (Fin size)}

/-- What a description tells of a vertex itself. -/
def label (g : Graph size) (v : Fin size) : Kind × Value :=
  ((g.vertex v).kind, (g.vertex v).configuration)

/-- The description of the tree that a graph looks like. -/
def told (g : Graph size) (t : Unfolding (Fin size)) : Description := (t.map g.label).description

theorem told_node {children : List (Step × Unfolding (Fin size))} :
    g.told (.node v children) =
      .mk (g.vertex v).kind (if children.isEmpty then (g.vertex v).configuration else .null)
        (children.map fun child => (child.1, g.told child.2)) := by
  rw [told, Unfolding.map_node, Unfolding.description_node, List.isEmpty_map, List.map_map]
  rfl

/-- The description lists the nodes of the tree. -/
theorem listing_told (path : Path) : (g.told t).listing path =
    (t.listing path).map fun place => (place.1, (g.vertex place.2).kind) := by
  induction hn : t.depth using Nat.strongRecOn generalizing t path with
  | ind n ih =>
    subst hn
    cases t with
    | node v children =>
      have hbelow : ∀ child ∈ children, (g.told child.2).listing (path ++ [child.1]) =
          (child.2.listing (path ++ [child.1])).map
            fun place => (place.1, (g.vertex place.2).kind) :=
        fun child hchild => ih _ (Unfolding.depth_lt v hchild) _ rfl
      rw [told_node, Description.listing, Description.listingAll_eq, Unfolding.listing_node,
        List.map_cons, List.map_flatMap, List.flatMap_map, List.flatMap_congr hbelow]

theorem describeBelow_active (h : v ∈ active) :
    g.describeBelow active v = .error (.cyclicGraph (g.vertex v).kind) := by
  rw [describeBelow, if_pos h]

theorem describeBelow_eq (h : v ∉ active) : g.describeBelow active v =
    ((g.vertex v).children.mapM fun below => do
        return (below.1, ← g.describeBelow (v :: active) below.2)) >>= fun described =>
      .ok (.mk (g.vertex v).kind (if described.isEmpty then (g.vertex v).configuration else .null)
        described) := by
  rw [describeBelow, if_neg h]
  split
  · next hnone =>
    rw [hnone]
    rfl
  · next hsome =>
    cases hdescribed : (g.vertex v).children.mapM fun below =>
        return (below.1, ← g.describeBelow (v :: active) below.2) with
    | error e => rfl
    | ok described =>
      have hne : ¬described.isEmpty := by
        rw [isEmpty_of_mapM hdescribed]
        exact fun hempty => hsome (List.isEmpty_iff.mp hempty)
      simp only [bind, Except.bind, if_neg hne]
      rfl

/-- What is below a vertex with a tree does not reach it, nor what the vertex does not reach. -/
theorem Unfolds.not_reaches_child (h : g.Unfolds v t) (hactive : ∀ u ∈ active, ¬g.Reaches v u)
    {below : Step × Fin size} (hbelow : below ∈ (g.vertex v).children) :
    ∀ u ∈ v :: active, ¬g.Reaches below.2 u := by
  refine List.forall_mem_cons.mpr ⟨fun hback => h.not_onCycle (onCycle_of_child hbelow hback), ?_⟩
  exact fun u hu hreaches => hactive u hu ((Reaches.child hbelow).trans hreaches)

/-- A vertex with a tree is described as the tree is, below such as it does not reach. -/
theorem Unfolds.describeBelow_eq (h : g.Unfolds v t) (hactive : ∀ u ∈ active, ¬g.Reaches v u) :
    g.describeBelow active v = .ok (g.told t) := by
  induction hn : t.depth using Nat.strongRecOn generalizing v t active with
  | ind n ih =>
    subst hn
    have hbelow : ∀ below ∈ (g.vertex v).children, ∀ u ∈ v :: active, ¬g.Reaches below.2 u :=
      fun _ hmem => h.not_reaches_child hactive hmem
    obtain ⟨children, rfl, hall⟩ := unfolds_iff.mp h
    have hdescribed := mapM_eq_ite (e := .endless) (p := fun _ => True)
      (f := fun below : Step × Fin size =>
        return (below.1, ← g.describeBelow (v :: active) below.2))
      (g := fun child : Step × Unfolding (Fin size) => (child.1, g.told child.2))
      ((forall₂_with hall hbelow fun child hchild => Unfolding.depth_lt v hchild).imp
        fun below child hchild => by
          obtain ⟨hnew, hlt, hkey, hunfolds⟩ := hchild
          simp only [ih _ hlt hunfolds hnew rfl, hkey]
          rfl)
    rw [Graph.describeBelow_eq fun hv => hactive v hv (.refl v), hdescribed,
      if_pos fun _ _ => trivial, told_node]
    simp only [bind, Except.bind, List.isEmpty_map]

/-- A description is only refused where a vertex is met again that is being described. -/
theorem describeBelow_failsOnly (active : List (Fin size)) (v : Fin size) :
    FailsOnly (fun e => ∃ w, g.Reaches v w ∧ (w ∈ active ∨ g.OnCycle w) ∧
      e = .cyclicGraph (g.vertex w).kind) _ (g.describeBelow active v) := by
  induction hn : left active using Nat.strongRecOn generalizing active v with
  | ind n ih =>
    subst hn
    by_cases hv : v ∈ active
    · rw [describeBelow_active hv]
      rintro e ⟨⟩
      exact ⟨v, .refl v, .inl hv, rfl⟩
    · rw [Graph.describeBelow_eq hv]
      refine FailsOnly.sequential.bind (FailsOnly.sequential.mapM fun below hbelow => ?_)
        fun _ => FailsOnly.sequential.pure _
      refine FailsOnly.sequential.bind ?_ fun _ => FailsOnly.sequential.pure _
      intro e he
      obtain ⟨w, hw, hmet, rfl⟩ := ih _ (left_cons_lt hv) (v :: active) below.2 rfl e he
      refine ⟨w, (Reaches.child hbelow).trans hw, ?_, rfl⟩
      rcases hmet with hmem | hcycle
      · rcases List.mem_cons.mp hmem with rfl | hmem
        · exact .inr (onCycle_of_child hbelow hw)
        · exact .inl hmem
      · exact .inr hcycle

/-- What is described has a tree. -/
theorem exists_unfolds_of_describeBelow {d : Description} (h : g.describeBelow active v = .ok d) :
    ∃ t, g.Unfolds v t := by
  induction hn : left active using Nat.strongRecOn generalizing active v d with
  | ind n ih =>
    subst hn
    by_cases hv : v ∈ active
    · rw [describeBelow_active hv] at h
      contradiction
    · rw [Graph.describeBelow_eq hv] at h
      obtain ⟨described, hdescribed, -⟩ := exists_of_bind_eq_ok h
      have htree : ∀ below ∈ (g.vertex v).children, ∃ child, g.Stands below child := by
        intro below hbelow
        obtain ⟨_, -, hbelow⟩ := exists_of_mem_left (forall₂_of_mapM hdescribed) hbelow
        obtain ⟨_, hone, -⟩ := exists_of_bind_eq_ok hbelow
        obtain ⟨t, ht⟩ := ih _ (left_cons_lt hv) hone rfl
        exact ⟨(below.1, t), rfl, ht⟩
      obtain ⟨children, hchildren⟩ := exists_forall₂_of_mem htree
      exact ⟨_, unfolds_iff.mpr ⟨children, rfl, hchildren⟩⟩

/-- The description of a graph without a cycle is that of its tree. -/
theorem Unfolds.describe_eq (h : g.Unfolds v t) : g.describe v = .ok (g.told t) :=
  h.describeBelow_eq (by simp)

/-- The description of a graph with a cycle is refused at a vertex on a cycle. -/
theorem Cyclic.describe_eq (h : g.Cyclic v) : ∃ w, g.Reaches v w ∧ g.OnCycle w ∧
    g.describe v = .error (.cyclicGraph (g.vertex w).kind) := by
  cases hdescribe : g.describe v with
  | ok d => exact absurd h (exists_unfolds_iff.mp (exists_unfolds_of_describeBelow hdescribe))
  | error e =>
    obtain ⟨w, hw, hmet, rfl⟩ := describeBelow_failsOnly [] v e hdescribe
    exact ⟨w, hw, hmet.resolve_left List.not_mem_nil, rfl⟩

theorem describe_eq_cyclicGraph_iff :
    (∃ kind, g.describe v = .error (.cyclicGraph kind)) ↔ g.Cyclic v := by
  constructor
  · rintro ⟨kind, hdescribe⟩
    by_contra hacyclic
    obtain ⟨t, ht⟩ := exists_unfolds_iff.mpr hacyclic
    rw [ht.describe_eq] at hdescribe
    contradiction
  · intro hcyclic
    obtain ⟨w, -, -, hdescribe⟩ := hcyclic.describe_eq
    exact ⟨_, hdescribe⟩

/-! ### Ways down -/

/-- A way down with so many vertices. None of them is met again but maybe the last. -/
inductive Descent (g : Graph size) : List (Fin size) → Fin size → Nat → Prop
  | last (above : List (Fin size)) (v : Fin size) : Descent g above v 1
  | step {above : List (Fin size)} {v : Fin size} {below : Step × Fin size} {n : Nat}
    (hv : v ∉ above) (hbelow : below ∈ (g.vertex v).children)
    (hrest : Descent g (v :: above) below.2 n) : Descent g above v (n + 1)

/-- No way down is longer than the tree is deep. -/
theorem Descent.le_depth {n : Nat} (h : g.Descent active v n) (ht : g.Unfolds v t) :
    n ≤ t.depth := by
  induction h generalizing t with
  | last => exact t.depth_pos
  | @step _ v below n _ hbelow _ ih =>
    obtain ⟨children, rfl, hall⟩ := unfolds_iff.mp ht
    obtain ⟨child, hchild, -, hunfolds⟩ := exists_of_mem_left hall hbelow
    have hle := ih hunfolds
    have hlt := Unfolding.depth_lt v hchild
    omega

/-- A way down comes to each vertex once at most, and then to one again. -/
theorem Descent.le_left {n : Nat} (h : g.Descent active v n) : n ≤ left active + 1 := by
  induction h with
  | last above => omega
  | @step above v _ n hv _ _ ih =>
    have hlt := left_cons_lt hv
    omega

end Graph

end DataSchema
