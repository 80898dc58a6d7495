import DataSchema.Proofs.Graph.Unfolding

/-!
Walks over graphs. Main statement: a walk that keeps a stack comes to just the vertices that are
reached, to each once and on a path that leads to it, in the order of the recursive traversal.
Where no cycle is come to, this is the order of the unfolded tree.
-/

namespace DataSchema.Graph

variable {size : Nat} {g : Graph size} {u v w : Fin size} {visited : List (Fin size)}
  {places out : List (Path × Fin size)}

/-- The places below a place: the children of the vertex, each on a path one step longer. -/
def placesBelow (g : Graph size) (path : Path) (v : Fin size) : List (Path × Fin size) :=
  (g.vertex v).children.map fun below => (path ++ [below.1], below.2)

/-- What has been visited when further places have been come to. -/
def visitedAfter (visited : List (Fin size)) (out : List (Path × Fin size)) : List (Fin size) :=
  (out.map (·.2)).reverse ++ visited

/-- The recursive traversal of places in turn, and what it comes to. A vertex that is new is
followed by all that is come to from its children, and only then by the other places. -/
inductive Traversal (g : Graph size) :
    List (Fin size) → List (Path × Fin size) → List (Path × Fin size) → Prop
  | done (visited : List (Fin size)) : Traversal g visited [] []
  | seen {visited : List (Fin size)} {path : Path} {v : Fin size}
    {rest out : List (Path × Fin size)} (hv : v ∈ visited) (hrest : Traversal g visited rest out) :
    Traversal g visited ((path, v) :: rest) out
  | fresh {visited : List (Fin size)} {path : Path} {v : Fin size}
    {rest below after : List (Path × Fin size)} (hv : v ∉ visited)
    (hbelow : Traversal g (v :: visited) (g.placesBelow path v) below)
    (hrest : Traversal g (visitedAfter (v :: visited) below) rest after) :
    Traversal g visited ((path, v) :: rest) ((path, v) :: below ++ after)

/-! ### The stack -/

theorem walkFrom_nil : g.walkFrom visited [] = [] := by
  rw [walkFrom]

theorem walkFrom_seen {path : Path} {rest : List (Path × Fin size)} (hv : v ∈ visited) :
    g.walkFrom visited ((path, v) :: rest) = g.walkFrom visited rest := by
  rw [walkFrom, if_pos hv]

theorem walkFrom_fresh {path : Path} {rest : List (Path × Fin size)} (hv : v ∉ visited) :
    g.walkFrom visited ((path, v) :: rest) =
      (path, v) :: g.walkFrom (v :: visited) (g.placesBelow path v ++ rest) := by
  rw [walkFrom, if_neg hv]
  rfl

@[simp] theorem visitedAfter_nil : visitedAfter visited [] = visited := rfl

@[simp] theorem mem_visitedAfter :
    v ∈ visitedAfter visited out ↔ v ∈ out.map (·.2) ∨ v ∈ visited := by
  rw [visitedAfter, List.mem_append, List.mem_reverse]

theorem visitedAfter_append {after : List (Path × Fin size)} :
    visitedAfter visited (out ++ after) = visitedAfter (visitedAfter visited out) after := by
  simp [visitedAfter]

theorem visitedAfter_cons (path : Path) :
    visitedAfter visited ((path, v) :: out) = visitedAfter (v :: visited) out := by
  simp [visitedAfter]

theorem left_le_of_subset {more : List (Fin size)} (h : visited ⊆ more) :
    left more ≤ left visited :=
  List.countP_mono_left fun u _ hu => by
    simp only [List.contains_eq_mem, Bool.not_eq_true', decide_eq_false_iff_not] at hu ⊢
    exact fun hmem => hu (h hmem)

theorem subset_visitedAfter : visited ⊆ visitedAfter visited out := fun _ hv =>
  mem_visitedAfter.mpr (.inr hv)

/-- Every traversal comes to an end: fewer vertices are left below one that is new. -/
theorem exists_traversal (g : Graph size) (visited : List (Fin size))
    (places : List (Path × Fin size)) : ∃ out, g.Traversal visited places out := by
  induction hn : left visited using Nat.strongRecOn generalizing visited places with
  | ind n ih =>
    subst hn
    suffices key : ∀ visited', visited ⊆ visited' → ∃ out, g.Traversal visited' places out from
      key visited fun _ h => h
    induction places with
    | nil => exact fun visited' _ => ⟨[], .done visited'⟩
    | cons place rest ihrest =>
      obtain ⟨path, v⟩ := place
      intro visited' hsub
      by_cases hv : v ∈ visited'
      · obtain ⟨out, hout⟩ := ihrest visited' hsub
        exact ⟨out, .seen hv hout⟩
      · have hlt := Nat.lt_of_lt_of_le (left_cons_lt hv) (left_le_of_subset hsub)
        obtain ⟨below, hbelow⟩ := ih _ hlt (v :: visited') (g.placesBelow path v) rfl
        obtain ⟨after, hafter⟩ := ihrest (visitedAfter (v :: visited') below)
          fun _ h => subset_visitedAfter (List.mem_cons_of_mem v (hsub h))
        exact ⟨_, .fresh hv hbelow hafter⟩

/-- What is on top of the stack is traversed before what is under it. -/
theorem Traversal.walkFrom_append (h : g.Traversal visited places out)
    (stack : List (Path × Fin size)) : g.walkFrom visited (places ++ stack) =
      out ++ g.walkFrom (visitedAfter visited out) stack := by
  induction h generalizing stack with
  | done => rfl
  | seen hv _ ih => rw [List.cons_append, walkFrom_seen hv, ih]
  | fresh hv _ _ ihbelow ihrest =>
    rw [List.cons_append, walkFrom_fresh hv, ihbelow, ihrest, List.cons_append, List.cons_append,
      visitedAfter_cons, visitedAfter_append, List.append_assoc]

theorem Traversal.walkFrom_eq (h : g.Traversal visited places out) :
    g.walkFrom visited places = out := by
  simpa [walkFrom_nil] using h.walkFrom_append []

/-- A walk is the traversal. -/
theorem traversal_walk (g : Graph size) (root : Fin size) :
    g.Traversal [] [([], root)] (g.walk root) := by
  obtain ⟨out, hout⟩ := g.exists_traversal [] [([], root)]
  rwa [walk, hout.walkFrom_eq]

/-! ### What is come to -/

/-- What has been visited is not come to, and nothing is come to twice. -/
theorem Traversal.nodup (h : g.Traversal visited places out) :
    (out.map (·.2)).Nodup ∧ ∀ u ∈ out.map (·.2), u ∉ visited := by
  induction h with
  | done => simp
  | seen _ _ ih => exact ih
  | @fresh visited path v rest below after hv _ _ ihbelow ihrest =>
    obtain ⟨hbelow, hbelowNew⟩ := ihbelow
    obtain ⟨hafter, hafterNew⟩ := ihrest
    have hafterNew' : ∀ u ∈ after.map (·.2), u ∉ below.map (·.2) ∧ u ≠ v ∧ u ∉ visited := by
      intro u hu
      simpa [not_or] using hafterNew u hu
    have hbelowNew' : ∀ u ∈ below.map (·.2), u ≠ v ∧ u ∉ visited := by
      intro u hu
      simpa [not_or] using hbelowNew u hu
    rw [List.cons_append, List.map_cons, List.map_append]
    refine ⟨List.nodup_cons.mpr ⟨?_, List.nodup_append.mpr ⟨hbelow, hafter, ?_⟩⟩, ?_⟩
    · rw [List.mem_append]
      rintro (hmem | hmem)
      · exact (hbelowNew' v hmem).1 rfl
      · exact (hafterNew' v hmem).2.1 rfl
    · rintro u hu _ hu' rfl
      exact (hafterNew' u hu').1 hu
    · refine List.forall_mem_cons.mpr ⟨hv, List.forall_mem_append.mpr ⟨?_, ?_⟩⟩
      · exact fun u hu => (hbelowNew' u hu).2
      · exact fun u hu => (hafterNew' u hu).2.2

/-- Each place is come to on a path that goes on from one of the places at the start. -/
theorem Traversal.leads (h : g.Traversal visited places out) : ∀ place ∈ out,
    ∃ start ∈ places, ∃ path, g.Leads start.2 path place.2 ∧ place.1 = start.1 ++ path := by
  induction h with
  | done => simp
  | seen _ _ ih =>
    intro place hplace
    obtain ⟨start, hstart, hpath⟩ := ih place hplace
    exact ⟨start, List.mem_cons_of_mem _ hstart, hpath⟩
  | @fresh visited path v rest below after _ _ _ ihbelow ihrest =>
    refine List.forall_mem_cons.mpr ⟨?_, List.forall_mem_append.mpr ⟨?_, ?_⟩⟩
    · exact ⟨(path, v), List.mem_cons_self, [], .here v, by simp⟩
    · intro place hplace
      obtain ⟨start, hstart, path', hleads, heq⟩ := ihbelow place hplace
      obtain ⟨child, hchild, rfl⟩ := List.mem_map.mp hstart
      exact ⟨(path, v), List.mem_cons_self, child.1 :: path', .child hchild hleads, by simp [heq]⟩
    · intro place hplace
      obtain ⟨start, hstart, hpath⟩ := ihrest place hplace
      exact ⟨start, List.mem_cons_of_mem _ hstart, hpath⟩

/-- In the end the places at the start have been visited, and the children of all that is come
to. -/
theorem Traversal.closed (h : g.Traversal visited places out) :
    (∀ place ∈ places, place.2 ∈ visitedAfter visited out) ∧
      ∀ u ∈ out.map (·.2), ∀ below ∈ (g.vertex u).children, below.2 ∈ visitedAfter visited out := by
  induction h with
  | done => simp
  | seen hv _ ih =>
    exact ⟨List.forall_mem_cons.mpr ⟨subset_visitedAfter hv, ih.1⟩, ih.2⟩
  | @fresh visited path v rest below after _ _ _ ihbelow ihrest =>
    obtain ⟨hplaces, hbelow⟩ := ihbelow
    obtain ⟨hrest, hafter⟩ := ihrest
    have hv : v ∈ visitedAfter (visitedAfter (v :: visited) below) after :=
      subset_visitedAfter (subset_visitedAfter List.mem_cons_self)
    rw [List.cons_append, visitedAfter_cons, visitedAfter_append, List.map_cons, List.map_append]
    refine ⟨List.forall_mem_cons.mpr ⟨hv, hrest⟩,
      List.forall_mem_cons.mpr ⟨?_, List.forall_mem_append.mpr ⟨?_, hafter⟩⟩⟩
    · exact fun child hchild => subset_visitedAfter
        (hplaces _ (List.mem_map.mpr ⟨child, hchild, rfl⟩))
    · exact fun u hu child hchild => subset_visitedAfter (hbelow u hu child hchild)

/-- What has been visited and is reached again has nothing new below it. -/
def Settled (g : Graph size) (visited : List (Fin size)) (places : List (Path × Fin size)) : Prop :=
  ∀ u ∈ visited, (∃ start ∈ places, g.Reaches start.2 u) → ∀ w, g.Reaches u w → w ∈ visited

theorem Settled.mono {fewer : List (Path × Fin size)} (h : g.Settled visited places)
    (hsub : fewer ⊆ places) : g.Settled visited fewer := by
  rintro u hu ⟨start, hstart, hreaches⟩
  exact h u hu ⟨start, hsub hstart, hreaches⟩

/-- Below a vertex that is on no cycle nothing reaches it again. -/
theorem Settled.below {path : Path} (h : g.Settled visited ((path, v) :: places))
    (hv : ¬g.OnCycle v) : g.Settled (v :: visited) (g.placesBelow path v) := by
  rintro u hu ⟨start, hstart, hreaches⟩ w hw
  obtain ⟨child, hchild, rfl⟩ := List.mem_map.mp hstart
  rcases List.mem_cons.mp hu with rfl | hu
  · exact (hv (onCycle_of_child hchild hreaches)).elim
  · have hreached : ∃ start ∈ (path, v) :: places, g.Reaches start.2 u :=
      ⟨_, List.mem_cons_self, (Reaches.child hchild).trans hreaches⟩
    exact List.mem_cons_of_mem v (h u hu hreached w hw)

/-- Nothing that is reached from what is come to is left out. -/
theorem Traversal.mem_of_reaches (h : g.Traversal visited places out)
    (hsettled : g.Settled visited places) (hu : u ∈ out.map (·.2)) (hw : g.Reaches u w) :
    w ∈ visitedAfter visited out := by
  obtain ⟨path, hpath⟩ := hw
  induction hpath with
  | here => exact mem_visitedAfter.mpr (.inl hu)
  | child hchild hrest ih =>
    rcases mem_visitedAfter.mp (h.closed.2 _ hu _ hchild) with hout | hold
    · exact ih hout
    · obtain ⟨place, hplace, rfl⟩ := List.mem_map.mp hu
      obtain ⟨start, hstart, path', hleads, -⟩ := h.leads place hplace
      exact subset_visitedAfter
        (hsettled _ hold ⟨start, hstart, .trans ⟨path', hleads⟩ (.child hchild)⟩ _ ⟨_, hrest⟩)

/-- After some places have been traversed, what has been visited is settled for the others. -/
theorem Traversal.settled {rest : List (Path × Fin size)} (h : g.Traversal visited places out)
    (hsettled : g.Settled visited (places ++ rest)) :
    g.Settled (visitedAfter visited out) rest := by
  intro u hu hreached w hw
  rcases mem_visitedAfter.mp hu with hout | hold
  · exact h.mem_of_reaches (hsettled.mono (List.subset_append_left _ _)) hout hw
  · have hrest := hsettled.mono (List.subset_append_right places rest)
    exact subset_visitedAfter (hrest u hold hreached w hw)

/-- A walk comes to all that is reached, and to nothing else. -/
theorem mem_walk_iff {root : Fin size} :
    v ∈ (g.walk root).map (·.2) ↔ g.Reaches root v := by
  have htraversal := g.traversal_walk root
  constructor
  · intro hv
    obtain ⟨place, hplace, rfl⟩ := List.mem_map.mp hv
    obtain ⟨start, hstart, path, hleads, -⟩ := htraversal.leads place hplace
    obtain rfl := List.mem_singleton.mp hstart
    exact ⟨path, hleads⟩
  · intro hv
    have hroot := htraversal.closed.1 _ List.mem_cons_self
    rw [mem_visitedAfter, or_iff_left List.not_mem_nil] at hroot
    have hmem := htraversal.mem_of_reaches (by simp [Settled]) hroot hv
    rwa [mem_visitedAfter, or_iff_left List.not_mem_nil] at hmem

/-! ### Unfolded trees -/

/-- The places of a list that are the first at vertices that have not been visited. -/
def firstPlaces (visited : List (Fin size)) : List (Path × Fin size) → List (Path × Fin size)
  | [] => []
  | place :: rest =>
    if visited.contains place.2 then firstPlaces visited rest
    else place :: firstPlaces (place.2 :: visited) rest

theorem firstPlaces_seen {path : Path} (hv : v ∈ visited) :
    firstPlaces visited ((path, v) :: places) = firstPlaces visited places := by
  rw [firstPlaces, if_pos (List.contains_iff_mem.mpr hv)]

theorem firstPlaces_fresh {path : Path} (hv : v ∉ visited) :
    firstPlaces visited ((path, v) :: places) = (path, v) :: firstPlaces (v :: visited) places := by
  rw [firstPlaces, if_neg fun hmem => hv (List.contains_iff_mem.mp hmem)]

theorem firstPlaces_append {rest : List (Path × Fin size)} :
    firstPlaces visited (places ++ rest) = firstPlaces visited places ++
      firstPlaces (visitedAfter visited (firstPlaces visited places)) rest := by
  induction places generalizing visited with
  | nil => rfl
  | cons place places ih =>
    rw [List.cons_append, firstPlaces, firstPlaces]
    split
    · exact ih
    · rw [ih, List.cons_append, visitedAfter_cons]

theorem firstPlaces_eq_nil (h : ∀ v ∈ places.map (·.2), v ∈ visited) :
    firstPlaces visited places = [] := by
  induction places with
  | nil => rfl
  | cons place places ih =>
    obtain ⟨hplace, hplaces⟩ := List.forall_mem_cons.mp h
    rw [firstPlaces_seen hplace, ih hplaces]

/-- To keep the first places is to drop what is at a vertex of a place before. -/
theorem firstPlaces_eq_eraseDups : firstPlaces visited places =
    (places.filter (!visited.contains ·.2)).eraseDupsBy (fun a b => a.2 == b.2) := by
  induction places generalizing visited with
  | nil => rfl
  | cons place places ih =>
    obtain ⟨path, v⟩ := place
    by_cases hv : v ∈ visited
    · rw [firstPlaces_seen hv, List.filter_cons_of_neg (by simpa using hv), ih]
    · rw [firstPlaces_fresh hv, List.filter_cons_of_pos (by simpa using hv),
        List.eraseDupsBy_cons, ih, List.filter_filter]
      congr 3
      funext below
      rw [List.contains_cons, Bool.not_or, BEq.comm]
      cases v == below.2 <;> rfl

/-- The places of the trees that stand for places, one tree after the other. -/
inductive Listed (g : Graph size) : List (Path × Fin size) → List (Path × Fin size) → Prop
  | nil : Listed g [] []
  | cons {path : Path} {v : Fin size} {t : Unfolding (Fin size)} {rest l : List (Path × Fin size)}
    (ht : g.Unfolds v t) (hrest : Listed g rest l) :
    Listed g ((path, v) :: rest) (t.listing path ++ l)

/-- The trees of the children are listed below a vertex. -/
theorem listed_placesBelow {path : Path} {children : List (Step × Unfolding (Fin size))}
    (h : List.Forall₂ g.Stands (g.vertex v).children children) :
    g.Listed (g.placesBelow path v)
      (children.flatMap fun child => child.2.listing (path ++ [child.1])) := by
  rw [placesBelow]
  generalize (g.vertex v).children = branches at h ⊢
  induction h with
  | nil => exact .nil
  | cons hstands _ ih =>
    obtain ⟨hkey, hunfolds⟩ := hstands
    rw [List.map_cons, List.flatMap_cons, hkey]
    exact .cons hunfolds ih

/-- A traversal of vertices with trees comes to the first places in these. -/
theorem Traversal.eq_firstPlaces (h : g.Traversal visited places out)
    {l : List (Path × Fin size)} (hl : g.Listed places l) (hsettled : g.Settled visited places) :
    out = firstPlaces visited l := by
  induction h generalizing l with
  | done =>
    cases hl
    rfl
  | @seen visited path v rest out hv _ ih =>
    obtain - | @⟨_, _, t, _, l, ht, hrest⟩ := hl
    have hold : firstPlaces visited (t.listing path) = [] := firstPlaces_eq_nil fun w hw =>
      hsettled v hv ⟨_, List.mem_cons_self, .refl v⟩ w ((ht.mem_listing_iff path).mp hw)
    rw [firstPlaces_append, hold, List.nil_append, visitedAfter_nil]
    exact ih hrest (hsettled.mono (List.subset_cons_self _ _))
  | @fresh visited path v rest below after hv hbelow _ ihbelow ihrest =>
    obtain - | @⟨_, _, t, _, l, ht, hrest⟩ := hl
    have hone : g.Traversal visited [(path, v)] ((path, v) :: below) := by
      simpa using Traversal.fresh hv hbelow (.done _)
    have hafter := hone.settled hsettled
    rw [visitedAfter_cons] at hafter
    have hlow := hsettled.below ht.not_onCycle
    obtain ⟨children, rfl, hchildren⟩ := unfolds_iff.mp ht
    rw [Unfolding.listing_node, List.cons_append, List.cons_append, firstPlaces_fresh hv,
      firstPlaces_append, ← ihbelow (listed_placesBelow hchildren) hlow, ← ihrest hrest hafter]

/-- Where no cycle is come to, a walk lists the tree, but each vertex only where it is first. -/
theorem Unfolds.walk_eq {root : Fin size} {t : Unfolding (Fin size)} (h : g.Unfolds root t) :
    g.walk root = (t.listing []).eraseDupsBy (fun a b => a.2 == b.2) := by
  have hfirst := (g.traversal_walk root).eq_firstPlaces (.cons h .nil) (by simp [Settled])
  rw [hfirst, firstPlaces_eq_eraseDups]
  simp

/-! ### Preorder -/

/-- The traversal of a graph from a root, told in full. -/
structure IsPreorder (g : Graph size) (root : Fin size) (places : List (Path × Fin size)) :
    Prop where
  first : ∃ rest, places = ([], root) :: rest
  once : (places.map (·.2)).Nodup
  complete : ∀ v, v ∈ places.map (·.2) ↔ g.Reaches root v
  leads : ∀ place ∈ places, g.Leads root place.1 place.2
  recursive : ∀ out, g.Traversal [] [([], root)] out ↔ out = places

/-- A walk is the traversal in full. -/
theorem isPreorder_walk (g : Graph size) (root : Fin size) : g.IsPreorder root (g.walk root) where
  first := ⟨_, by rw [walk, walkFrom_fresh List.not_mem_nil]⟩
  once := (g.traversal_walk root).nodup.1
  complete _ := mem_walk_iff
  leads place hplace := by
    obtain ⟨start, hstart, path, hleads, heq⟩ := (g.traversal_walk root).leads place hplace
    obtain rfl := List.mem_singleton.mp hstart
    rwa [heq]
  recursive out := by
    constructor
    · intro hout
      exact hout.walkFrom_eq.symm
    · rintro rfl
      exact g.traversal_walk root

end DataSchema.Graph
