import DataSchema.Proofs.Correspondence
import DataSchema.Proofs.Description
import DataSchema.Proofs.Store.Engine
import DataSchema.Store.Outline

/-!
Descriptions of schemas that are trees. However the objects below such a schema are shared, the
description is that of the tree; it is only refused where there is no room to go so deep.
-/

namespace DataSchema

namespace Descriptor

/-- A descriptor with the value in its field. -/
inductive Holds : Kind → Value → Descriptor → Prop where
  | literal (p : Primitive) : Holds .literal p.toValue (.literal p)
  | list (d : Descriptor) : Holds .list (.descriptor d) (.list d)
  | record (d : Descriptor) : Holds .record (.descriptor d) (.record d)
  | object (fields : List (String × Descriptor)) :
    Holds .object (.tuple (fields.map heldField)) (.object fields)
  | optional (d : Descriptor) : Holds .optional (.descriptor d) (.optional d)
  | union (ds : List Descriptor) : Holds .union (.tuple (ds.map .descriptor)) (.union ds)
  | type (d : Descriptor) : Holds .type (.descriptor d) (.type d)
  | file (tag : Option String) : Holds .file ((tag.map .string).getD .null) (.file tag)

theorem holds_of_held? {d : Descriptor} {v : Value} (h : d.held? = some v) : Holds d.kind v d := by
  cases d with
  | literal p => exact Option.some.inj h ▸ .literal p
  | list d => exact Option.some.inj h ▸ .list d
  | record d => exact Option.some.inj h ▸ .record d
  | object fields => exact Option.some.inj h ▸ .object fields
  | optional d => exact Option.some.inj h ▸ .optional d
  | union ds => exact Option.some.inj h ▸ .union ds
  | type d => exact Option.some.inj h ▸ .type d
  | file tag => exact Option.some.inj h ▸ .file tag
  | _ => contradiction

theorem children_of_field?_none {d : Descriptor} (h : d.kind.field? = none) : d.children = [] := by
  cases d with
  | list | record | object | optional | union | type => simp [kind, Kind.field?] at h
  | _ => rfl

end Descriptor

namespace Store

variable {store : Store} {member : Ref → Prop} {r : Ref} {d : Descriptor}

/-! ### Levels -/

theorem foldl_max_congr {f g : Ref → Nat} {refs : List Ref} (h : ∀ c ∈ refs, f c = g c) :
    refs.foldl (fun n r => max n (f r)) 0 = refs.foldl (fun n r => max n (g r)) 0 :=
  List.foldl_ext _ _ 0 fun n c hc => by rw [h c hc]

theorem foldl_max_le_iff {f : Ref → Nat} {refs : List Ref} {m n : Nat} :
    refs.foldl (fun n r => max n (f r)) m ≤ n ↔ m ≤ n ∧ ∀ c ∈ refs, f c ≤ n := by
  induction refs generalizing m with
  | nil => simp
  | cons x refs ih => rw [List.foldl_cons, ih, max_le_iff, List.forall_mem_cons, and_assoc]

theorem le_foldl_max {f : Ref → Nat} {refs : List Ref} {c : Ref} (hc : c ∈ refs) (n : Nat) :
    f c ≤ refs.foldl (fun n r => max n (f r)) n :=
  (foldl_max_le_iff.mp (Nat.le_refl _)).2 c hc

theorem local_descriptorLevels : Local descriptorLevels := by
  intro f g cell h
  simp only [descriptorLevels, foldl_max_congr h]

/-- The levels of descriptors in an object that is a tree. -/
def levels (store : Store) (r : Ref) : Nat := store.known 0 descriptorLevels r

theorem levels_eq (h : store.isTree r = true) :
    store.levels r = descriptorLevels store.levels (store.cell r) :=
  known_eq local_descriptorLevels (fun _ => rfl) h

theorem levels_le_of_hasRoom (h : store.isTree r = true) (hroom : store.hasRoom r = true) :
    store.levels r ≤ describeLevels := by
  obtain ⟨order, horder⟩ := Option.isSome_iff_exists.mp h
  simpa only [hasRoom, levels, known, horder, decide_eq_true_eq] using hroom

theorem levels_le_of_mem_refs {c : Ref} (h : store.isTree r = true)
    (hc : c ∈ (store.cell r).refs) : store.levels c ≤ store.levels r := by
  have hle := le_foldl_max (f := store.levels) hc 0
  rw [levels_eq h]
  unfold descriptorLevels
  dsimp only
  split <;> omega

theorem levels_held_lt {kind : Kind} {held : Ref} (hcell : store.cell r = .descriptor kind held)
    (h : store.isTree r = true) : store.levels held < store.levels r := by
  rw [levels_eq h, hcell]
  simp [descriptorLevels, Cell.refs]

/-! ### Branches -/

/-- An object of a set that is the tree of a descriptor. -/
def Represents (store : Store) (member : Ref → Prop) (r : Ref) (d : Descriptor) : Prop :=
  member r ∧ store.descriptorTree? r = some d

/-- A branch that leads from an object to one that is the tree of a child. -/
def BranchTo (store : Store) (member : Ref → Prop) (r : Ref) (branch : Branch)
    (child : Step × Descriptor) : Prop :=
  ∃ x, branch = .ok (child.1.toValue, .held x) ∧ store.Represents member x child.2 ∧
    store.levels x < store.levels r

theorem BranchTo.intro {x : Ref} {c : Descriptor} (key : Step) (hx : store.Represents member x c)
    (hlt : store.levels x < store.levels r) :
    store.BranchTo member r (.ok (key.toValue, .held x)) (key, c) :=
  ⟨x, rfl, hx, hlt⟩

theorem eq_of_plain (hcell : store.cell r = .plain (.descriptor d)) {e : Descriptor}
    (h : store.descriptorTree? r = some e) : d = e := by
  have htree := (descriptorTree?_eq_some.mp h).2
  simp only [tree, hcell] at htree
  exact Value.descriptor.inj htree

/-- A descriptor that is a tree is made of what is in its field. -/
theorem holds_of_tree {kind : Kind} {held : Ref} (hcell : store.cell r = .descriptor kind held)
    (hfield : kind.field?.isSome = true) (h : store.descriptorTree? r = some d) :
    store.isTree held = true ∧ ∃ v, store.tree held = v ∧ Descriptor.Holds kind v d := by
  rcases cell_of_descriptorTree? h with hplain | ⟨kind', held', hcell', htree, hheld⟩
  · simp [hcell] at hplain
  · obtain ⟨rfl, rfl⟩ := Cell.descriptor.inj (hcell.symm.trans hcell')
    obtain ⟨hkind, heq⟩ := Descriptor.held?_of_ofHeld? hheld hfield
    exact ⟨htree, _, rfl, hkind ▸ Descriptor.holds_of_held? heq⟩

/-- A pair that has the tree of a field is one of its name and of its descriptor. -/
theorem trees_of_pair {x key y : Ref} {name : String} {field : String × Descriptor}
    (hpair : store.cell x = .tuple [key, y]) (hname : store.cell key = .plain (.string name))
    (h : store.isTree x = true ∧ store.tree x = Descriptor.heldField field) :
    name = field.1 ∧ store.isTree y = true ∧ store.tree y = .descriptor field.2 := by
  obtain ⟨htree, heq⟩ := h
  have hkey : store.tree key = .string name := by simp only [tree, hname]
  rw [tree_eq_assemble htree, hpair] at heq
  obtain ⟨hfirst, hsecond⟩ : name = field.1 ∧ store.tree y = .descriptor field.2 := by
    simpa [Cell.assemble, Descriptor.heldField, hkey] using heq
  exact ⟨hfirst, isTree_of_mem_refs htree (by simp [hpair, Cell.refs]), hsecond⟩

/-- A pair that has the tree of a field leads to the descriptor under the name. -/
theorem pair?_of_field {x key y : Ref} {name : String} {field : String × Descriptor}
    (hpair : store.cell x = .tuple [key, y]) (hname : store.cell key = .plain (.string name))
    (hy : member y) (h : store.isTree x = true ∧ store.tree x = Descriptor.heldField field) :
    store.pair? (.held x) = .ok (.held key, .held y) ∧ store.tree key = .string field.1 ∧
      store.Represents member y field.2 ∧ store.levels y ≤ store.levels x := by
  obtain ⟨rfl, hfield⟩ := trees_of_pair hpair hname h
  have hmem : y ∈ (store.cell x).refs := by simp [hpair, Cell.refs]
  exact ⟨by simp [pair?, partsOf?, parts?, hpair], by simp only [tree, hname],
    ⟨hy, descriptorTree?_eq_some.mpr hfield⟩, levels_le_of_mem_refs h.1 hmem⟩

/-- The branches of a schema that is a tree lead to its children. -/
theorem Formed.branches (hr : store.Formed member r) (h : store.descriptorTree? r = some d) :
    ∃ branches, store.branches? r = .ok branches ∧
      List.Forall₂ (store.BranchTo member r) branches d.children := by
  have htree := (descriptorTree?_eq_some.mp h).1
  cases hr with
  | leaf hcell hfield =>
    obtain rfl := eq_of_plain hcell h
    rw [Descriptor.children_of_field?_none hfield]
    exact ⟨[], by simp only [branches?, hcell], .nil⟩
  | literal hcell =>
    obtain ⟨-, v, -, hholds⟩ := holds_of_tree hcell rfl h
    cases hholds
    exact ⟨[], by simp only [branches?, hcell], .nil⟩
  | file tag hcell =>
    obtain ⟨-, v, -, hholds⟩ := holds_of_tree hcell rfl h
    cases hholds
    exact ⟨[], by simp only [branches?, hcell], .nil⟩
  | list hcell hmember | record hcell hmember | optional hcell hmember | type hcell hmember =>
    obtain ⟨hheld, v, hv, hholds⟩ := holds_of_tree hcell rfl h
    cases hholds
    have hrepr := And.intro hmember (descriptorTree?_eq_some.mpr ⟨hheld, hv⟩)
    refine ⟨_, by simp only [branches?, hcell]; rfl, .cons ?_ .nil⟩
    exact .intro (.key _) hrepr (levels_held_lt hcell htree)
  | @object held items hcell hitems hmember =>
    obtain ⟨hheld, v, hv, hholds⟩ := holds_of_tree hcell rfl h
    cases hholds with | object fields => ?_
    refine ⟨_, by simp only [branches?, hcell, partList?, parts?, hitems]; rfl, ?_⟩
    rw [Descriptor.children_object, List.map_map, List.forall₂_map_left_iff,
      List.forall₂_map_right_iff]
    have hall := (List.forall₂_and_left _ _).mpr ⟨fun x hx => And.intro hx (hmember x hx),
      forall₂_of_tree_tuple hitems hheld hv⟩
    refine hall.imp ?_
    rintro x field ⟨⟨hx, key, name, y, hcell', hname, hy⟩, hxtree⟩
    obtain ⟨hpair, hkey, hrepr, hyle⟩ := pair?_of_field hcell' hname hy hxtree
    have hxle := levels_le_of_mem_refs hheld (c := x) (by rwa [hitems])
    have hlt := levels_held_lt hcell htree
    refine ⟨y, ?_, hrepr, by omega⟩
    simp only [Function.comp_apply, hpair, bind, Except.bind, valueOf, hkey]
    rfl
  | @union held items hcell hitems hmember =>
    obtain ⟨hheld, v, hv, hholds⟩ := holds_of_tree hcell rfl h
    cases hholds with | union ds => ?_
    have hlt := levels_held_lt hcell htree
    have hall : List.Forall₂ (fun part d => ∃ x, part = Part.held x ∧
        store.Represents member x d ∧ store.levels x < store.levels r)
        (items.map Part.held) ds := by
      rw [List.forall₂_map_left_iff]
      refine ((List.forall₂_and_left _ _).mpr ⟨fun x hx => hx,
        forall₂_of_tree_tuple hitems hheld hv⟩).imp ?_
      rintro x d ⟨hx, hxtree, hxeq⟩
      have hxle := levels_le_of_mem_refs hheld (c := x) (by rwa [hitems])
      exact ⟨x, rfl, ⟨hmember x hx, descriptorTree?_eq_some.mpr ⟨hxtree, hxeq⟩⟩, by omega⟩
    refine ⟨_, by simp only [branches?, hcell, partList?, parts?, hitems]; rfl, ?_⟩
    refine forall₂_mapIdx hall ?_
    rintro i - d ⟨x, rfl, hx, hxlt⟩
    exact .intro (.index i) hx hxlt

theorem Formed.field? (hr : store.Formed member r) {kind : Kind} {held : Ref}
    (hcell : store.cell r = .descriptor kind held) : kind.field?.isSome = true := by
  cases hr with
  | leaf hplain => simp [hcell] at hplain
  | file _ heq =>
    obtain ⟨rfl, -⟩ := Cell.descriptor.inj (hcell.symm.trans heq)
    rfl
  | _ heq =>
    obtain ⟨rfl, -⟩ := Cell.descriptor.inj (hcell.symm.trans heq)
    rfl

/-- A schema that is a tree has no field, or it is made of what is in its field. -/
theorem Formed.holds (hr : store.Formed member r) (h : store.descriptorTree? r = some d) :
    (store.cell r = .plain (.descriptor d) ∧ d.kind.field? = none) ∨
      ∃ kind held v, store.cell r = .descriptor kind held ∧ store.tree held = v ∧
        Descriptor.Holds kind v d := by
  rcases cell_of_descriptorTree? h with hplain | ⟨kind, held, hcell, -⟩
  · refine .inl ⟨hplain, ?_⟩
    cases hr with
    | leaf hcell hfield =>
      obtain rfl := eq_of_plain hcell h
      exact hfield
    | file _ hcell => simp [hcell] at hplain
    | _ hcell => simp [hcell] at hplain
  · obtain ⟨-, v, hv, hholds⟩ := holds_of_tree hcell (hr.field? hcell) h
    exact .inr ⟨kind, held, v, hcell, hv, hholds⟩

theorem Formed.kind?_eq (hr : store.Formed member r) (h : store.descriptorTree? r = some d) :
    store.kind? r = some d.kind := by
  rcases hr.holds h with ⟨hcell, -⟩ | ⟨kind, held, v, hcell, -, hholds⟩
  · simp only [Store.kind?, face, hcell, Cell.face, Value.descriptorKind?]
  · rw [kind?_of_descriptor hcell]
    cases hholds <;> rfl

theorem Formed.configuration (hr : store.Formed member r)
    (h : store.descriptorTree? r = some d) (hnone : d.children = []) :
    store.configuration r = d.configuration := by
  rcases hr.holds h with ⟨hcell, hfield⟩ | ⟨kind, held, v, hcell, hv, hholds⟩
  · simp only [Store.configuration, hcell]
    cases d with
    | literal | list | record | object | optional | union | type | file =>
      simp [Descriptor.kind, Kind.field?] at hfield
    | _ => rfl
  · cases hholds with
    | literal | file =>
      simp only [Store.configuration, hcell, hv]
      rfl
    | object fields =>
      obtain rfl : fields = [] := by simpa [Descriptor.children] using hnone
      simp only [Store.configuration, hcell]
      rfl
    | union ds =>
      obtain rfl : ds = [] := by simpa [Descriptor.children] using hnone
      simp only [Store.configuration, hcell, hv]
      rfl
    | _ => simp [Descriptor.children] at hnone

/-! ### Descriptions -/

theorem Formed.levels_pos (hr : store.Formed member r) (h : store.descriptorTree? r = some d) :
    0 < store.levels r := by
  rw [levels_eq (descriptorTree?_eq_some.mp h).1]
  rcases hr.holds h with ⟨hcell, -⟩ | ⟨kind, held, v, hcell, -⟩
  · simp only [hcell, descriptorLevels]
    omega
  · simp only [hcell, descriptorLevels]
    omega

theorem ofValue?_toValue (step : Step) : Step.ofValue? step.toValue = some step := by
  cases step <;> rfl

/-- What a schema that is a tree is told as, given what its children are told as. -/
theorem Formed.description (hr : store.Formed member r) (h : store.descriptorTree? r = some d) :
    let children := d.children.map fun child => (child.1, child.2.describe)
    Description.mk (store.kind r)
      (if children.isEmpty then store.configuration r else .null) children = d.describe := by
  have hkind : store.kind r = d.kind := by simp only [kind, hr.kind?_eq h, Option.getD_some]
  rw [Descriptor.describe_eq, Descriptor.describeWith, hkind]
  by_cases hnone : d.children = []
  · simp only [hnone, hr.configuration h hnone]
  · simp [hnone]

variable (hclosed : ∀ x, member x → store.Formed member x)

include hclosed in
/-- A schema is not known to have fewer levels than are in the descriptor. -/
theorem depth_le_levels (h : store.Represents member r d) : d.depth ≤ store.levels r := by
  induction hn : store.levels r using Nat.strong_induction_on generalizing r d with
  | _ n ih =>
    obtain ⟨branches, -, hall⟩ := (hclosed r h.1).branches h.2
    obtain ⟨m, rfl⟩ := Nat.exists_eq_add_one.mpr (hn ▸ (hclosed r h.1).levels_pos h.2)
    rw [Descriptor.depth_le_succ]
    refine forall_mem_of_forall₂ hall ?_
    rintro branch child ⟨x, -, hx, hlt⟩
    have hle := ih _ (hn ▸ hlt) hx rfl
    omega

include hclosed in
/-- Described call by call, a schema that is a tree has the description of the tree, if there are
calls enough. -/
theorem describeWithin_of_tree (h : store.Represents member r d) {levels : Nat}
    {active : List Ref} (hactive : ∀ x ∈ active, store.levels r < store.levels x) :
    store.describeWithin levels active r =
      if d.depth ≤ levels then .ok d.describe else .error .endless := by
  induction levels generalizing r d active with
  | zero => rw [describeWithin, if_neg (Nat.not_le_of_lt d.depth_pos)]
  | succ levels ih =>
    obtain ⟨branches, hbranches, hall⟩ := (hclosed r h.1).branches h.2
    have hnot : active.contains r = false := by
      by_contra hmem
      exact Nat.lt_irrefl _ (hactive r (by simpa using hmem))
    have hkind := (hclosed r h.1).kind?_eq h.2
    -- Those that are being described have more levels, so that none of them is met again.
    have hbelow : ∀ {y : Ref}, store.levels y < store.levels r →
        ∀ x ∈ r :: active, store.levels y < store.levels x :=
      fun hy => List.forall_mem_cons.mpr ⟨hy, fun x hx => hy.trans (hactive x hx)⟩
    simp only [describeWithin, hnot, hbranches, bind, Except.bind]
    rw [mapM_eq_ite (p := fun child : Step × Descriptor => child.2.depth ≤ levels)
      (g := fun child => (child.1, child.2.describe)) (hall.imp fun branch child hbranch => ?_)]
    · by_cases hroom : ∀ child ∈ d.children, child.2.depth ≤ levels
      · rw [if_pos hroom, if_pos (Descriptor.depth_le_succ.mpr hroom)]
        simp only [hkind]
        exact congrArg Except.ok ((hclosed r h.1).description h.2)
      · rw [if_neg hroom, if_neg (mt Descriptor.depth_le_succ.mp hroom)]
        rfl
    · obtain ⟨x, rfl, hx, hlt⟩ := hbranch
      simp only [ih hx (hbelow hlt)]
      by_cases hroom : child.2.depth ≤ levels
      · simp only [if_pos hroom, ofValue?_toValue]
        rfl
      · simp only [if_neg hroom]

theorem step?_branch {key : Step} {x : Ref} (h : (store.kind? x).isSome = true) :
    store.step? (.ok (key.toValue, .held x)) = some (key, x) := by
  cases key <;> simp [step?, Step.toValue, h]

theorem configuration_vertex {v : Fin store.cells.size}
    (h : (store.graph.vertex v).children = []) :
    (store.graph.vertex v).configuration = store.configuration v :=
  if_pos (List.isEmpty_iff.mpr h)

theorem lt_size_of_tree (h : store.descriptorTree? r = some d) : r < store.cells.size := by
  by_contra hge
  have htree := (descriptorTree?_eq_some.mp h).2
  rw [tree, cell_of_size_le (Nat.le_of_not_lt hge)] at htree
  contradiction

include hclosed in
/-- The children of a vertex in the graph of a store are those of the descriptor. -/
theorem children_vertex {v : Fin store.cells.size} (h : store.Represents member v d) :
    List.Forall₂ (fun below child => below.1 = child.1 ∧ store.Represents member below.2 child.2 ∧
      store.levels below.2 < store.levels v) (store.graph.vertex v).children d.children := by
  obtain ⟨branches, hbranches, hall⟩ := (hclosed v h.1).branches h.2
  simp only [graph, hbranches, Except.toOption, Option.getD_some]
  clear hbranches
  generalize d.children = children at hall
  induction hall with
  | nil => exact .nil
  | @cons branch child branches children hbranch _ ih =>
    obtain ⟨x, rfl, hx, hlt⟩ := hbranch
    have hkind := (hclosed x hx.1).kind?
    have hsize := lt_size_of_tree hx.2
    simp only [List.filterMap_cons, step?_branch hkind, hsize, dif_pos]
    exact .cons ⟨rfl, hx, hlt⟩ ih

include hclosed in
theorem describeBelow_of_tree {v : Fin store.cells.size} (h : store.Represents member v d)
    {active : List (Fin store.cells.size)}
    (hactive : ∀ u ∈ active, store.levels v < store.levels u) :
    store.graph.describeBelow active v = .ok d.describe := by
  induction hn : store.levels v using Nat.strong_induction_on generalizing v d active with
  | _ n ih =>
    have hall := children_vertex hclosed h
    have hnot : v ∉ active := fun hmem => Nat.lt_irrefl _ (hactive v hmem)
    have hbelow : ∀ {w : Fin store.cells.size}, store.levels w < store.levels v →
        ∀ u ∈ v :: active, store.levels w < store.levels u :=
      fun hw => List.forall_mem_cons.mpr ⟨hw, fun u hu => hw.trans (hactive u hu)⟩
    have hdescription := (hclosed v h.1).description h.2
    rw [Graph.describeBelow, if_neg hnot]
    split
    · next hnone =>
      rw [hnone] at hall
      rw [List.forall₂_nil_left_iff.mp hall] at hdescription
      rw [configuration_vertex hnone]
      exact congrArg Except.ok hdescription
    · next hsome =>
      rw [mapM_eq_ite (p := fun _ => True) (e := .endless)
        (g := fun child => (child.1, child.2.describe)) (hall.imp fun below child hchild => ?_)]
      · have hchildren : d.children ≠ [] := by
          intro hnil
          rw [hnil] at hall
          exact hsome (List.forall₂_nil_right_iff.mp hall)
        rw [if_pos fun _ _ => trivial, ← hdescription]
        simp only [List.isEmpty_map, List.isEmpty_iff, if_neg hchildren]
        rfl
      · obtain ⟨hkey, hrepr, hlt⟩ := hchild
        simp only [ih _ (hn ▸ hlt) hrepr (hbelow hlt) rfl, hkey]
        rfl

include hclosed in
theorem describe?_of_member (h : store.Represents member r d) :
    store.describe? r =
      if d.depth ≤ describeLevels then .ok d.describe else .error .endless := by
  have hlt := lt_size_of_tree h.2
  unfold describe?
  rw [dif_pos hlt]
  split
  · next hroom =>
    have hlevels := levels_le_of_hasRoom (descriptorTree?_eq_some.mp h.2).1
      (Bool.and_eq_true_iff.mp hroom).1
    rw [if_pos ((depth_le_levels hclosed h).trans hlevels)]
    exact describeBelow_of_tree hclosed (v := ⟨r, hlt⟩) h (by simp)
  · exact describeWithin_of_tree hclosed h (by simp)

/-- The description of a schema that is a tree is that of the tree, as far as there is room. -/
theorem describe?_of_tree (hr : store.IsSchema (.object r))
    (h : store.descriptorTree? r = some d) :
    store.describe? r =
      if d.depth ≤ describeLevels then .ok d.describe else .error .endless := by
  obtain ⟨member, hmember, hclosed⟩ := hr
  exact describe?_of_member hclosed ⟨hmember, h⟩

end Store

end DataSchema
