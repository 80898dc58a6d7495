import DataSchema.Proofs.Fingerprint
import DataSchema.Proofs.Store.Comparison

/-!
Descriptions tell schemas apart. Main statement: a schema that is not nested too deep has a text
that its fingerprint is the digest of, and two schemas have one text just if they are one tree.
-/

namespace DataSchema

/-! ### Trees -/

namespace Descriptor

def isOutsider : Descriptor → Bool
  | outsider _ _ _ => true
  | _ => false

/-- A descriptor that is made of the fifteen variants. -/
inductive OfVariants : Descriptor → Prop
  | intro {d : Descriptor} (h : d.isOutsider = false)
    (hchildren : ∀ child ∈ d.children, OfVariants child.2) : OfVariants d

/-- Whether two descriptors of one kind agree besides their children: literals are the same data,
files have the same tag or none. -/
def sameOwn : Descriptor → Descriptor → Bool
  | literal p, literal q => p.toValue.sameData q.toValue
  | file s, file t => s == t
  | _, _ => true

/-- One tree: wherever one looks, descriptors are of one kind, agree besides their children, and
have the same children under the same keys in the same order. -/
inductive SameTree : Descriptor → Descriptor → Prop
  | intro {a b : Descriptor} (hkind : a.kind = b.kind) (hown : a.sameOwn b = true)
    (hkeys : a.children.map (·.1) = b.children.map (·.1))
    (hchildren : List.Forall₂ SameTree (a.children.map (·.2)) (b.children.map (·.2))) :
    SameTree a b

theorem sameTree_iff {a b : Descriptor} : a.SameTree b ↔ a.kind = b.kind ∧ a.sameOwn b = true ∧
    a.children.map (·.1) = b.children.map (·.1) ∧
      List.Forall₂ SameTree (a.children.map (·.2)) (b.children.map (·.2)) := by
  constructor
  · rintro ⟨hkind, hown, hkeys, hchildren⟩
    exact ⟨hkind, hown, hkeys, hchildren⟩
  · rintro ⟨hkind, hown, hkeys, hchildren⟩
    exact .intro hkind hown hkeys hchildren

theorem SameTree.refl (d : Descriptor) : d.SameTree d := by
  have hown (d : Descriptor) : d.sameOwn d = true := by
    cases d with
    | literal p => cases p <;> simp [sameOwn, Primitive.toValue, Value.sameData]
    | file tag => simp [sameOwn]
    | _ => rfl
  induction hn : d.depth using Nat.strong_induction_on generalizing d with
  | _ n ih =>
    subst hn
    refine .intro rfl (hown d) rfl (List.forall₂_same.mpr ?_)
    rw [List.forall_mem_map]
    exact fun child hchild => ih _ (depth_lt hchild) _ rfl

/-- Builders make descriptors of the fifteen variants. -/
theorem IsBuilt.ofVariants {d : Descriptor} (h : d.IsBuilt) : d.OfVariants := by
  induction hn : d.depth using Nat.strong_induction_on generalizing d with
  | _ n ih =>
    subst hn
    refine .intro ?_ fun child hchild => ih _ (depth_lt hchild) ?_ rfl
    · cases d <;> first | rfl | exact h.elim
    · cases d with
      | list | record | optional | type =>
        obtain rfl := List.mem_singleton.mp hchild
        exact h
      | object fields =>
        obtain ⟨field, hfield, rfl⟩ := List.mem_map.mp hchild
        exact (fieldsBuilt_iff fields).mp h.2 field hfield
      | union ds =>
        obtain ⟨i, hi, rfl⟩ := List.mem_mapIdx.mp hchild
        exact (allBuilt_iff ds).mp h.2 _ (List.getElem_mem hi)
      | _ => exact absurd hchild List.not_mem_nil

/-! ### What is told of a descriptor -/

/-- What a description holds of a descriptor besides its kind and its children. -/
def ownData : Descriptor → Value
  | literal p => p.toValue
  | file tag => .dict [(.string "type", (tag.map .string).getD .null)]
  | object [] => .dict []
  | union [] => .list []
  | _ => .null

/-- A child is told under its key. -/
def ToldAs (child : Step × Descriptor) (told : Step × Description) : Prop :=
  told.1 = child.1 ∧ child.2.describe.withData? true = .ok told.2

theorem allWithData?_eq (children : List (Step × Descriptor)) :
    ∃ data, Description.allWithData? true
      (children.map fun child => (child.1, child.2.describe)) = .ok data ∧
        List.Forall₂ ToldAs children data := by
  induction children with
  | nil => exact ⟨[], rfl, .nil⟩
  | cons child children ih =>
    obtain ⟨data, hdata, hall⟩ := ih
    obtain ⟨e, he, -⟩ := child.2.withData?_describe
    refine ⟨(child.1, e) :: data, ?_, .cons ⟨rfl, he⟩ hall⟩
    rw [List.map_cons, Description.allWithData?, he, hdata]
    rfl

theorem asData?_eq_ownData (d : Descriptor) :
    (if (d.children.map fun child => (child.1, child.2.describe)).isEmpty then d.configuration
      else .null).asData? true = .ok d.ownData := by
  cases d with
  | literal p => cases p <;> rfl
  | file tag => cases tag <;> rfl
  | object fields => cases fields <;> rfl
  | union ds => cases ds <;> simp [children, ownData, configuration] <;> rfl
  | _ => rfl

theorem withData?_eq (d : Descriptor) : ∃ data,
    d.describe.withData? true = .ok (.mk d.kind d.ownData data) ∧
      List.Forall₂ ToldAs d.children data := by
  obtain ⟨data, hdata, hall⟩ := allWithData?_eq d.children
  refine ⟨data, ?_, hall⟩
  rw [describe_eq, describeWith, Description.withData?, asData?_eq_ownData, hdata]
  rfl

/-! ### The contents of descriptions -/

open Json

theorem sortByKey_description {α : Type} (x y z : α) :
    sortByKey [("id", x), ("configuration", y), ("children", z)] =
      [("children", z), ("configuration", y), ("id", x)] := by
  have hchildren : "children" < "configuration" := by decide
  have hid : "children" < "id" := by decide
  have hconfiguration : "configuration" < "id" := by decide
  simp [sortByKey, insertByKey, hchildren, hid, hconfiguration]

theorem sortByKey_child {α : Type} (x y : α) :
    sortByKey [("key", x), ("descriptor", y)] = [("descriptor", y), ("key", x)] := by
  have hkey : "descriptor" < "key" := by decide
  simp [sortByKey, insertByKey, hkey]

theorem content_description (kind : Kind) (own : Value) (data : List (Step × Description)) :
    content (Description.mk kind own data).toValue = .mapping
      [("children", .sequence (contents (Description.childValues data))),
        ("configuration", content own), ("id", .string kind.id)] := by
  simp only [Description.toValue, content, entryContents, sortByKey_description]

theorem contents_childValues (data : List (Step × Description)) :
    contents (Description.childValues data) = data.map fun told => .mapping
      [("descriptor", content told.2.toValue), ("key", content told.1.toValue)] := by
  induction data with
  | nil => rfl
  | cons told data ih =>
    simp only [Description.childValues, contents, content, entryContents, sortByKey_child, ih,
      List.map_cons]

theorem content_key_iff {j k : Step} : content j.toValue = content k.toValue ↔ j = k := by
  cases j <;> cases k <;> simp [Step.toValue, content, Integer.text_eq_iff]

theorem contents_childValues_iff {data data' : List (Step × Description)} :
    contents (Description.childValues data) = contents (Description.childValues data') ↔
      List.Forall₂ (fun told told' => told.1 = told'.1 ∧
        content told.2.toValue = content told'.2.toValue) data data' := by
  rw [contents_childValues, contents_childValues, ← List.forall₂_eq_eq_eq,
    List.forall₂_map_left_iff, List.forall₂_map_right_iff]
  simp [content_key_iff, and_comm]

/-- What is told besides the children tells descriptors of one kind apart that agree in them. -/
theorem content_ownData_iff {a b : Descriptor} (ha : a.isOutsider = false)
    (hb : b.isOutsider = false) (hkind : a.kind = b.kind)
    (hkeys : a.children.map (·.1) = b.children.map (·.1)) :
    content a.ownData = content b.ownData ↔ a.sameOwn b = true := by
  cases a <;> cases b <;> first | contradiction | skip
  case literal p q =>
    have hleaf : p.toValue.isLeaf = true := by cases p <;> rfl
    have hjson : q.toValue.IsJson := by cases q <;> trivial
    exact content_eq_iff_of_leaf hleaf hjson
  case file s t =>
    cases s <;> cases t <;> simp [ownData, content, entryContents, sortByKey, insertByKey, sameOwn]
  case object fs gs =>
    cases fs <;> cases gs <;> first | exact iff_of_true rfl rfl | simp [children] at hkeys
  case union ds es =>
    cases ds <;> cases es <;> first | exact iff_of_true rfl rfl | simp [children] at hkeys
  all_goals simp [ownData, sameOwn]

/-- Children and what is told of them agree in step. -/
theorem toldAs_iff {children children' : List (Step × Descriptor)}
    {data data' : List (Step × Description)} (h : List.Forall₂ ToldAs children data)
    (h' : List.Forall₂ ToldAs children' data') {R : Descriptor → Descriptor → Prop}
    (hR : ∀ child ∈ children, ∀ child' ∈ children', ∀ e e',
      child.2.describe.withData? true = .ok e → child'.2.describe.withData? true = .ok e' →
        (content e.toValue = content e'.toValue ↔ R child.2 child'.2)) :
    List.Forall₂ (fun told told' => told.1 = told'.1 ∧
        content told.2.toValue = content told'.2.toValue) data data' ↔
      children.map (·.1) = children'.map (·.1) ∧
        List.Forall₂ R (children.map (·.2)) (children'.map (·.2)) := by
  induction h generalizing children' data' with
  | nil => cases h' <;> simp
  | @cons child told children data htold _ ih =>
    cases h' with
    | nil => simp
    | @cons child' told' children' data' htold' hrest =>
      have hpart := hR child List.mem_cons_self child' List.mem_cons_self _ _ htold.2 htold'.2
      have hparts := ih hrest fun c hc c' hc' =>
        hR c (List.mem_cons_of_mem _ hc) c' (List.mem_cons_of_mem _ hc')
      simp only [List.forall₂_cons, hparts, hpart, htold.1, htold'.1, List.map_cons,
        List.cons.injEq]
      tauto

/-- Descriptions have one content just if they are of one tree. -/
theorem content_eq_iff {a b : Descriptor} (ha : a.OfVariants) (hb : b.OfVariants)
    {e f : Description} (he : a.describe.withData? true = .ok e)
    (hf : b.describe.withData? true = .ok f) :
    content e.toValue = content f.toValue ↔ a.SameTree b := by
  induction hn : a.depth using Nat.strong_induction_on generalizing a b e f with
  | _ n ih =>
    subst hn
    obtain ⟨data, hdata, htold⟩ := a.withData?_eq
    obtain ⟨data', hdata', htold'⟩ := b.withData?_eq
    obtain rfl := Except.ok.inj (hdata.symm.trans he)
    obtain rfl := Except.ok.inj (hdata'.symm.trans hf)
    obtain ⟨ha, hchildren⟩ := ha
    obtain ⟨hb, hchildren'⟩ := hb
    have hparts := toldAs_iff htold htold' (R := SameTree)
        fun child hchild child' hchild' _ _ h h' =>
      ih _ (depth_lt hchild) (hchildren _ hchild) (hchildren' _ hchild') h h' rfl
    have hkind : a.kind.id = b.kind.id ↔ a.kind = b.kind :=
      ⟨Kind.id_injective, congrArg Kind.id⟩
    simp only [content_description, Content.mapping.injEq, List.cons.injEq, Prod.mk.injEq, true_and,
      and_true, Content.sequence.injEq, contents_childValues_iff, hparts, Content.string.injEq,
      hkind]
    rw [sameTree_iff]
    constructor
    · rintro ⟨⟨hkeys, hall⟩, hown, hkind⟩
      exact ⟨hkind, (content_ownData_iff ha hb hkind hkeys).mp hown, hkeys, hall⟩
    · rintro ⟨hkind, hown, hkeys, hall⟩
      exact ⟨⟨hkeys, hall⟩, (content_ownData_iff ha hb hkind hkeys).mpr hown, hkind⟩

/-! ### Texts of descriptions -/

theorem text_eq_iff {a b : Descriptor} (ha : a.OfVariants) (hb : b.OfVariants) {s t : String}
    (hs : a.describe.canonical? = .ok s) (ht : b.describe.canonical? = .ok t) :
    s = t ↔ a.SameTree b := by
  obtain ⟨e, he, htext⟩ := a.canonical?_describe
  obtain ⟨f, hf, htext'⟩ := b.canonical?_describe
  rw [if_pos ((exists_text_iff a).mp ⟨s, hs⟩)] at htext
  rw [if_pos ((exists_text_iff b).mp ⟨t, ht⟩)] at htext'
  obtain rfl := Except.ok.inj (htext.symm.trans hs)
  obtain rfl := Except.ok.inj (htext'.symm.trans ht)
  rw [← content_eq_iff ha hb he hf]
  exact ⟨Content.text_injective, congrArg Content.text⟩

end Descriptor

/-! ### Objects -/

namespace Store

variable {store : Store} {r x y : Ref} {a b d : Descriptor}

/-- Schemas that are trees are made of the fifteen variants. -/
theorem ofVariants_of_represents {member : Ref → Prop}
    (hclosed : ∀ x, member x → store.Formed member x) (h : store.Represents member r d) :
    d.OfVariants := by
  induction hn : d.depth using Nat.strong_induction_on generalizing r d with
  | _ n ih =>
    subst hn
    have hformed := hclosed r h.1
    obtain ⟨branches, -, hbranches⟩ := hformed.branches h.2
    refine .intro ?_ ?_
    · cases hformed with
      | @leaf e hcell _ hbuilt =>
        obtain rfl := eq_of_plain hcell h.2
        cases e <;> first | rfl | exact hbuilt.elim
      | literal hcell | list hcell | record hcell | optional hcell | type hcell | object hcell
      | union hcell | file _ hcell =>
        obtain ⟨-, v, -, hholds⟩ := holds_of_tree hcell rfl h.2
        cases hholds
        rfl
    · intro child hchild
      have hfound : ∀ child ∈ d.children, ∃ x, store.Represents member x child.2 :=
        forall_mem_of_forall₂ hbranches fun branch child ⟨x, _, hx, _⟩ => ⟨x, hx⟩
      obtain ⟨x, hx⟩ := hfound child hchild
      exact ih _ (Descriptor.depth_lt hchild) hx rfl

theorem ofVariants_of_tree (hr : store.IsSchema (.object r))
    (h : store.descriptorTree? r = some d) : d.OfVariants := by
  obtain ⟨member, hmember, hclosed⟩ := hr
  exact ofVariants_of_represents hclosed ⟨hmember, h⟩

theorem canonical?_of_fingerprintText? (hr : store.IsSchema (.object r))
    (ha : store.descriptorTree? r = some a) {text : String}
    (h : store.fingerprintText? r = .ok text) : a.describe.canonical? = .ok text := by
  rw [fingerprintText?, describe?_of_tree hr ha] at h
  split at h
  · exact h
  · contradiction

/-- A text within texts, of lists within each other. -/
def nest (levels : Nat) : Store := ⟨(.plain .null :: .plain (.descriptor .string) ::
  (List.range levels).map fun i => .descriptor .list (i + 1)).toArray⟩

theorem nest_cell {levels i : Nat} (h : i < levels) :
    (nest levels).cell (i + 2) = .descriptor .list (i + 1) := by
  simp [nest, cell, h]

theorem nest_isSchema {levels i : Nat} (h : i ≤ levels) :
    (nest levels).IsSchema (.object (i + 1)) := by
  refine ⟨fun r => ∃ i ≤ levels, r = i + 1, ⟨i, h, rfl⟩, ?_⟩
  rintro r ⟨i, hi, rfl⟩
  cases i with
  | zero => exact .leaf (d := .string) rfl rfl trivial
  | succ i => exact .list (nest_cell hi) ⟨i, by omega, rfl⟩

/-- Lists within each other, with a text in the innermost. -/
def nested : Nat → Descriptor
  | 0 => .string
  | levels + 1 => .list (nested levels)

/-- Wherever there are lists as in a nest, they are these trees. -/
theorem tree_of_nest {levels i : Nat} (hfirst : store.cell 1 = .plain (.descriptor .string))
    (hlists : ∀ i < levels, store.cell (i + 2) = .descriptor .list (i + 1)) (h : i ≤ levels) :
    store.descriptorTree? (i + 1) = some (nested i) := by
  induction i with
  | zero =>
    exact descriptorTree?_eq_some.mpr ⟨isTree_of_plain hfirst, by simp only [tree, hfirst]; rfl⟩
  | succ i ih =>
    obtain ⟨htree, heq⟩ := descriptorTree?_eq_some.mp (ih (by omega))
    refine descriptorTree?_of_field (hlists i h) htree ?_
    rw [heq]
    rfl

theorem nest_tree {levels i : Nat} (h : i ≤ levels) :
    (nest levels).descriptorTree? (i + 1) = some (nested i) :=
  tree_of_nest rfl (fun _ hi => nest_cell hi) h

/-- In the strict form there is one level more, that of what is told besides the children. -/
theorem nested_levels (strict : Bool) (levels : Nat) :
    (nested levels).describe.levels strict = levels + (if strict then 2 else 1) := by
  induction levels with
  | zero => cases strict <;> rfl
  | succ levels ih =>
    simp only [nested, Descriptor.describe, Description.levels, Description.levelsOf, ih,
      Value.levels, Nat.max_zero]
    cases strict <;> simp <;> omega

theorem nested_ofVariants (levels : Nat) : (nested levels).OfVariants :=
  ofVariants_of_tree (nest_isSchema (Nat.le_refl levels)) (nest_tree (Nat.le_refl levels))

end Store

end DataSchema
