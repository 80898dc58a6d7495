import DataSchema.Proofs.Interchange
import DataSchema.Proofs.Store.Equality
import DataSchema.Proofs.Store.Explanation

/-!
Equal objects do the same. Two descriptors that may hold themselves are like each other if wherever
one looks their variants and what they hold in their fields are alike. What is found to be equal is
like each other, and the engine cannot tell what is like each other apart.
-/

namespace DataSchema

/-- Descriptors without a field are equal only if they are one. -/
theorem Descriptor.eq_of_same_leaf {d e : Descriptor} (hd : d.IsBuilt)
    (hfield : d.kind.field? = none) (h : d.same e = true) : d = e := by
  cases d <;> cases e <;>
    simp_all [Descriptor.same, Descriptor.kind, Kind.field?, Descriptor.IsBuilt]

namespace Store

variable {store : Store} {member : Ref → Prop} {x y : Ref}

/-! ### What fields hold -/

/-- What builders put into the field of a descriptor of a kind. -/
inductive Fills (store : Store) (member : Ref → Prop) : Kind → Ref → Prop where
  | literal {held : Ref} {p : Primitive} (h : store.cell held = .plain p.toValue) :
    Fills store member .literal held
  | list {held : Ref} (h : member held) : Fills store member .list held
  | record {held : Ref} (h : member held) : Fills store member .record held
  | optional {held : Ref} (h : member held) : Fills store member .optional held
  | type {held : Ref} (h : member held) : Fills store member .type held
  | object {held : Ref} {items : List Ref} (h : store.cell held = .tuple items)
    (hitems : ∀ x ∈ items, ∃ key name d,
      store.cell x = .tuple [key, d] ∧ store.cell key = .plain (.string name) ∧ member d) :
    Fills store member .object held
  | union {held : Ref} {items : List Ref} (h : store.cell held = .tuple items)
    (hitems : ∀ x ∈ items, member x) : Fills store member .union held
  | file {held : Ref} (tag : Option String)
    (h : store.cell held = .plain ((tag.map .string).getD .null)) : Fills store member .file held

/-- What is formed has no field or something in it. -/
theorem Formed.cell (h : store.Formed member x) :
    (∃ d, store.cell x = .plain (.descriptor d) ∧ d.kind.field? = none ∧ d.IsBuilt) ∨
      ∃ kind held, store.cell x = .descriptor kind held ∧ store.Fills member kind held := by
  cases h with
  | leaf hcell hfield hbuilt => exact .inl ⟨_, hcell, hfield, hbuilt⟩
  | literal hcell hheld => exact .inr ⟨_, _, hcell, .literal hheld⟩
  | list hcell hheld => exact .inr ⟨_, _, hcell, .list hheld⟩
  | record hcell hheld => exact .inr ⟨_, _, hcell, .record hheld⟩
  | optional hcell hheld => exact .inr ⟨_, _, hcell, .optional hheld⟩
  | type hcell hheld => exact .inr ⟨_, _, hcell, .type hheld⟩
  | object hcell hheld hitems => exact .inr ⟨_, _, hcell, .object hheld hitems⟩
  | union hcell hheld hitems => exact .inr ⟨_, _, hcell, .union hheld hitems⟩
  | file tag hcell hheld => exact .inr ⟨_, _, hcell, .file tag hheld⟩

theorem Formed.fills (h : store.Formed member x) {kind : Kind} {held : Ref}
    (hcell : store.cell x = .descriptor kind held) : store.Fills member kind held := by
  rcases h.cell with ⟨d, hplain, -⟩ | ⟨kind', held', heq, hfills⟩
  · simp [hcell] at hplain
  · obtain ⟨rfl, rfl⟩ := Cell.descriptor.inj (hcell.symm.trans heq)
    exact hfills

/-- The objects that are schemas hold what builders put there, and of descriptors only such. -/
theorem IsSchema.formed (h : store.IsSchema (.object x)) :
    store.Formed (fun u => store.IsSchema (.object u)) x := by
  obtain ⟨member, hmem, hclosed⟩ := h
  exact (hclosed x hmem).mono fun u hu => ⟨member, hu, hclosed⟩

/-! ### Objects that are like each other -/

variable {B : Ref → Ref → Prop}

/-- Two fields of descriptors of a kind that hold alike things. -/
inductive FieldAlike (store : Store) (B : Ref → Ref → Prop) : Kind → Ref → Ref → Prop where
  | literal {u w : Ref} {p q : Primitive} (hu : store.cell u = .plain p.toValue)
    (hw : store.cell w = .plain q.toValue) (h : p.same q = true) : FieldAlike store B .literal u w
  | list {u w : Ref} (h : B u w) : FieldAlike store B .list u w
  | record {u w : Ref} (h : B u w) : FieldAlike store B .record u w
  | optional {u w : Ref} (h : B u w) : FieldAlike store B .optional u w
  | type {u w : Ref} (h : B u w) : FieldAlike store B .type u w
  | object {u w : Ref} {xs ys : List Ref} (hu : store.cell u = .tuple xs)
    (hw : store.cell w = .tuple ys) (h : List.Forall₂ (fun x y => ∃ key key' name d e,
      store.cell x = .tuple [key, d] ∧ store.cell y = .tuple [key', e] ∧
      store.cell key = .plain (.string name) ∧ store.cell key' = .plain (.string name) ∧ B d e)
      xs ys) : FieldAlike store B .object u w
  | union {u w : Ref} {xs ys : List Ref} (hu : store.cell u = .tuple xs)
    (hw : store.cell w = .tuple ys) (h : List.Forall₂ B xs ys) : FieldAlike store B .union u w
  | file {u w : Ref} (tag : Option String)
    (hu : store.cell u = .plain ((tag.map .string).getD .null))
    (hw : store.cell w = .plain ((tag.map .string).getD .null)) : FieldAlike store B .file u w

/-- Two descriptors with the same content, or of one kind with fields that hold alike things. -/
inductive Matched (store : Store) (B : Ref → Ref → Prop) (x y : Ref) : Prop where
  | one (h : store.cell x = store.cell y)
  | field {kind : Kind} {u w : Ref} (hx : store.cell x = .descriptor kind u)
    (hy : store.cell y = .descriptor kind w) (h : store.FieldAlike B kind u w)

/-- Two objects that are like each other, and so are all descriptors that are come to from them on
the same ways, maybe again and again. -/
def Alike (store : Store) (x y : Ref) : Prop :=
  ∃ B : Ref → Ref → Prop, B x y ∧ ∀ u w, B u w → store.Matched B u w

/-- Fields that are found to be equal hold alike things, if whatever they hold that is found to be
equal is alike. -/
theorem Fills.alike_of_compared {kind : Kind} {u w : Ref} (hu : store.Fills member kind u)
    (hw : store.Fills member kind w) (hparts : store.Compared u w)
    (hbool : kind = .literal → (store.face u).isBool = (store.face w).isBool)
    (hB : ∀ u w, member u → member w → store.Compared u w → B u w) :
    store.FieldAlike B kind u w := by
  cases hu with
  | list hu => cases hw with | list hw => exact .list (hB _ _ hu hw hparts)
  | record hu => cases hw with | record hw => exact .record (hB _ _ hu hw hparts)
  | optional hu => cases hw with | optional hw => exact .optional (hB _ _ hu hw hparts)
  | type hu => cases hw with | type hw => exact .type (hB _ _ hu hw hparts)
  | @literal _ p hp =>
    cases hw with | @literal _ q hq => ?_
    refine .literal hp hq ?_
    obtain ⟨v, hv, hequal⟩ := hparts.plain hp
    obtain rfl := Cell.plain.inj (hq.symm.trans hv)
    rcases hequal with heq | hequal
    · rw [Primitive.toValue_injective heq]
      exact q.same_refl
    · have hfaces := hbool rfl
      simp only [face, hp, hq] at hfaces
      exact Primitive.same_of_equal (by cases p <;> cases q <;> exact hfaces) hequal
  | object hu hxs =>
    cases hw with | object hw hys => ?_
    refine .object hu hw ((forall₂_with (hparts.tuple hu hw) hxs hys).imp ?_)
    rintro x y ⟨⟨key, name, d, hx, hname, hd⟩, ⟨key', name', e, hy, hname', he⟩, hxy⟩
    obtain ⟨hkeys, hrest⟩ := List.forall₂_cons.mp (hxy.tuple hx hy)
    obtain ⟨v, hv, hequal⟩ := hkeys.plain hname
    obtain rfl := Cell.plain.inj (hname'.symm.trans hv)
    obtain rfl : name = name' := by
      rcases hequal with heq | hequal
      · exact Value.string.inj heq
      · exact beq_iff_eq.mp hequal
    exact ⟨key, key', name, d, e, hx, hy, hname, hname',
      hB d e hd he (List.forall₂_cons.mp hrest).1⟩
  | union hu hxs =>
    cases hw with | union hw hys => ?_
    refine .union hu hw ((forall₂_with (hparts.tuple hu hw) hxs hys).imp ?_)
    rintro x y ⟨hx, hy, hxy⟩
    exact hB x y hx hy hxy
  | file s hs =>
    cases hw with | file t ht => ?_
    obtain ⟨v, hv, hequal⟩ := hparts.plain hs
    obtain rfl := Cell.plain.inj (ht.symm.trans hv)
    obtain rfl : s = t := by
      rcases hequal with heq | hequal
      · cases s <;> cases t <;> simp_all
      · exact tag_eq_of_equal hequal
    exact .file s hs ht

/-- Descriptors that are found to be equal match, if whatever they hold that is found to be equal
does. -/
theorem Formed.matched_of_compared (hx : store.Formed member x) (hy : store.Formed member y)
    (h : store.Compared x y)
    (hB : ∀ u w, member u → member w → store.Compared u w → B u w) : store.Matched B x y := by
  rcases hx.cell with ⟨d, hcell, hfield, hbuilt⟩ | ⟨kind, u, hcell, hu⟩
  · obtain ⟨v, hcell', hequal⟩ := h.plain hcell
    rcases hy.cell with ⟨e, hcell'', -⟩ | ⟨kind, w, hcell'', -⟩
    · obtain rfl := Cell.plain.inj (hcell'.symm.trans hcell'')
      refine .one (hcell.trans (hcell''.trans ?_).symm)
      rcases hequal with heq | hequal
      · rw [heq]
      · rw [Descriptor.eq_of_same_leaf hbuilt hfield hequal]
    · simp [hcell'] at hcell''
  · obtain ⟨w, hcell', hparts, hbool⟩ := h.descriptor hcell
    exact .field hcell hcell' (hu.alike_of_compared (hy.fills hcell') hparts hbool hB)

/-- Fields whose trees are what equal descriptors hold hold alike things, if whatever they hold that
has equal trees is alike. -/
theorem Fills.alike_of_trees {kind : Kind} {u w : Ref} {v v' : Value} {a b : Descriptor}
    (hu : store.Fills member kind u) (hw : store.Fills member kind w)
    (hut : store.isTree u = true) (hwt : store.isTree w = true) (hv : store.tree u = v)
    (hv' : store.tree w = v') (hholds : Descriptor.Holds kind v a)
    (hholds' : Descriptor.Holds kind v' b) (h : a.same b = true)
    (hB : ∀ u w c d, member u → member w → store.descriptorTree? u = some c →
      store.descriptorTree? w = some d → c.same d = true → B u w) :
    store.FieldAlike B kind u w := by
  cases hu with
  | list hu | record hu | optional hu | type hu =>
    cases hw with | _ hw => ?_
    cases hholds
    cases hholds'
    have hc := descriptorTree?_eq_some.mpr ⟨hut, hv⟩
    have hd := descriptorTree?_eq_some.mpr ⟨hwt, hv'⟩
    constructor
    exact hB u w _ _ hu hw hc hd h
  | literal hp =>
    cases hw with | literal hq => ?_
    cases hholds with | literal p => ?_
    cases hholds' with | literal q => ?_
    simp only [tree, hp] at hv
    simp only [tree, hq] at hv'
    exact .literal (hv ▸ hp) (hv' ▸ hq) h
  | object hu hxs =>
    cases hw with | object hw hys => ?_
    cases hholds with | object fs => ?_
    cases hholds' with | object gs => ?_
    have hitems := forall₂_trans (forall₂_of_tree_tuple hu hut hv)
      (forall₂_trans ((Descriptor.sameFields_iff fs gs).mp h)
        (forall₂_of_tree_tuple hw hwt hv').flip)
    refine .object hu hw ((forall₂_with hitems hxs hys).imp ?_)
    rintro x y ⟨⟨key, name, d, hx, hname, hd⟩, ⟨key', name', e, hy, hname', he⟩, f, hf, g,
      ⟨hnames, hsame⟩, hg⟩
    obtain ⟨rfl, hc⟩ := trees_of_pair hx hname hf
    obtain ⟨rfl, hc'⟩ := trees_of_pair hy hname' hg
    exact ⟨key, key', f.1, d, e, hx, hy, hname, hnames ▸ hname', hB d e _ _ hd he
      (descriptorTree?_eq_some.mpr hc) (descriptorTree?_eq_some.mpr hc') hsame⟩
  | union hu hxs =>
    cases hw with | union hw hys => ?_
    cases hholds with | union ds => ?_
    cases hholds' with | union es => ?_
    have hitems := forall₂_trans (forall₂_of_tree_tuple hu hut hv)
      (forall₂_trans ((Descriptor.sameAll_iff ds es).mp h)
        (forall₂_of_tree_tuple hw hwt hv').flip)
    refine .union hu hw ((forall₂_with hitems hxs hys).imp ?_)
    rintro x y ⟨hx, hy, c, hc, d, hsame, hd⟩
    exact hB x y c d hx hy (descriptorTree?_eq_some.mpr hc) (descriptorTree?_eq_some.mpr hd)
      hsame
  | file s hs =>
    cases hw with | file t ht => ?_
    cases hholds with | file s' => ?_
    cases hholds' with | file t' => ?_
    obtain rfl : s' = t' := beq_iff_eq.mp h
    simp only [tree, hs] at hv
    simp only [tree, ht] at hv'
    exact .file s' (hv ▸ hs) (hv' ▸ ht)

/-- Descriptors that are trees match if the trees are equal, and whatever they hold that has equal
trees does. -/
theorem Formed.matched_of_trees (hx : store.Formed member x) (hy : store.Formed member y)
    {a b : Descriptor} (ha : store.descriptorTree? x = some a)
    (hb : store.descriptorTree? y = some b) (h : a.same b = true)
    (hB : ∀ u w c d, member u → member w → store.descriptorTree? u = some c →
      store.descriptorTree? w = some d → c.same d = true → B u w) : store.Matched B x y := by
  have hkinds : store.kind? x = store.kind? y := by
    rw [hx.kind?_eq ha, hy.kind?_eq hb, Descriptor.kind_eq_of_same h]
  rcases hx.cell with ⟨d, hcell, hfield, hbuilt⟩ | ⟨kind, u, hcell, hu⟩
  · obtain rfl := eq_of_plain hcell ha
    rcases hy.cell with ⟨e, hcell', -⟩ | ⟨kind, w, hcell', -⟩
    · obtain rfl := eq_of_plain hcell' hb
      exact .one (by rw [hcell, hcell', Descriptor.eq_of_same_leaf hbuilt hfield h])
    · rw [hx.kind?_eq ha, kind?_of_descriptor hcell'] at hkinds
      have hsome := hy.field? hcell'
      rw [← Option.some.inj hkinds, hfield] at hsome
      contradiction
  · rcases hy.cell with ⟨e, hcell', hfield, -⟩ | ⟨kind', w, hcell', hw⟩
    · obtain rfl := eq_of_plain hcell' hb
      rw [hy.kind?_eq hb, kind?_of_descriptor hcell] at hkinds
      have hsome := hx.field? hcell
      rw [Option.some.inj hkinds, hfield] at hsome
      contradiction
    · rw [kind?_of_descriptor hcell, kind?_of_descriptor hcell'] at hkinds
      obtain rfl := Option.some.inj hkinds
      obtain ⟨hut, v, hv, hholds⟩ := holds_of_tree hcell (hx.field? hcell) ha
      obtain ⟨hwt, v', hv', hholds'⟩ := holds_of_tree hcell' (hy.field? hcell') hb
      exact .field hcell hcell' (hu.alike_of_trees hw hut hwt hv hv' hholds hholds' h hB)

/-- What is found to be equal is like each other, whichever way it was compared. -/
theorem alike_of_equal? (hx : store.IsSchema (.object x)) (hy : store.IsSchema (.object y))
    (h : Workspace.equal? store x y = .ok true) : store.Alike x y := by
  refine ⟨fun u w => store.IsSchema (.object u) ∧ store.IsSchema (.object w) ∧
    (store.Compared u w ∨ ∃ c d, store.descriptorTree? u = some c ∧
      store.descriptorTree? w = some d ∧ c.same d = true), ⟨hx, hy, ?_⟩, ?_⟩
  · unfold Workspace.equal? at h
    split at h
    · next d e hd he =>
      exact .inr ⟨d, e, descriptorTree?_of_schema? hd, descriptorTree?_of_schema? he,
        Except.ok.inj h⟩
    · exact .inl (.inr ⟨_, _, h⟩)
  · rintro u w ⟨hu, hw, hcompared | ⟨c, d, hc, hd, hsame⟩⟩
    · exact hu.formed.matched_of_compared hw.formed hcompared
        fun _ _ hu hw h => ⟨hu, hw, .inl h⟩
    · exact hu.formed.matched_of_trees hw.formed hc hd hsame
        fun _ _ c d hu hw hc hd h => ⟨hu, hw, .inr ⟨c, d, hc, hd, h⟩⟩

/-! ### What the engine does with them -/

/-- Subjects that are like each other as the objects in them are. -/
inductive Subject.Alike (B : Ref → Ref → Prop) : Subject → Subject → Prop where
  | one (s : Subject) : Alike B s s
  | object {x y : Ref} (h : B x y) : Alike B (.object x) (.object y)
  | orAbsent {x y : Ref} (h : B x y) : Alike B (.orAbsent x) (.orAbsent y)

theorem Matched.kind? (h : store.Matched B x y) : store.kind? x = store.kind? y := by
  cases h with
  | one h => simp only [Store.kind?, face, h]
  | field hx hy => rw [kind?_of_descriptor hx, kind?_of_descriptor hy]

theorem plan_self (plan : Plan Subject Ref) (v : Ref) :
    Plan.Rel Eq Eq (fun s v t w => Subject.Alike B s t ∧ v = w) v v plan plan :=
  Plan.rel_refl (fun _ => rfl) (fun _ => rfl) (fun s _ => ⟨.one s, rfl⟩) v plan

section Engine

variable (hB : ∀ u w, B u w → store.Matched B u w) {s t : Subject}
include hB

theorem subjectKind_alike (h : s.Alike B t) : store.subjectKind s = store.subjectKind t := by
  cases h with
  | one | orAbsent => rfl
  | object h => simp only [subjectKind, kindOf?, (hB _ _ h).kind?]

theorem derived?_alike (h : s.Alike B t) :
    Option.Rel (Subject.Alike B) (store.engine.derived? s) (store.engine.derived? t) := by
  have hself (shape : Option Subject) : Option.Rel (Subject.Alike B) shape shape := by
    cases shape with
    | none => exact .none
    | some shape => exact .some (.one shape)
  cases h with
  | one => exact hself _
  | orAbsent => exact .none
  | @object x y h =>
    cases hB x y h with
    | one hcell =>
      simp only [engine, derived?, hcell]
      exact hself _
    | field hx hy hfield =>
      cases hfield with
      | optional hpart =>
        simp only [engine, derived?, hx, hy, (hB _ _ hpart).kind?]
        split
        · exact .some (.orAbsent hpart)
        · exact .none
      | file tag hu hw =>
        simp only [engine, derived?, hx, hy, fileShape?_of_tag hu, fileShape?_of_tag hw]
        exact hself _
      | _ =>
        rw [engine_derived? (derived?_of_descriptor hx (by decide)),
          engine_derived? (derived?_of_descriptor hy (by decide))]
        exact .none

/-- What descriptors with alike fields plan for a value. Only of literals it may differ, and there
only in the words of the answer. -/
theorem plan_alike_of_field {kind : Kind} {x y u w : Ref}
    (hx : store.cell x = .descriptor kind u) (hy : store.cell y = .descriptor kind w)
    (hfield : store.FieldAlike B kind u w) (v : Ref) :
    Plan.Rel Eq Eq (fun s v t w => s.Alike B t ∧ v = w) v v (store.plan (.object x) v)
        (store.plan (.object y) v) ∨
      store.subjectKind (.object x) = .literal ∧ ∃ holds below reason reason',
        store.plan (.object x) v = .answer holds below reason ∧
          store.plan (.object y) v = .answer holds below reason' := by
  cases hfield with
  | literal hu hw hpq =>
    refine .inr ⟨subjectKind_eq (kindOf?_of_descriptor hx), ?_⟩
    simp only [plan, form, hx, hy, formOf, tree, hu, hw, isAlteredLiteral?_toValue,
      isLiteral_of_same hpq]
    exact ⟨_, _, _, _, rfl, rfl⟩
  | list hpart =>
    refine .inl ?_
    simp only [plan, form, hx, hy, formOf]
    cases store.elements? v with
    | none => exact .answer _ _ rfl
    | some items =>
      refine .every ?_
      rw [List.mapIdx_eq_zipIdx_map, List.mapIdx_eq_zipIdx_map, List.forall₂_map_left_iff,
        List.forall₂_map_right_iff, List.forall₂_same]
      exact fun item _ => .part _ ⟨.object hpart, rfl⟩
  | record hpart =>
    refine .inl ?_
    simp only [plan, form, hx, hy, formOf]
    cases store.entries? v with
    | none => exact .answer _ _ rfl
    | some entries =>
      refine .every ?_
      rw [List.forall₂_map_left_iff, List.forall₂_map_right_iff, List.forall₂_same]
      rintro ⟨key, w⟩ _
      dsimp only
      cases store.name? key with
      | none => exact .blemish rfl
      | some name => exact .part _ ⟨.object hpart, rfl⟩
  | optional | file =>
    refine .inl ?_
    simp only [plan, form, hx, hy, formOf]
    exact plan_self _ v
  | type hpart =>
    have hkind := subjectKind_alike hB (.object hpart)
    refine .inl ?_
    simp only [plan, form, hx, hy, formOf, hkind]
    cases store.kind? v <;> exact .answer _ _ rfl
  | union hu hw hall =>
    have hkinds : ∀ a b, B a b →
        store.subjectKind (.object a) = store.subjectKind (.object b) := fun a b hab =>
      subjectKind_alike hB (.object hab)
    refine .inl ?_
    simp only [plan, form, hx, hy, formOf, parts?, hu, hw, List.map_map]
    refine .oneOf ?_ (congrArg Reason.noAlternative (map_eq_of_forall₂ hall hkinds))
    rw [List.forall₂_map_left_iff, List.forall₂_map_right_iff]
    exact hall.imp fun a b hab => ⟨.object hab, rfl⟩
  | object hu hw hall =>
    refine .inl ?_
    simp only [plan, form, hx, hy, formOf, parts?, hu, hw, List.map_map]
    cases store.entries? v with
    | none => exact .answer _ _ rfl
    | some entries =>
      refine .every ?_
      rw [List.forall₂_map_left_iff, List.forall₂_map_right_iff]
      refine hall.imp ?_
      rintro a b ⟨key, key', name, d, e, ha, hb, hname, hname', hde⟩
      simp only [Function.comp_apply, fieldOf?_of_pair ha hname, fieldOf?_of_pair hb hname']
      exact .part _ ⟨.object hde, rfl⟩

theorem plan_alike (h : s.Alike B t) (v : Ref) :
    Plan.Rel Eq Eq (fun s v t w => s.Alike B t ∧ v = w) v v (store.plan s v) (store.plan t v) ∨
      store.subjectKind s = .literal ∧ ∃ holds below reason reason',
        store.plan s v = .answer holds below reason ∧
          store.plan t v = .answer holds below reason' := by
  cases h with
  | one => exact .inl (plan_self _ v)
  | @orAbsent x y h =>
    have hkind := subjectKind_alike hB (.object h)
    refine .inl ?_
    simp only [plan, form, List.map_cons, List.map_nil, hkind]
    exact .oneOf (.cons ⟨.object h, rfl⟩ (.cons ⟨.one _, rfl⟩ .nil)) rfl
  | @object x y h =>
    cases hB x y h with
    | one hcell =>
      refine .inl ?_
      simp only [plan, form, hcell]
      exact plan_self _ v
    | field hx hy hfield => exact plan_alike_of_field hB hx hy hfield v

theorem engine_interchanges : store.engine.Interchanges (Subject.Alike B) where
  kind := fun h => subjectKind_alike hB h
  derived? := fun h => derived?_alike hB h
  plan := fun h v => plan_alike hB h v

end Engine

theorem Alike.kindOf? (h : store.Alike x y) :
    store.kindOf? (.object x) = store.kindOf? (.object y) := by
  obtain ⟨B, hxy, hB⟩ := h
  simp only [Store.kindOf?, (hB x y hxy).kind?]

/-- Walks from schemas that are like each other come out the same, with issues that are akin. -/
theorem runCheck_alike (hx : store.IsSchema (.object x)) (hy : store.IsSchema (.object y))
    (h : store.Alike x y) (settings : Settings) (mode : Recording) (v : Ref) :
    Recorded Eq Issue.Akin #[] #[] (store.runCheck settings mode (.object x) v)
      (store.runCheck settings mode (.object y) v) := by
  obtain ⟨B, hxy, hB⟩ := h
  rw [runCheck_eq_check hx, runCheck_eq_check hy]
  exact Engine.check_akin (engine_interchanges hB) _ _ mode (.object hxy) v [] #[] #[]

theorem validate_alike (hproper : store.Proper) (hx : store.IsSchema (.object x))
    (hy : store.IsSchema (.object y)) (h : store.Alike x y) (settings : Settings) (v : Ref) :
    store.validate settings x v = store.validate settings y v := by
  rw [validate_eq_walk hproper, validate_eq_walk hproper]
  exact (runCheck_alike hx hy h settings .silent v).answer_eq

theorem explain_alike (hproper : store.Proper) (hx : store.IsSchema (.object x))
    (hy : store.IsSchema (.object y)) (h : store.Alike x y) (settings : Settings) (v : Ref) :
    SameReport (store.explain settings x v) (store.explain settings y v) := by
  have hwalk := runCheck_alike hx hy h settings
    (if settings.collectAll.truthy then .all else .first) v
  have hleft := explain_reported hproper hx settings v
  have hright := explain_reported hproper hy settings v
  generalize store.runCheck settings _ (.object x) v = walk,
    store.runCheck settings _ (.object y) v = walk', store.explain settings x v = told,
    store.explain settings y v = told' at hwalk hleft hright ⊢
  cases hwalk with
  | error he =>
    obtain rfl := he
    cases hleft
    cases hright
    exact .error _
  | answer ok hnew hnew' hakin =>
    cases hleft with | report hkind _ hissues => ?_
    cases hright with | report hkind' _ hissues' => ?_
    obtain rfl := Except.ok.inj (hkind.symm.trans (h.kindOf?.trans hkind'))
    rw [hnew] at hissues
    rw [hnew'] at hissues'
    refine .report _ ok ((forall₂_trans hissues.flip (forall₂_trans hakin hissues')).imp ?_)
    rintro i j ⟨i', hi, j', hij, hj⟩
    refine ⟨?_, ?_, fun hliteral => ?_⟩
    · exact hi.path.symm.trans (hij.path.trans hj.path)
    · exact hi.kind.symm.trans (hij.kind.trans hj.kind)
    · exact hi.reason.symm.trans ((hij.message (hi.kind ▸ hliteral)).trans hj.reason)

/-! ### Hash codes -/

theorem hashableWithin_congr (h : store.cell x = store.cell y) (depth calls : Nat) :
    store.hashableWithin depth calls x = store.hashableWithin depth calls y := by
  cases depth with
  | zero => rfl
  | succ depth => simp only [hashableWithin, h]

theorem hashableWithin_tuple {xs ys : List Ref} (hx : store.cell x = .tuple xs)
    (hy : store.cell y = .tuple ys) {depth calls : Nat}
    (h : ∀ fewer < depth, List.Forall₂ (fun a b =>
      store.hashableWithin fewer calls a = store.hashableWithin fewer calls b) xs ys) :
    store.hashableWithin depth calls x = store.hashableWithin depth calls y := by
  cases depth with
  | zero => rfl
  | succ depth =>
    simp only [hashableWithin, hx, hy]
    have hall := h depth (Nat.lt_succ_self depth)
    clear h hx hy
    induction hall with
    | nil => rfl
    | cons hab _ ih => simp only [List.forM, hab, ih]

/-- What is like each other can be a key of a mapping alike. -/
theorem hashableWithin_alike (hB : ∀ u w, B u w → store.Matched B u w) (h : B x y)
    (depth calls : Nat) :
    store.hashableWithin depth calls x = store.hashableWithin depth calls y := by
  -- Tuples and pairs stand between two descriptors, so the induction goes by all smaller depths.
  induction depth using Nat.strong_induction_on generalizing calls x y with
  | _ depth ih =>
    cases hB x y h with
    | one hcell => exact hashableWithin_congr hcell depth calls
    | @field kind u w hx hy hfield =>
      cases depth with
      | zero => rfl
      | succ depth =>
        simp only [hashableWithin, hx, hy]
        cases calls with
        | zero => rfl
        | succ calls =>
          dsimp only
          cases hfield with
          | list hpart | record hpart | optional hpart | type hpart =>
            exact ih depth (Nat.lt_succ_self depth) hpart calls
          | @literal _ _ p q hu hw =>
            cases depth with
            | zero => rfl
            | succ depth =>
              simp only [hashableWithin, hu, hw]
              cases p <;> cases q <;> rfl
          | file tag hu hw => exact hashableWithin_congr (hu.trans hw.symm) depth calls
          | union hu hw hall =>
            refine hashableWithin_tuple hu hw fun fewer hfewer => hall.imp fun a b hab => ?_
            exact ih fewer (by omega) hab calls
          | object hu hw hall =>
            refine hashableWithin_tuple hu hw fun fewer hfewer => hall.imp fun a b hab => ?_
            obtain ⟨key, key', name, d, e, ha, hb, hname, hname', hde⟩ := hab
            refine hashableWithin_tuple ha hb fun least hleast => .cons ?_ (.cons ?_ .nil)
            · exact hashableWithin_congr (hname.trans hname'.symm) least calls
            · exact ih least (by omega) hde calls

theorem hashable?_alike (h : store.Alike x y) : store.hashable? x = store.hashable? y := by
  obtain ⟨B, hxy, hB⟩ := h
  exact hashableWithin_alike hB hxy _ _

theorem hashesAgree?_of_equal? (hx : store.IsSchema (.object x)) (hy : store.IsSchema (.object y))
    (h : Workspace.equal? store x y = .ok true) (hhash : store.hashable? x = .ok ()) :
    Workspace.hashesAgree? store x y = .ok true := by
  have hhash' := (hashable?_alike (alike_of_equal? hx hy h)).symm.trans hhash
  simp only [Workspace.hashesAgree?, Workspace.equal?, hhash, hhash', bind, Except.bind] at h ⊢
  cases hd : Workspace.schema? store x with
  | none => rfl
  | some d =>
    cases he : Workspace.schema? store y with
    | none => rfl
    | some e =>
      simp only [hd, he] at h ⊢
      have hcodes := Descriptor.hashCode_eq_of_same d e (Except.ok.inj h)
      simp only [hcodes, beq_self_eq_true, pure, Except.pure]

end Store

end DataSchema
