import DataSchema.Proofs.Store.Height
import DataSchema.Proofs.Store.Proper
import Mathlib.Data.List.Forall2
import Mathlib.Data.Option.Defs

/-!
Objects that stand for trees. A descriptor that is a tree is read as the descriptor that it is the
tree of, field by field. An object shows a value down to a number of levels if nobody who goes no
deeper can tell them apart; an object that is a tree shows its tree, and each object shows some
value however deep one goes.
-/

namespace DataSchema

namespace Store

/-! ### Descriptors -/

/-- A subject that stands for a descriptor. -/
def Reads (store : Store) : Subject → Descriptor → Prop
  | .object r, d => store.descriptorTree? r = some d
  | .shape e, d => e = d
  | .orAbsent inner, d => ∃ c, store.descriptorTree? inner = some c ∧ d = .union [c, .null]
  | .nothing, _ => False

/-- One field of a form that stands for a field. -/
def FieldReads (store : Store) (field : Except Error (Value × Subject))
    (named : String × Descriptor) : Prop :=
  ∃ s, field = .ok (.string named.1, s) ∧ store.Reads s named.2

/-- The form of a subject that stands for a descriptor. -/
inductive FormReads (store : Store) : Form → Descriptor → Prop where
  | leaf {d : Descriptor} (h : d.parts = []) : FormReads store (.settled d) d
  | optional (c d : Descriptor) : FormReads store (.settled (.optional c)) (.optional d)
  | file (s t : Option String) : FormReads store (.settled (.file s)) (.file t)
  | literal (p : Primitive) : FormReads store (.literal p.toValue) (.literal p)
  | list {s : Subject} {d : Descriptor} (h : store.Reads s d) : FormReads store (.list s) (.list d)
  | record {s : Subject} {d : Descriptor} (h : store.Reads s d) :
    FormReads store (.record s) (.record d)
  | object {fields : List (Except Error (Value × Subject))} {named : List (String × Descriptor)}
    (h : List.Forall₂ store.FieldReads fields named) :
    FormReads store (.object (.ok fields)) (.object named)
  | union {subjects : List Subject} {ds : List Descriptor}
    (h : List.Forall₂ store.Reads subjects ds) : FormReads store (.union subjects) (.union ds)
  | type {s : Subject} {d : Descriptor} (h : store.Reads s d) : FormReads store (.type s) (.type d)

variable {store : Store}

theorem reads_object {r : Ref} {d : Descriptor} (h : store.isTree r = true)
    (ht : store.tree r = .descriptor d) : store.Reads (.object r) d :=
  descriptorTree?_eq_some.mpr ⟨h, ht⟩

theorem cell_of_tree_plain {r : Ref} {v : Value} (h : store.isTree r = true)
    (ht : store.tree r = v) (hv : v.holds = false) : store.cell r = .plain v := by
  subst ht
  rw [tree_eq_assemble h] at hv ⊢
  cases hcell : store.cell r with
  | plain v => rfl
  | descriptor kind held =>
    rw [hcell] at hv
    simp only [Cell.assemble, Cell.assembleDescriptor] at hv
    split at hv <;> contradiction
  | list | tuple | set | dict | view => simp [hcell, Cell.assemble, Value.holds] at hv

/-- What has a tuple for its tree is a tuple of trees. -/
theorem Proper.cell_of_tree_tuple (hproper : store.Proper) {r : Ref} {items : List Value}
    (h : store.isTree r = true) (ht : store.tree r = .tuple items) :
    ∃ refs, store.cell r = .tuple refs ∧ refs.map store.tree = items ∧
      ∀ x ∈ refs, store.isTree x = true := by
  rcases Store.cell_of_tree_tuple h ht with htuple | hcell
  · exact htuple
  · have hplain := hproper.plain hcell
    contradiction

theorem hashable?_of_plain {r : Ref} {v : Value} (h : store.cell r = .plain v)
    (hv : v.isHashable = true) : store.hashable? r = .ok () := by
  have hpos : 0 < (Room.whole.calls + 1) * (store.cells.size + 1) :=
    Nat.mul_pos (Nat.succ_pos _) (Nat.succ_pos _)
  obtain ⟨depth, hdepth⟩ := Nat.exists_eq_succ_of_ne_zero hpos.ne'
  rw [hashable?, hdepth, hashableWithin, h]
  simp [hv]

/-- What has the tree of a field is a pair of the name and of what has the tree of the
descriptor. -/
theorem cell_of_tree_field (hproper : store.Proper) {x : Ref} {field : String × Descriptor}
    (h : store.isTree x = true) (ht : store.tree x = Descriptor.heldField field) :
    ∃ key y, store.cell x = .tuple [key, y] ∧ store.cell key = .plain (.string field.1) ∧
      store.descriptorTree? y = some field.2 := by
  obtain ⟨two, hcell, htwo, htrees⟩ := hproper.cell_of_tree_tuple h ht
  have hlen : two.length = 2 := by simpa using congrArg List.length htwo
  obtain ⟨key, y, rfl⟩ := List.length_eq_two.mp hlen
  obtain ⟨hkey, hy⟩ : store.tree key = .string field.1 ∧ store.tree y = .descriptor field.2 := by
    simpa using htwo
  exact ⟨key, y, hcell, cell_of_tree_plain (htrees key (by simp)) hkey rfl,
    descriptorTree?_eq_some.mpr ⟨htrees y (by simp), hy⟩⟩

/-- A pair of a name and an object is read as a field. -/
theorem fieldOf?_of_pair {x key d : Ref} {name : String} (hpair : store.cell x = .tuple [key, d])
    (hname : store.cell key = .plain (.string name)) :
    store.fieldOf? (.held x) = .ok (.string name, .object d) := by
  have hhash := hashable?_of_plain hname rfl
  have htree : store.tree key = .string name := by simp only [tree, hname]
  simp [fieldOf?, pair?, partsOf?, parts?, hpair, hhash, valueOf, htree, Subject.ofPart, bind,
    Except.bind, pure, Except.pure]

theorem fieldReads_of_tree (hproper : store.Proper) {x : Ref} {field : String × Descriptor}
    (h : store.isTree x = true) (ht : store.tree x = Descriptor.heldField field) :
    store.FieldReads (store.fieldOf? (.held x)) field := by
  obtain ⟨key, y, hcell, hname, hy⟩ := cell_of_tree_field hproper h ht
  exact ⟨.object y, fieldOf?_of_pair hcell hname, hy⟩

/-- A tuple that has known values for its tree holds objects that have these for their trees. -/
theorem forall₂_of_tree_tuple {α : Type} {held : Ref} {items : List Ref} {as : List α}
    {f : α → Value} (hcell : store.cell held = .tuple items) (h : store.isTree held = true)
    (ht : store.tree held = .tuple (as.map f)) :
    List.Forall₂ (fun x a => store.isTree x = true ∧ store.tree x = f a) items as := by
  rw [tree_eq_assemble h, hcell] at ht
  have hmap : items.map store.tree = as.map f := Value.tuple.inj ht
  have heq : List.Forall₂ (· = ·) (items.map store.tree) (as.map f) :=
    hmap ▸ List.forall₂_refl (items.map store.tree)
  rw [List.forall₂_map_left_iff, List.forall₂_map_right_iff] at heq
  exact (List.forall₂_and_left _ _).mpr ⟨fun x hx => isTree_of_mem_refs h (by rwa [hcell]), heq⟩

/-- What has a tuple of known values for its tree yields objects that have these for their trees. -/
theorem parts?_of_tree_tuple {α : Type} (hproper : store.Proper) {held : Ref} {as : List α}
    {f : α → Value} (h : store.isTree held = true) (ht : store.tree held = .tuple (as.map f)) :
    ∃ refs : List Ref, store.parts? held = some (refs.map .held) ∧
      List.Forall₂ (fun x a => store.isTree x = true ∧ store.tree x = f a) refs as := by
  obtain ⟨refs, hcell, -⟩ := hproper.cell_of_tree_tuple h ht
  exact ⟨refs, by simp [parts?, hcell], forall₂_of_tree_tuple hcell h ht⟩

/-- A descriptor that is a tree holds nothing, or the object in its field is a tree of what the
descriptor holds. -/
theorem Proper.cell_of_descriptorTree? (hproper : store.Proper) {r : Ref} {d : Descriptor}
    (h : store.descriptorTree? r = some d) :
    (store.cell r = .plain (.descriptor d) ∧ d.parts = []) ∨
      ∃ held, store.cell r = .descriptor d.kind held ∧ store.isTree held = true ∧
        d.held? = some (store.tree held) := by
  rcases Store.cell_of_descriptorTree? h with hcell | ⟨kind, held, hcell, htree, hheld⟩
  · exact .inl ⟨hcell, hproper.plain hcell⟩
  · obtain ⟨rfl, heq⟩ := Descriptor.held?_of_ofHeld? hheld (hproper.field hcell)
    exact .inr ⟨held, hcell, htree, heq⟩

theorem kindOf?_reads (hproper : store.Proper) {s : Subject} {d : Descriptor}
    (h : store.Reads s d) : store.kindOf? s = .ok d.kind := by
  cases s with
  | object r =>
    rcases hproper.cell_of_descriptorTree? h with ⟨hcell, -⟩ | ⟨held, hcell, -⟩
    · simp [kindOf?, kind?, face, hcell, Cell.face, Value.descriptorKind?]
    · simp [kindOf?, kind?, face, hcell, Cell.face, Value.descriptorKind?]
  | shape e =>
    obtain rfl : e = d := h
    rfl
  | orAbsent inner =>
    obtain ⟨c, -, rfl⟩ := h
    rfl
  | nothing => exact h.elim

theorem form_reads (hproper : store.Proper) {s : Subject} {d : Descriptor}
    (h : store.Reads s d) : store.FormReads (store.form s) d := by
  cases s with
  | object r =>
    rcases hproper.cell_of_descriptorTree? h with ⟨hcell, hleaf⟩ | ⟨held, hcell, htree, heq⟩
    · simp only [form, hcell]
      exact .leaf hleaf
    · simp only [form, hcell]
      cases d with
      | literal p =>
        have hvalue : p.toValue = store.tree held := Option.some.inj heq
        simp only [Descriptor.kind, formOf, ← hvalue]
        exact .literal p
      | list c => exact .list (reads_object htree (Option.some.inj heq).symm)
      | record c => exact .record (reads_object htree (Option.some.inj heq).symm)
      | type c => exact .type (reads_object htree (Option.some.inj heq).symm)
      | optional c => exact .optional _ c
      | file tag => exact .file none tag
      | object fields =>
        obtain ⟨refs, hparts, hrefs⟩ :=
          parts?_of_tree_tuple hproper htree (Option.some.inj heq).symm
        simp only [Descriptor.kind, formOf, hparts]
        refine .object ?_
        rw [List.map_map, List.forall₂_map_left_iff]
        exact hrefs.imp fun x field hx => fieldReads_of_tree hproper hx.1 hx.2
      | union ds =>
        obtain ⟨refs, hparts, hrefs⟩ :=
          parts?_of_tree_tuple hproper htree (Option.some.inj heq).symm
        simp only [Descriptor.kind, formOf, hparts]
        refine .union ?_
        rw [List.map_map, List.forall₂_map_left_iff]
        exact hrefs.imp fun x d hx => reads_object hx.1 hx.2
      | _ => simp [Descriptor.held?] at heq
  | shape e =>
    obtain rfl : e = d := h
    cases e with
    | literal p => exact .literal p
    | list c => exact .list rfl
    | record c => exact .record rfl
    | type c => exact .type rfl
    | optional c => exact .optional c c
    | file tag => exact .file tag tag
    | object fields =>
      refine .object ?_
      rw [List.forall₂_map_left_iff, List.forall₂_same]
      exact fun field _ => ⟨.shape field.2, rfl, rfl⟩
    | union ds =>
      refine .union ?_
      rw [List.forall₂_map_left_iff, List.forall₂_same]
      exact fun d _ => rfl
    | _ => exact .leaf rfl
  | orAbsent inner =>
    obtain ⟨c, hc, rfl⟩ := h
    exact .union (.cons hc (.cons rfl .nil))
  | nothing => exact h.elim

theorem fileShape?_of_tree {tag : Ref} {v : Value} {shape : Descriptor}
    (h : store.isTree tag = true) (ht : store.tree tag = v) (hv : v.holds = false)
    (hhash : v.isHashable = true) (hshape : Descriptor.fileShapeOf? v = .ok shape) :
    store.fileShape? tag = .ok shape := by
  have hcell := cell_of_tree_plain h ht hv
  unfold fileShape?
  simp only [hcell, hashable?_of_plain hcell hhash, ht]
  exact hshape

theorem derived?_reads (hproper : store.Proper) {s : Subject} {d : Descriptor}
    (h : store.Reads s d) :
    ∃ shape, store.derived? s = .ok shape ∧ Option.Rel store.Reads shape d.derived? := by
  have hshapes : ∀ e : Descriptor, Option.Rel store.Reads (e.derived?.map .shape) e.derived? := by
    intro e
    cases e.derived? with
    | none => exact .none
    | some shape => exact .some rfl
  cases s with
  | object r =>
    rcases hproper.cell_of_descriptorTree? h with ⟨hcell, -⟩ | ⟨held, hcell, htree, heq⟩
    · simp only [derived?, hcell]
      exact ⟨_, rfl, hshapes d⟩
    · simp only [derived?, hcell]
      cases d with
      | optional c =>
        have hc : store.Reads (.object held) c := reads_object htree (Option.some.inj heq).symm
        have hkind : (store.kind? held).isSome = true := by
          have hof := kindOf?_reads hproper hc
          cases hk : store.kind? held with
          | none => simp [kindOf?, hk] at hof
          | some kind => rfl
        simp only [Descriptor.kind, hkind]
        exact ⟨_, rfl, .some ⟨c, hc, rfl⟩⟩
      | file tag =>
        have ht := (Option.some.inj heq).symm
        cases tag with
        | none =>
          have hshape := fileShape?_of_tree htree ht rfl rfl rfl
          simp only [Descriptor.kind, hshape]
          exact ⟨_, rfl, .some rfl⟩
        | some s =>
          have hshape := fileShape?_of_tree htree ht rfl rfl rfl
          simp only [Descriptor.kind, hshape]
          exact ⟨_, rfl, .some rfl⟩
      | literal | list | record | object | union | type => exact ⟨_, rfl, .none⟩
      | _ => simp [Descriptor.held?] at heq
  | shape e =>
    obtain rfl : e = d := h
    exact ⟨_, rfl, hshapes e⟩
  | orAbsent inner =>
    obtain ⟨c, -, rfl⟩ := h
    exact ⟨_, rfl, .none⟩
  | nothing => exact h.elim

end Store

/-! ### Values -/

/-- Two values that are the same, or that nobody tells apart without looking into them. -/
inductive SameFace : Value → Value → Prop where
  | same (v : Value) : SameFace v v
  | holding {v w : Value} (hv : v.holds = true) (hw : w.holds = true)
    (hkind : v.descriptorKind? = w.descriptorKind?) : SameFace v w

namespace SameFace

variable {v w : Value}

/-- What is the same of all values that may hold others does not tell the two apart. -/
theorem apply_eq {α : Type} {f : Value → α} (h : SameFace v w) (a : α)
    (hf : ∀ u : Value, u.holds = true → f u = a) : f v = f w := by
  cases h with
  | same => rfl
  | holding hv hw => rw [hf v hv, hf w hw]

theorem descriptorKind? (h : SameFace v w) : v.descriptorKind? = w.descriptorKind? := by
  cases h with
  | same => rfl
  | holding _ _ hkind => exact hkind

theorem isAbsent (h : SameFace v w) : v.isAbsent = w.isAbsent :=
  h.apply_eq false fun u hu => by cases u <;> first | rfl | contradiction

theorem isBool (h : SameFace v w) : v.isBool = w.isBool :=
  h.apply_eq false fun u hu => by cases u <;> first | rfl | contradiction

theorem isText (h : SameFace v w) : v.isText = w.isText :=
  h.apply_eq false fun u hu => by cases u <;> first | rfl | contradiction

theorem isNumber (h : SameFace v w) : DataSchema.isNumber v = DataSchema.isNumber w :=
  h.apply_eq (.ok false) fun u hu => by cases u <;> first | rfl | contradiction

theorem number? (h : SameFace v w) : v.number? = w.number? :=
  h.apply_eq none fun u hu => by cases u <;> first | rfl | contradiction

theorem isLiteral (h : SameFace v w) (p : Primitive) :
    DataSchema.isLiteral p v = DataSchema.isLiteral p w :=
  h.apply_eq false fun u hu => by cases p <;> cases u <;> first | rfl | contradiction

theorem eq_string_iff (h : SameFace v w) (s : String) : v = .string s ↔ w = .string s := by
  cases h with
  | same => rfl
  | holding hv hw =>
    constructor
    · rintro rfl
      contradiction
    · rintro rfl
      contradiction

end SameFace

namespace Store

/-- A value that nobody tells from an object who looks no more than so many levels into it. Of the
keys of a mapping only names are looked at. -/
def Shows (store : Store) : Nat → Ref → Value → Prop
  | 0, _, _ => True
  | n + 1, r, w => SameFace (store.face r) w ∧
    Option.Rel (List.Forall₂ (Shows store n)) (store.elements? r) w.elements? ∧
    Option.Rel (List.Forall₂ fun entry shown =>
      SameFace (store.face entry.1) shown.1 ∧ Shows store n entry.2 shown.2)
      (store.entries? r) w.entries?

variable {store : Store}

theorem rel_imp {α β : Type} {R S : α → β → Prop} {x : Option α} {y : Option β}
    (h : Option.Rel R x y) (himp : ∀ a b, R a b → S a b) : Option.Rel S x y := by
  cases h with
  | none => exact .none
  | some hab => exact .some (himp _ _ hab)

theorem shows_of_succ {n : Nat} {r : Ref} {w : Value} (h : store.Shows (n + 1) r w) :
    store.Shows n r w := by
  induction n generalizing r w with
  | zero => trivial
  | succ n ih =>
    obtain ⟨hface, helements, hentries⟩ := h
    refine ⟨hface, rel_imp helements fun _ _ hall => ?_, rel_imp hentries fun _ _ hall => ?_⟩
    · exact hall.imp fun x y hxy => ih hxy
    · exact hall.imp fun x y hxy => ⟨hxy.1, ih hxy.2⟩

theorem sameFace_tree (hproper : store.Proper) {r : Ref} (h : store.isTree r = true) :
    SameFace (store.face r) (store.tree r) := by
  rw [tree_eq_assemble h, face]
  cases hcell : store.cell r with
  | plain v => exact .same v
  | list | tuple | set | dict | view => exact .holding rfl rfl rfl
  | descriptor kind held =>
    simp only [Cell.face, Cell.assemble, Cell.assembleDescriptor]
    cases hd : Descriptor.ofHeld? kind (store.tree held) with
    | none => exact .holding rfl rfl rfl
    | some d =>
      have hkind := (Descriptor.held?_of_ofHeld? hd (hproper.field hcell)).1
      exact .holding rfl rfl (congrArg some hkind.symm)

/-- An object that is a tree shows its tree. -/
theorem shows_tree (hproper : store.Proper) (n : Nat) {r : Ref} (h : store.isTree r = true) :
    store.Shows n r (store.tree r) := by
  induction n generalizing r with
  | zero => trivial
  | succ n ih =>
    have hrefs : ∀ x ∈ (store.cell r).refs, store.isTree x = true :=
      fun x hx => isTree_of_mem_refs h hx
    refine ⟨sameFace_tree hproper h, ?_⟩
    rw [tree_eq_assemble h]
    cases hcell : store.cell r with
    | plain v =>
      have hplain := hproper.plain hcell
      simp only [elements?, entries?, hcell, Cell.assemble, hplain.elements?, hplain.entries?]
      exact ⟨.none, .none⟩
    | list items | tuple items =>
      rw [hcell] at hrefs
      simp only [elements?, entries?, hcell, Cell.assemble, Value.elements?, Value.entries?]
      refine ⟨.some ?_, .none⟩
      rw [List.forall₂_map_right_iff, List.forall₂_same]
      exact fun x hx => ih (hrefs x hx)
    | set members =>
      simp only [elements?, entries?, hcell, Cell.assemble, Value.elements?, Value.entries?]
      exact ⟨.none, .none⟩
    | dict entries | view entries =>
      rw [hcell] at hrefs
      simp only [elements?, entries?, hcell, Cell.assemble, Value.elements?, Value.entries?]
      refine ⟨.none, .some ?_⟩
      rw [List.forall₂_map_right_iff, List.forall₂_same]
      intro entry hentry
      have hboth : ∀ x ∈ [entry.1, entry.2], store.isTree x = true :=
        fun x hx => hrefs x (List.mem_flatMap.mpr ⟨entry, hentry, hx⟩)
      exact ⟨sameFace_tree hproper (hboth _ (by simp)), ih (hboth _ (by simp))⟩
    | descriptor kind held =>
      simp only [elements?, entries?, hcell, Cell.assemble, Cell.assembleDescriptor]
      cases Descriptor.ofHeld? kind (store.tree held) <;> exact ⟨.none, .none⟩

/-- The value of an object down to so many levels. -/
def unroll (store : Store) : Nat → Ref → Value
  | 0, r => store.face r
  | n + 1, r => match store.cell r with
    | .list items => .list (items.map (unroll store n))
    | .tuple items => .tuple (items.map (unroll store n))
    | .dict entries => .dict (entries.map fun (key, v) => (store.face key, unroll store n v))
    | .view entries => .view (entries.map fun (key, v) => (store.face key, unroll store n v))
    | _ => store.face r

/-- However deep one goes, an object shows some value. -/
theorem shows_unroll (hproper : store.Proper) (n : Nat) (r : Ref) :
    store.Shows n r (store.unroll n r) := by
  induction n generalizing r with
  | zero => trivial
  | succ n ih =>
    unfold unroll
    cases hcell : store.cell r with
    | plain v =>
      have hplain := hproper.plain hcell
      refine ⟨.same _, ?_⟩
      simp only [elements?, entries?, hcell, face, Cell.face, hplain.elements?, hplain.entries?]
      exact ⟨.none, .none⟩
    | list items | tuple items =>
      simp only [Shows, elements?, entries?, hcell, face, Cell.face, Value.elements?,
        Value.entries?]
      refine ⟨.holding rfl rfl rfl, .some ?_, .none⟩
      rw [List.forall₂_map_right_iff, List.forall₂_same]
      exact fun x _ => ih x
    | dict entries | view entries =>
      simp only [Shows, elements?, entries?, hcell, face, Cell.face, Value.elements?,
        Value.entries?]
      refine ⟨.holding rfl rfl rfl, .none, .some ?_⟩
      rw [List.forall₂_map_right_iff, List.forall₂_same]
      exact fun entry _ => ⟨.same _, ih entry.2⟩
    | set | descriptor =>
      refine ⟨.same _, ?_⟩
      simp only [elements?, entries?, hcell, face, Cell.face, Value.elements?, Value.entries?]
      exact ⟨.none, .none⟩

end Store

end DataSchema
