import DataSchema.Proofs.Build
import DataSchema.Proofs.Height
import DataSchema.Proofs.Store.Lockstep
import DataSchema.Proofs.Store.Tree

/-!
A descriptor that is a tree takes the engine no deeper into an object than it is high, even if the
object holds itself. What a check of a descriptor hands on to the next level is the tree of a part
of it, or derived from one.
-/

namespace DataSchema

namespace Store

variable {store : Store}

theorem descriptorTree?_eq_some {r : Ref} {d : Descriptor} :
    store.descriptorTree? r = some d ↔ store.isTree r = true ∧ store.tree r = .descriptor d := by
  unfold descriptorTree?
  by_cases h : store.isTree r = true
  · rw [if_pos h]
    split <;> simp_all
  · simp [h]

/-- What has a tuple for its tree is a tuple of trees, or holds no objects. -/
theorem cell_of_tree_tuple {r : Ref} {items : List Value} (h : store.isTree r = true)
    (ht : store.tree r = .tuple items) :
    (∃ refs, store.cell r = .tuple refs ∧ refs.map store.tree = items ∧
      ∀ x ∈ refs, store.isTree x = true) ∨ store.cell r = .plain (.tuple items) := by
  have hrefs : ∀ x ∈ (store.cell r).refs, store.isTree x = true :=
    fun x hx => isTree_of_mem_refs h hx
  rw [tree_eq_assemble h] at ht
  cases hcell : store.cell r with
  | tuple refs =>
    rw [hcell] at ht hrefs
    exact .inl ⟨refs, rfl, Value.tuple.inj ht, hrefs⟩
  | plain v =>
    rw [hcell] at ht
    obtain rfl : v = .tuple items := ht
    exact .inr rfl
  | descriptor kind held =>
    rw [hcell] at ht
    simp only [Cell.assemble, Cell.assembleDescriptor] at ht
    split at ht <;> contradiction
  | list | set | dict | view => simp [hcell, Cell.assemble] at ht

/-- A descriptor that is a tree holds no others, or is what a builder makes of the tree that it
holds. -/
theorem cell_of_descriptorTree? {r : Ref} {d : Descriptor} (h : store.descriptorTree? r = some d) :
    store.cell r = .plain (.descriptor d) ∨ ∃ kind held, store.cell r = .descriptor kind held ∧
      store.isTree held = true ∧ Descriptor.ofHeld? kind (store.tree held) = some d := by
  obtain ⟨htree, heq⟩ := descriptorTree?_eq_some.mp h
  have hrefs : ∀ x ∈ (store.cell r).refs, store.isTree x = true :=
    fun x hx => isTree_of_mem_refs htree hx
  rw [tree_eq_assemble htree] at heq
  cases hcell : store.cell r with
  | plain v =>
    rw [hcell] at heq
    obtain rfl : v = .descriptor d := heq
    exact .inl rfl
  | descriptor kind held =>
    rw [hcell] at heq hrefs
    refine .inr ⟨kind, held, rfl, hrefs held (by simp [Cell.refs]), ?_⟩
    simp only [Cell.assemble, Cell.assembleDescriptor] at heq
    split at heq
    · next e he =>
      rw [he, Value.descriptor.inj heq]
    · contradiction
  | list | tuple | set | dict | view => simp [hcell, Cell.assemble] at heq

/-- A subject that a check needs no more than so many levels for: the tree of a descriptor is lower,
and the union of an optional is one level higher than what the optional holds. -/
def Within (store : Store) (levels : Nat) : Subject → Prop
  | .object r => ∃ d, store.descriptorTree? r = some d ∧ d.height < levels
  | .shape d => d.height < levels
  | .orAbsent inner => ∃ d, store.descriptorTree? inner = some d ∧ d.height + 1 < levels
  | .nothing => True

theorem within_object {levels : Nat} {r : Ref} {d : Descriptor} (h : store.isTree r = true)
    (ht : store.tree r = .descriptor d) (hlt : d.height < levels) :
    store.Within levels (.object r) :=
  ⟨d, descriptorTree?_eq_some.mpr ⟨h, ht⟩, hlt⟩

/-- A part of a tuple of descriptors is no higher than these, or no object. -/
theorem within_alternative {levels : Nat} {held : Ref} {ds : List Descriptor}
    (h : store.isTree held = true) (ht : store.tree held = .tuple (ds.map .descriptor))
    (hlt : ∀ d ∈ ds, d.height < levels) {parts : List Part}
    (hparts : store.parts? held = some parts) {part : Part} (hpart : part ∈ parts) :
    store.Within levels (.ofPart part) := by
  rcases cell_of_tree_tuple h ht with ⟨refs, hcell, hrefs, htrees⟩ | hcell
  · obtain rfl : refs.map .held = parts := by simpa [parts?, hcell] using hparts
    obtain ⟨x, hx, rfl⟩ := List.mem_map.mp hpart
    have hmem : store.tree x ∈ ds.map .descriptor := hrefs ▸ List.mem_map_of_mem hx
    obtain ⟨d, hd, hxd⟩ := List.mem_map.mp hmem
    exact within_object (htrees x hx) hxd.symm (hlt d hd)
  · obtain rfl : (ds.map .descriptor).map .loose = parts := by
      simpa [parts?, hcell, Value.parts?] using hparts
    obtain ⟨w, -, rfl⟩ := List.mem_map.mp hpart
    trivial

theorem partsOf?_of_fieldOf? {part : Part} {name : Value} {e : Subject}
    (h : store.fieldOf? part = .ok (name, e)) :
    ∃ a b, store.partsOf? part = some [a, b] ∧ e = .ofPart b := by
  unfold fieldOf? pair? at h
  split at h
  · contradiction
  · next a b hparts =>
    refine ⟨a, b, hparts, ?_⟩
    cases a with
    | held r =>
      simp only [bind, Except.bind] at h
      split at h
      · contradiction
      · exact (Prod.mk.inj (Except.ok.inj h)).2.symm
    | loose v => exact (Prod.mk.inj (Except.ok.inj h)).2.symm
  · contradiction

/-- A field that is read from a part of a tuple of fields is no higher than these. -/
theorem within_field {levels : Nat} {held : Ref} {fields : List (String × Descriptor)}
    (h : store.isTree held = true)
    (ht : store.tree held = .tuple (fields.map Descriptor.heldField))
    (hlt : ∀ d ∈ fields.map (·.2), d.height < levels) {parts : List Part}
    (hparts : store.parts? held = some parts) {part : Part} (hpart : part ∈ parts) {name : Value}
    {e : Subject} (he : store.fieldOf? part = .ok (name, e)) : store.Within levels e := by
  obtain ⟨a, b, hpair, rfl⟩ := partsOf?_of_fieldOf? he
  rcases cell_of_tree_tuple h ht with ⟨refs, hcell, hrefs, htrees⟩ | hcell
  · obtain rfl : refs.map .held = parts := by simpa [parts?, hcell] using hparts
    obtain ⟨x, hx, rfl⟩ := List.mem_map.mp hpart
    have hmem : store.tree x ∈ fields.map Descriptor.heldField := hrefs ▸ List.mem_map_of_mem hx
    obtain ⟨field, hfield, hxfield⟩ := List.mem_map.mp hmem
    rcases cell_of_tree_tuple (htrees x hx) hxfield.symm with ⟨two, hx2, htwo, htwoTrees⟩ | hx2
    · have hmap : two.map store.tree = [.string field.1, .descriptor field.2] := htwo
      have hlen : two.length = 2 := by simpa using congrArg List.length hmap
      obtain ⟨key, y, rfl⟩ := List.length_eq_two.mp hlen
      obtain ⟨-, rfl⟩ : Part.held key = a ∧ Part.held y = b := by
        simpa [partsOf?, parts?, hx2] using hpair
      have hy : store.tree y = .descriptor field.2 :=
        (List.cons.inj (List.cons.inj hmap).2).1
      exact within_object (htwoTrees y (by simp)) hy (hlt _ (List.mem_map_of_mem hfield))
    · obtain ⟨-, rfl⟩ : .loose (.string field.1) = a ∧ .loose (.descriptor field.2) = b := by
        simpa [partsOf?, parts?, hx2, Descriptor.heldField, Value.parts?] using hpair
      trivial
  · obtain rfl : (fields.map Descriptor.heldField).map .loose = parts := by
      simpa [parts?, hcell, Value.parts?] using hparts
    obtain ⟨w, -, rfl⟩ := List.mem_map.mp hpart
    obtain ⟨ws, -, hmap⟩ := Option.map_eq_some_iff.mp hpair
    have hb : b ∈ ws.map Part.loose := by simp [hmap]
    obtain ⟨w, -, rfl⟩ := List.mem_map.mp hb
    trivial

theorem subjects_formOf_of_no_field {kind : Kind} (h : ¬kind.field?.isSome = true) (held : Ref) :
    (store.formOf kind held).subjects = [] := by
  cases kind with
  | literal | list | record | object | optional | union | type | file => simp [Kind.field?] at h
  | _ => rfl

/-- The subjects of a descriptor that is made of the tree that it holds. -/
theorem within_of_mem_subjects {levels : Nat} {kind : Kind} {held : Ref} {d : Descriptor}
    (h : store.isTree held = true) (hd : Descriptor.ofHeld? kind (store.tree held) = some d)
    (hlt : d.height < levels + 1) {e : Subject} (he : e ∈ (store.formOf kind held).subjects) :
    store.Within levels e := by
  have hpart : ∀ c ∈ d.parts, c.height < levels := by
    intro c hc
    have hbelow := Descriptor.height_lt_of_mem_parts hc
    omega
  by_cases hfield : kind.field?.isSome = true
  · obtain ⟨rfl, hheld⟩ := Descriptor.held?_of_ofHeld? hd hfield
    cases d with
    | list c | record c =>
      obtain rfl : e = .object held := by
        simpa [Descriptor.kind, formOf, Form.subjects] using he
      have ht := (Option.some.inj hheld).symm
      exact within_object h ht (hpart c (by simp [Descriptor.parts]))
    | object fields =>
      have ht := (Option.some.inj hheld).symm
      cases hparts : store.parts? held with
      | none => simp [Descriptor.kind, formOf, hparts, Form.subjects] at he
      | some parts =>
        simp only [Descriptor.kind, formOf, hparts, Form.subjects, List.mem_filterMap,
          List.mem_map] at he
        obtain ⟨_, ⟨part, hmem, rfl⟩, hread⟩ := he
        cases hfield : store.fieldOf? part with
        | error cause => simp [hfield, Except.toOption] at hread
        | ok field =>
          obtain rfl : field.2 = e := by simpa [hfield, Except.toOption] using hread
          exact within_field h ht hpart hparts hmem hfield
    | union ds =>
      have ht := (Option.some.inj hheld).symm
      cases hparts : store.parts? held with
      | none => simp [Descriptor.kind, formOf, hparts, Form.subjects] at he
      | some parts =>
        simp only [Descriptor.kind, formOf, hparts, Form.subjects, List.mem_map] at he
        obtain ⟨part, hmem, rfl⟩ := he
        exact within_alternative h ht hpart hparts hmem
    | outsider => simp [Descriptor.held?] at hheld
    | _ => simp [Descriptor.kind, formOf, Form.subjects] at he
  · simp [subjects_formOf_of_no_field hfield] at he

theorem fileShapeOf?_of_fileShape? {tag : Ref} {shape : Descriptor}
    (h : store.fileShape? tag = .ok shape) :
    Descriptor.fileShapeOf? (store.tree tag) = .ok shape := by
  unfold fileShape? at h
  dsimp only at h
  split at h
  · exact h
  · cases hhash : store.hashable? tag with
    | error e => simp [hhash, bind, Except.bind] at h
    | ok _ => simpa [hhash, bind, Except.bind] using h

/-- The file shape for an object is derived by the descriptor that is made of its tree. -/
theorem derived?_of_fileShape? {tag : Ref} {d shape : Descriptor}
    (hd : Descriptor.ofHeld? .file (store.tree tag) = some d)
    (h : store.fileShape? tag = .ok shape) : d.derived? = some shape := by
  have hshape := fileShapeOf?_of_fileShape? h
  cases ht : store.tree tag with
  | null | string =>
    rw [ht] at hd hshape
    obtain rfl := Option.some.inj hd
    rw [← Except.ok.inj hshape]
    rfl
  | _ =>
    rw [ht] at hd
    simp [Descriptor.ofHeld?, Descriptor.make?, Descriptor.file?, Except.toOption] at hd

theorem within_of_derived? {levels : Nat} {kind : Kind} {held r : Ref} {d : Descriptor}
    (hcell : store.cell r = .descriptor kind held) (h : store.isTree held = true)
    (hd : Descriptor.ofHeld? kind (store.tree held) = some d) (hlt : d.height < levels + 1)
    {e : Subject} (he : store.derived? (.object r) = .ok (some e)) : store.Within levels e := by
  simp only [derived?, hcell] at he
  cases kind with
  | optional =>
    dsimp only at he
    obtain ⟨c, hc, rfl⟩ := Descriptor.eq_of_child?_map hd
    simp only [Descriptor.height] at hlt
    split at he
    · obtain rfl := Option.some.inj (Except.ok.inj he)
      exact ⟨c, descriptorTree?_eq_some.mpr ⟨h, hc⟩, by omega⟩
    · contradiction
  | file =>
    dsimp only at he
    cases hshape : store.fileShape? held with
    | error cause => simp [hshape, Except.map] at he
    | ok shape =>
      rw [hshape] at he
      obtain rfl := Option.some.inj (Except.ok.inj he)
      have hbelow := Descriptor.height_lt_of_derived (derived?_of_fileShape? hd hshape)
      exact show shape.height < levels by omega
  | _ => simp at he

theorem within_of_derived_shape {levels : Nat} {d : Descriptor} (h : d.height < levels + 1)
    {e : Subject} (he : d.derived?.map .shape = some e) : store.Within levels e := by
  obtain ⟨c, hc, rfl⟩ := Option.map_eq_some_iff.mp he
  have hbelow := Descriptor.height_lt_of_derived hc
  exact show c.height < levels by omega

theorem mem_parts_of_mem_subjects {d : Descriptor} {e : Subject}
    (h : e ∈ (store.form (.shape d)).subjects) : ∃ c ∈ d.parts, e = .shape c := by
  cases d with
  | list item | record item =>
    obtain rfl : e = .shape item := by simpa [form, Form.subjects] using h
    exact ⟨item, by simp [Descriptor.parts], rfl⟩
  | object fields =>
    simp only [form, Form.subjects, List.mem_filterMap, List.mem_map] at h
    obtain ⟨_, ⟨⟨name, c⟩, hc, rfl⟩, he⟩ := h
    exact ⟨c, List.mem_map_of_mem hc, (Option.some.inj he).symm⟩
  | union ds =>
    obtain ⟨c, hc, rfl⟩ := List.mem_map.mp h
    exact ⟨c, hc, rfl⟩
  | _ => simp [form, Form.subjects] at h

/-- All that a check hands on to the next level is within one level less. -/
theorem within_of_mem_nextLevel {levels : Nat} {d : Subject} (h : store.Within (levels + 1) d)
    {e : Subject} (he : e ∈ store.nextLevel d) : store.Within levels e := by
  rcases List.mem_append.mp he with he | he
  · have hderived : store.derived? d = .ok (some e) := by
      cases hd : store.derived? d with
      | error cause => simp [hd, Except.toOption] at he
      | ok derived => simpa [hd, Except.toOption] using he
    cases d with
    | object r =>
      obtain ⟨d, hd, hlt⟩ := h
      rcases cell_of_descriptorTree? hd with hcell | ⟨kind, held, hcell, htree, hheld⟩
      · simp only [derived?, hcell] at hderived
        exact within_of_derived_shape hlt (Except.ok.inj hderived)
      · exact within_of_derived? hcell htree hheld hlt hderived
    | shape d => exact within_of_derived_shape h (Except.ok.inj hderived)
    | orAbsent | nothing => simp [derived?] at hderived
  · cases d with
    | object r =>
      obtain ⟨d, hd, hlt⟩ := h
      rcases cell_of_descriptorTree? hd with hcell | ⟨kind, held, hcell, htree, hheld⟩
      · simp [form, hcell, Form.subjects] at he
      · simp only [form, hcell] at he
        exact within_of_mem_subjects htree hheld hlt he
    | shape d =>
      obtain ⟨c, hc, rfl⟩ := mem_parts_of_mem_subjects he
      have hlt : d.height < levels + 1 := h
      have hbelow := Descriptor.height_lt_of_mem_parts hc
      exact show c.height < levels by omega
    | orAbsent inner =>
      obtain ⟨d, hd, hlt⟩ := h
      rcases (by simpa [form, Form.subjects] using he : e = .object inner ∨ e = .shape .null) with
        rfl | rfl
      · exact ⟨d, hd, by omega⟩
      · exact show Descriptor.null.height < levels by simp only [Descriptor.height]; omega
    | nothing => simp [form, Form.subjects] at he

theorem trees?_eq_some {r v : Ref} {pair : Descriptor × Value}
    (h : store.trees? r v = some pair) :
    store.descriptorTree? r = some pair.1 ∧ store.isTree v = true ∧ pair.2 = store.tree v := by
  unfold trees? at h
  cases hd : store.descriptorTree? r with
  | none => simp [hd] at h
  | some d =>
    cases hv : store.isTree v with
    | false => simp [hd, hv, guard] at h
    | true =>
      obtain rfl : (d, store.tree v) = pair := by simpa [hd, hv, guard] using h
      exact ⟨rfl, rfl, rfl⟩

/-- Fields that cannot be written down take no more levels than others. -/
theorem checkField_suffices {part : SubjectCheck} {d : Subject}
    (hpart : ∀ mode w q, (part mode d w q).Suffices) (mode : Recording) (name : Value) (v : Ref)
    (path : Path) : (checkField part mode name d v path).Suffices := by
  cases hname : Step.ofValue? name with
  | some step =>
    rw [checkField_of_step hname]
    exact hpart mode v _
  | none =>
    intro issues
    simp only [checkField, hname]
    cases mode with
    | silent => exact hpart .silent v path issues
    | first | all =>
      apply not_lacksLevels_bind (hpart .first v path #[])
      rintro ⟨ok, later⟩
      cases ok with
      | true => exact not_lacksLevels_ok _
      | false => exact mt lacksLevels_error.mp (by decide)

/-- A check of a subject needs no more levels than it is within, whatever the object. -/
theorem check_suffices (store : Store) (limit : Limit) {levels : Nat} (mode : Recording)
    {d : Subject} (h : store.Within levels d) (v : Ref) (path : Path) :
    (store.check limit levels mode d v path).Suffices := by
  induction levels generalizing mode d v path with
  | zero =>
    cases d with
    | nothing => exact fun _ => mt lacksLevels_error.mp (by simp [Error.family])
    | shape d => exact absurd h (Nat.not_lt_zero _)
    | object r | orAbsent r =>
      obtain ⟨d, -, hlt⟩ := h
      exact absurd hlt (Nat.not_lt_zero _)
  | succ levels ih =>
    have hnext : ∀ mode, ∀ e ∈ store.nextLevel d, ∀ w q,
        (store.check limit levels mode e w q).Suffices :=
      fun mode e he w q => ih mode (within_of_mem_nextLevel h he) w q
    apply @check_succ_related mode mode [] _ _ store (lockstep_suffices mode)
      (fun _ => not_lacksLevels_ok _) limit limit levels levels d v path (hnext mode)
      (hnext .silent)
    intro fields hform name e he w
    apply checkField_suffices
    exact fun mode w q => hnext mode e (mem_nextLevel_of_field hform he) w q

end Store

section

variable {settings : Settings} {levels : Nat} (hlevels : settings.depth.limit.levels = some levels)
include hlevels

theorem runCheck_suffices {d : Descriptor} (hd : d.height ≤ levels) (mode : Recording)
    (v : Value) : ¬LacksLevels (runCheck settings mode d v) := by
  refine check_suffices _ mode ?_ v [] #[]
  rw [Limit.bound_eq hlevels]
  omega

theorem validate_suffices {d : Descriptor} (hd : d.height ≤ levels) (v : Value) :
    ¬LacksLevels (validate settings d v) := by
  rw [validate, lacksLevels_map]
  exact runCheck_suffices hlevels hd .silent v

theorem explain_suffices {d : Descriptor} (hd : d.height ≤ levels) (v : Value) :
    ¬LacksLevels (explain settings d v) := by
  rw [explain, lacksLevels_map]
  exact runCheck_suffices hlevels hd _ v

namespace Store

variable {store : Store} {r : Ref} {d : Descriptor} (hr : store.descriptorTree? r = some d)
include hr

theorem runCheck_suffices (hd : d.height ≤ levels) (mode : Recording) (v : Ref) :
    ¬LacksLevels (store.runCheck settings mode (.object r) v) := by
  have hwithin : store.Within (settings.depth.limit.bound + 1) (.object r) := by
    refine ⟨d, hr, ?_⟩
    rw [Limit.bound_eq hlevels]
    omega
  exact store.check_suffices _ mode hwithin v [] #[]

theorem validate_suffices (hd : d.height ≤ levels) (v : Ref) :
    ¬LacksLevels (store.validate settings r v) := by
  unfold validate
  cases htrees : store.trees? r v with
  | some pair =>
    obtain rfl := Option.some.inj (hr.symm.trans (trees?_eq_some htrees).1)
    exact DataSchema.validate_suffices hlevels hd pair.2
  | none =>
    dsimp only
    rw [lacksLevels_map]
    exact runCheck_suffices hlevels hr hd .silent v

theorem explain_suffices (hd : d.height ≤ levels) (v : Ref) :
    ¬LacksLevels (store.explain settings r v) := by
  unfold explain
  cases htrees : store.trees? r v with
  | some pair =>
    obtain rfl := Option.some.inj (hr.symm.trans (trees?_eq_some htrees).1)
    exact DataSchema.explain_suffices hlevels hd pair.2
  | none =>
    apply not_lacksLevels_bind (runCheck_suffices hlevels hr hd _ v)
    rintro ⟨ok, issues⟩
    apply not_lacksLevels_bind (store.not_lacksLevels_kindOf? _)
    exact fun kind => not_lacksLevels_ok _

end Store

/-- A chain passes if there are three levels for each of its links, and else wants more. -/
theorem validate_chain (name : String) (n : Nat) :
    (3 * n ≤ levels → validate settings (.chain name n) (.chain name n) = .ok true) ∧
      (levels < 3 * n → LacksLevels (validate settings (.chain name n) (.chain name n))) := by
  have hbound := Limit.bound_eq hlevels
  constructor
  · intro hle
    rw [validate, runCheck, check_chain _ name #[] (by omega)]
    rfl
  · intro hlt
    obtain ⟨kind, hrun⟩ := check_chain_overrun settings.depth.limit name #[]
      (show settings.depth.limit.bound + 1 ≤ 3 * n by omega) []
    rw [validate, lacksLevels_map, runCheck, hrun, lacksLevels_error]
    exact Limit.family_overrun hlevels kind

end

/-- As many levels as a descriptor is high are enough for every value, and for every object, which
may hold itself. A chain needs all of them. -/
theorem levels_of_height {settings : Settings} {levels : Nat}
    (hlevels : settings.depth.limit.levels = some levels) :
    (∀ d : Descriptor, d.height ≤ levels → ∀ v : Value,
      ¬LacksLevels (validate settings d v) ∧ ¬LacksLevels (explain settings d v)) ∧
    (∀ (store : Store) (r : Ref) (d : Descriptor), store.descriptorTree? r = some d →
      d.height ≤ levels → ∀ v : Ref,
        ¬LacksLevels (store.validate settings r v) ∧ ¬LacksLevels (store.explain settings r v)) ∧
    ∀ name n, (Descriptor.chain name n).height = 3 * n ∧
      (3 * n ≤ levels → validate settings (.chain name n) (.chain name n) = .ok true) ∧
      (levels < 3 * n → LacksLevels (validate settings (.chain name n) (.chain name n))) := by
  refine ⟨?_, ?_, ?_⟩
  · intro d hd v
    exact ⟨validate_suffices hlevels hd v, explain_suffices hlevels hd v⟩
  · intro store r d hr hd v
    exact ⟨Store.validate_suffices hlevels hr hd v, Store.explain_suffices hlevels hr hd v⟩
  · intro name n
    exact ⟨Descriptor.height_chain name n, validate_chain hlevels name n⟩

/-- The settings that nobody changes admit chains of eighty-five links; and a list that holds itself
is no list of lists of numbers, which needs two levels of them. -/
theorem levels_of_height_default :
    let settings := Settings.default
    let store : Store := ⟨#[.plain .null, .plain (.descriptor .number), .descriptor .list 1,
      .descriptor .list 2, .list [4]]⟩
    settings.depth.limit.levels = some 256 ∧
      store.descriptorTree? 3 = some (.list (.list .number)) ∧
      (Descriptor.list (.list .number)).height ≤ 256 ∧
      ¬LacksLevels (store.validate settings 3 4) ∧
      validate settings (.chain "child" 85) (.chain "child" 85) = .ok true ∧
      LacksLevels (validate settings (.chain "child" 86) (.chain "child" 86)) := by
  intro settings store
  have hlevels : settings.depth.limit.levels = some 256 := rfl
  have htree : store.descriptorTree? 3 = some (.list (.list .number)) := rfl
  have hheight : (Descriptor.list (.list .number)).height ≤ 256 := by decide
  obtain ⟨-, hobjects, hchain⟩ := levels_of_height hlevels
  exact ⟨hlevels, htree, hheight, (hobjects store 3 _ htree hheight 4).1,
    (hchain "child" 85).2.1 (by decide), (hchain "child" 86).2.2 (by decide)⟩

end DataSchema
