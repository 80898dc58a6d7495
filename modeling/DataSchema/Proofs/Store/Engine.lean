import DataSchema.Proofs.Engine
import DataSchema.Proofs.Store.Simulation

/-!
The engine for objects as an engine that runs plans. Its descriptors are those that builders leave,
apart from that they may hold themselves: a set of such objects is closed under what they hold. For
these the engine for objects does what the plans say.
-/

namespace DataSchema

/-- A plan without its parts. -/
def Plan.bare {D V D' V' : Type} : Plan D V → Plan D' V'
  | .answer holds below reason => .answer holds below reason
  | .stuck e => .stuck e
  | .every _ => .every []
  | .oneOf _ reason => .oneOf [] reason

/-- The variants that hold no subjects. -/
def Descriptor.IsSettled : Descriptor → Prop
  | null | boolean | number | string | void | any | optional _ | file _ | image => True
  | _ => False

namespace Store

/-! ### Schemas that may hold themselves -/

/-- An object that is a descriptor of the fifteen variants and holds in its field what builders put
there. The descriptors that it holds are of a set. -/
inductive Formed (store : Store) (member : Ref → Prop) (r : Ref) : Prop where
  | leaf {d : Descriptor} (hcell : store.cell r = .plain (.descriptor d))
    (h : d.kind.field? = none) (hbuilt : d.IsBuilt)
  | literal {held : Ref} {p : Primitive} (hcell : store.cell r = .descriptor .literal held)
    (h : store.cell held = .plain p.toValue)
  | list {held : Ref} (hcell : store.cell r = .descriptor .list held) (h : member held)
  | record {held : Ref} (hcell : store.cell r = .descriptor .record held) (h : member held)
  | optional {held : Ref} (hcell : store.cell r = .descriptor .optional held) (h : member held)
  | type {held : Ref} (hcell : store.cell r = .descriptor .type held) (h : member held)
  | object {held : Ref} {items : List Ref} (hcell : store.cell r = .descriptor .object held)
    (h : store.cell held = .tuple items) (hitems : ∀ x ∈ items, ∃ key name d,
      store.cell x = .tuple [key, d] ∧ store.cell key = .plain (.string name) ∧ member d)
  | union {held : Ref} {items : List Ref} (hcell : store.cell r = .descriptor .union held)
    (h : store.cell held = .tuple items) (hitems : ∀ x ∈ items, member x)
  | file {held : Ref} (tag : Option String) (hcell : store.cell r = .descriptor .file held)
    (h : store.cell held = .plain ((tag.map .string).getD .null))

/-- What is checked for descriptors of a set. -/
def Subject.IsOf (member : Ref → Prop) : Subject → Prop
  | .object r => member r
  | .shape d => d.IsBuilt
  | .orAbsent inner => member inner
  | .nothing => False

/-- A subject from which only descriptors are reached that builders leave, maybe again and again. -/
def IsSchema (store : Store) (s : Subject) : Prop :=
  ∃ member : Ref → Prop, s.IsOf member ∧ ∀ x, member x → store.Formed member x

/-- The form of a subject of a kind that derives a shape. All its parts can be read, and the
subjects among them are of a set. -/
inductive Form.Closed (P : Subject → Prop) : Kind → Option Subject → Form → Prop where
  | plain {d : Descriptor} (h : d.IsSettled) (hd : d.derived? = none) :
    Closed P d.kind none (.settled d)
  | optional (c : Descriptor) {inner : Ref} (h : P (.orAbsent inner)) :
    Closed P .optional (some (.orAbsent inner)) (.settled (.optional c))
  | optionalShape (c : Descriptor) (h : P (.shape (.union [c, .null]))) :
    Closed P .optional (some (.shape (.union [c, .null]))) (.settled (.optional c))
  | file (s t : Option String) (h : P (.shape (Descriptor.fileShape t))) :
    Closed P .file (some (.shape (Descriptor.fileShape t))) (.settled (.file s))
  | image (h : P (.shape Descriptor.imageShape)) :
    Closed P .image (some (.shape Descriptor.imageShape)) (.settled .image)
  | literal (p : Primitive) : Closed P .literal none (.literal p.toValue)
  | list {s : Subject} (h : P s) : Closed P .list none (.list s)
  | record {s : Subject} (h : P s) : Closed P .record none (.record s)
  | object {fields : List (String × Subject)} (h : ∀ field ∈ fields, P field.2) :
    Closed P .object none (.object (.ok (fields.map fun (name, s) => .ok (.string name, s))))
  | union {subjects : List Subject} (h : ∀ s ∈ subjects, P s) :
    Closed P .union none (.union subjects)
  | type {s : Subject} (h : P s) : Closed P .type none (.type s)

/-- All of a subject can be read, and what is checked further is of a set. -/
def Readable (store : Store) (P : Subject → Prop) (s : Subject) : Prop :=
  ∃ kind shape, store.kindOf? s = .ok kind ∧ store.derived? s = .ok shape ∧
    Form.Closed P kind shape (store.form s)

variable {store : Store} {member : Ref → Prop} {P : Subject → Prop}

theorem Form.Closed.shape {kind : Kind} {shape : Option Subject} {form : Form}
    (h : Form.Closed P kind shape form) : ∀ t ∈ shape, P t := by
  intro t ht
  cases h with
  | optional _ h | optionalShape _ h | file _ _ h | image h =>
    obtain rfl := Option.mem_some_iff.mp ht
    exact h
  | _ => simp at ht

theorem Form.Closed.settled {kind : Kind} {shape : Option Subject} {d : Descriptor}
    (h : Form.Closed P kind shape (.settled d)) : kind = d.kind ∧ d.IsSettled := by
  cases h with
  | plain hsettled => exact ⟨rfl, hsettled⟩
  | _ => exact ⟨rfl, trivial⟩

/-- The object in the field of a file is such that the file derives its shape. -/
theorem fileShape?_of_tag {held : Ref} {tag : Option String}
    (h : store.cell held = .plain ((tag.map .string).getD .null)) :
    store.fileShape? held = .ok (Descriptor.fileShape tag) := by
  have htree : store.tree held = (tag.map .string).getD .null := by simp only [tree, h]
  have hhash := hashable?_of_plain h (by cases tag <;> rfl)
  cases tag <;> simp only [fileShape?, h, hhash, htree] <;> rfl

theorem kind?_of_descriptor {r held : Ref} {kind : Kind}
    (h : store.cell r = .descriptor kind held) : store.kind? r = some kind := by
  simp only [kind?, face, h, Cell.face, Value.descriptorKind?]

theorem kindOf?_of_kind? {r : Ref} {kind : Kind} (h : store.kind? r = some kind) :
    store.kindOf? (.object r) = .ok kind := by
  simp only [kindOf?, h]

theorem kindOf?_of_descriptor {r held : Ref} {kind : Kind}
    (h : store.cell r = .descriptor kind held) : store.kindOf? (.object r) = .ok kind :=
  kindOf?_of_kind? (kind?_of_descriptor h)

/-- What is formed is a descriptor. -/
theorem Formed.kind? {r : Ref} (h : store.Formed member r) : (store.kind? r).isSome = true := by
  cases h with
  | leaf hcell => simp [Store.kind?, face, hcell, Cell.face, Value.descriptorKind?]
  | file _ hcell => simp [kind?_of_descriptor hcell]
  | _ hcell => simp [kind?_of_descriptor hcell]

theorem Formed.mono {member' : Ref → Prop} {r : Ref} (h : store.Formed member r)
    (hsub : ∀ u, member u → member' u) : store.Formed member' r := by
  cases h with
  | leaf hcell hfield hbuilt => exact .leaf hcell hfield hbuilt
  | literal hcell hheld => exact .literal hcell hheld
  | list hcell hheld => exact .list hcell (hsub _ hheld)
  | record hcell hheld => exact .record hcell (hsub _ hheld)
  | optional hcell hheld => exact .optional hcell (hsub _ hheld)
  | type hcell hheld => exact .type hcell (hsub _ hheld)
  | object hcell hheld hitems =>
    refine .object hcell hheld fun u hu => ?_
    obtain ⟨key, name, d, hpair, hname, hd⟩ := hitems u hu
    exact ⟨key, name, d, hpair, hname, hsub d hd⟩
  | union hcell hheld hitems => exact .union hcell hheld fun u hu => hsub u (hitems u hu)
  | file tag hcell hheld => exact .file tag hcell hheld

/-- The pairs in the field of an object are read as its fields. -/
theorem fieldOf?_of_pairs {items : List Ref} (hitems : ∀ x ∈ items, ∃ key name d,
      store.cell x = .tuple [key, d] ∧ store.cell key = .plain (.string name) ∧ member d) :
    ∃ fields : List (String × Subject), (∀ field ∈ fields, field.2.IsOf member) ∧
      items.map (fun x => store.fieldOf? (.held x)) =
        fields.map fun (name, s) => .ok (.string name, s) := by
  induction items with
  | nil => exact ⟨[], by simp, rfl⟩
  | cons x items ih =>
    obtain ⟨key, name, d, hpair, hname, hd⟩ := hitems x List.mem_cons_self
    obtain ⟨fields, hfields, hmap⟩ := ih fun y hy => hitems y (List.mem_cons_of_mem x hy)
    refine ⟨(name, .object d) :: fields, ?_, ?_⟩
    · simpa using ⟨hd, by simpa using hfields⟩
    · rw [List.map_cons, List.map_cons, hmap, fieldOf?_of_pair hpair hname]

theorem derived?_of_descriptor {r held : Ref} {kind : Kind}
    (h : store.cell r = .descriptor kind held) (hkind : kind ≠ .optional ∧ kind ≠ .file) :
    store.derived? (.object r) = .ok none := by
  cases kind <;> simp_all [derived?]

theorem readable_of_descriptor {r held : Ref} {kind : Kind}
    (hcell : store.cell r = .descriptor kind held) {shape : Option Subject}
    (hderived : store.derived? (.object r) = .ok shape)
    (hform : Form.Closed P kind shape (store.formOf kind held)) :
    store.Readable P (.object r) :=
  ⟨kind, shape, kindOf?_of_descriptor hcell, hderived, by simpa only [form, hcell] using hform⟩

theorem Formed.readable (hclosed : ∀ x, member x → store.Formed member x) {r : Ref}
    (h : store.Formed member r) : store.Readable (·.IsOf member) (.object r) := by
  cases h with
  | @leaf d hcell hfield hbuilt =>
    refine ⟨d.kind, d.derived?.map .shape, ?_, ?_, ?_⟩
    · simp only [kindOf?, Store.kind?, face, hcell, Cell.face, Value.descriptorKind?]
    · simp only [derived?, hcell]
    · simp only [form, hcell]
      cases d with
      | outsider => exact hbuilt.elim
      | literal | list | record | object | optional | union | type | file =>
        simp [Descriptor.kind, Kind.field?] at hfield
      | image => exact .image (hbuilt.derived rfl)
      | _ => exact .plain trivial rfl
  | @literal held p hcell hheld =>
    have htree : store.tree held = p.toValue := by simp only [tree, hheld]
    refine readable_of_descriptor hcell (derived?_of_descriptor hcell (by decide)) ?_
    simp only [formOf, htree]
    exact .literal p
  | list hcell hheld =>
    exact readable_of_descriptor hcell (derived?_of_descriptor hcell (by decide)) (.list hheld)
  | record hcell hheld =>
    exact readable_of_descriptor hcell (derived?_of_descriptor hcell (by decide)) (.record hheld)
  | type hcell hheld =>
    exact readable_of_descriptor hcell (derived?_of_descriptor hcell (by decide)) (.type hheld)
  | @object held items hcell hheld hitems =>
    obtain ⟨fields, hfields, hmap⟩ := fieldOf?_of_pairs hitems
    refine readable_of_descriptor hcell (derived?_of_descriptor hcell (by decide)) ?_
    simp only [formOf, parts?, hheld, List.map_map, Function.comp_def, hmap]
    exact .object hfields
  | @union held items hcell hheld hitems =>
    refine readable_of_descriptor hcell (derived?_of_descriptor hcell (by decide)) ?_
    simp only [formOf, parts?, hheld, List.map_map, Function.comp_def]
    refine .union fun s hs => ?_
    obtain ⟨x, hx, rfl⟩ := List.mem_map.mp hs
    exact hitems x hx
  | file tag hcell hheld =>
    have hderived : store.derived? (.object r) =
        .ok (some (.shape (Descriptor.fileShape tag))) := by
      simp only [derived?, hcell, fileShape?_of_tag hheld]
      rfl
    exact readable_of_descriptor hcell hderived
      (.file none tag (Descriptor.isBuilt_fileShape tag))
  | @optional held hcell hheld =>
    have hderived : store.derived? (.object r) = .ok (some (.orAbsent held)) := by
      simp only [derived?, hcell, (hclosed held hheld).kind?]
      rfl
    exact readable_of_descriptor hcell hderived (.optional .any hheld)

/-- Shapes that no object holds are read as they are built. -/
theorem readable_shape {d : Descriptor} (h : d.IsBuilt) :
    store.Readable (·.IsOf member) (.shape d) := by
  refine ⟨d.kind, d.derived?.map .shape, rfl, rfl, ?_⟩
  cases d with
  | literal p => exact .literal p
  | list d => exact .list h
  | record d => exact .record h
  | type d => exact .type h
  | optional c => exact .optionalShape c (h.derived rfl)
  | file tag => exact .file tag tag (h.derived rfl)
  | image => exact .image (h.derived rfl)
  | union ds =>
    refine .union fun s hs => ?_
    obtain ⟨d, hd, rfl⟩ := List.mem_map.mp hs
    exact (Descriptor.allBuilt_iff ds).mp h.2 d hd
  | object fields =>
    have hfields : ∀ field ∈ fields.map fun field => (field.1, Subject.shape field.2),
        field.2.IsOf member := by
      intro field hfield
      obtain ⟨declared, hdeclared, rfl⟩ := List.mem_map.mp hfield
      exact (Descriptor.fieldsBuilt_iff fields).mp h.2 declared hdeclared
    have hform := Form.Closed.object hfields
    rwa [List.map_map] at hform
  | outsider => exact h.elim
  | _ => exact .plain trivial rfl

/-- All that is checked for a set of descriptors that is closed can be read. -/
theorem readable_of_closed (hclosed : ∀ x, member x → store.Formed member x) {s : Subject}
    (hs : s.IsOf member) : store.Readable (·.IsOf member) s := by
  cases s with
  | object r => exact (hclosed r hs).readable hclosed
  | shape d => exact readable_shape hs
  | orAbsent inner =>
    refine ⟨.union, none, rfl, rfl, .union ?_⟩
    intro s hmem
    have hcases : s = .object inner ∨ s = .shape .null := by simpa using hmem
    rcases hcases with rfl | rfl
    · exact hs
    · exact trivial
  | nothing => exact hs.elim

/-- Lists of lists of numbers, and a list that holds itself and a number. -/
def looped : Store := ⟨#[.plain .null, .plain (.descriptor .number), .descriptor .list 1,
  .descriptor .list 2, .list [4, 5], .plain (.int 5)]⟩

theorem looped_proper : looped.Proper := .of_mem rfl (by decide)

theorem looped_isSchema : looped.IsSchema (.object 3) := by
  refine ⟨fun r => r = 1 ∨ r = 2 ∨ r = 3, .inr (.inr rfl), ?_⟩
  rintro r (rfl | rfl | rfl)
  · exact .leaf (d := .number) rfl rfl trivial
  · exact .list rfl (show 1 = 1 ∨ _ from .inl rfl)
  · exact .list rfl (show 2 = 1 ∨ 2 = 2 ∨ _ from .inr (.inl rfl))

/-! ### Plans -/

def subjectKind (store : Store) (s : Subject) : Kind := (store.kindOf? s).toOption.getD .void

/-- The plan of a variant that holds no subjects, made for what the object is on its surface. What
is no number is shown as a whole. -/
def settledPlan (store : Store) (d : Descriptor) (v : Ref) : Plan Subject Ref :=
  match d, isNumber (store.surface v) with
  | .number, .ok holds => .answer holds [] (.notNumber (store.tree v))
  | _, _ => (d.plan (store.surface v)).bare

/-- The plan of a subject's rule. -/
def plan (store : Store) (s : Subject) (v : Ref) : Plan Subject Ref :=
  match store.form s with
  | .settled d => store.settledPlan d v
  | .literal expected => match isAlteredLiteral? expected (store.face v) with
    | .ok holds => .answer holds [] (.notLiteral expected (store.tree v))
    | .error e => .stuck e
  | .list item => match store.elements? v with
    | none => .answer false [] (.notSequence (store.face v))
    | some items => .every (items.mapIdx fun i w => .part item w (.index i))
  | .record item => match store.entries? v with
    | none => .answer false [] (.notMapping (store.face v))
    | some entries => .every (entries.map fun (key, w) => match store.name? key with
      | some name => .part item w (.key name)
      | none => .blemish (.keyNotText (store.tree key)))
  | .object fields => match store.entries? v with
    | none => .answer false [] (.notMapping (store.face v))
    | some entries => match fields with
      | .ok fields => .every (fields.map fun
        | .ok (name, s) => match Step.ofValue? name with
          | some step => .part s (store.lookup name entries) step
          | none => .stuck .stepNotPlain
        | .error e => .stuck e)
      | .error e => .stuck e
  | .union alternatives => .oneOf alternatives (.noAlternative (alternatives.map store.subjectKind))
  | .type described => match store.kind? v with
    | none => .answer false [] (.notDescriptor (store.face v))
    | some kind => .answer (kind == store.subjectKind described) []
        (.otherKind (store.subjectKind described) kind)
  | .broken cause => .stuck cause

theorem plan_record {s item : Subject} (hform : store.form s = .record item) {v : Ref}
    {entries : List (Ref × Ref)} (h : store.entries? v = some entries) :
    store.plan s v = .every (entries.map fun (key, w) => match store.name? key with
      | some name => .part item w (.key name)
      | none => .blemish (.keyNotText (store.tree key))) := by
  simp only [plan, hform, h]

/-- The engine for objects, as far as subjects can be read. -/
def engine (store : Store) : Engine Subject Ref where
  kind := store.subjectKind
  derived? s := (store.derived? s).toOption.join
  plan := store.plan

theorem bare_related {d : Descriptor} (h : d.IsSettled) (v : Value) (r : Ref) :
    Plan.Rel Eq Eq (fun _ _ (_ : Subject) _ => False) v r (d.plan v) (d.plan v).bare := by
  cases d with
  | number =>
    simp only [Descriptor.plan]
    cases isNumber v with
    | ok holds => exact .answer _ _ rfl
    | error e => exact .stuck rfl
  | file tag =>
    simp only [Descriptor.plan, lengthPlan]
    cases v.entries? with
    | none => exact .stuck rfl
    | some entries =>
      dsimp only
      cases Value.lookup "length" entries with
      | none => exact .stuck rfl
      | some length =>
        dsimp only
        cases length.number? with
        | none => exact .stuck rfl
        | some n => exact .answer _ _ rfl
  | any | image | optional => exact .every .nil
  | null | void | boolean | string => exact .answer _ _ rfl
  | _ => exact h.elim

theorem accord_eq (mode : Recording) : Accord mode mode [] Eq Eq Eq Eq where
  pass := rfl
  fail := by
    rintro ⟨path, kind, reason⟩ ⟨_, _, _⟩ ⟨hpath, hkind, hreason⟩
    obtain ⟨rfl, rfl, rfl⟩ : path = _ ∧ kind = _ ∧ reason = _ := ⟨hpath, hkind, hreason⟩
    rfl
  raise := fun h => congrArg _ h
  andThen := fun hs ht => by rw [hs, ht]
  orElse := fun hs ht => by rw [hs, ht]
  also := fun hs ht => by rw [hs, ht]

theorem settledRule_eq_run {d : Descriptor} (h : d.IsSettled) (further : SubjectCheck)
    (mode : Recording) (v : Ref) (path : Path) :
    store.settledRule mode d v path = (store.settledPlan d v).run further mode d.kind v path := by
  have hrule : ∀ mode, rule (fun _ _ _ _ => .pass) mode d (store.surface v) path =
      ((d.plan (store.surface v)).bare).run further mode d.kind v path := by
    intro mode
    rw [rule_eq_run]
    exact Plan.run_related (accord_eq mode) (bare_related h (store.surface v) v)
      (fun _ _ _ _ _ hfalse => hfalse.elim) (fun _ _ _ _ _ hfalse => hfalse.elim) d.kind path
  cases d with
  | number =>
    rw [settledRule_number]
    unfold settledPlan
    cases hn : isNumber (store.surface v) with
    | error e => simp [hn, Plan.run, Descriptor.plan, Plan.bare]
    | ok holds => simp [Plan.run, Descriptor.kind]
  | _ => exact hrule mode

theorem subjectKind_eq {s : Subject} {kind : Kind} (h : store.kindOf? s = .ok kind) :
    store.subjectKind s = kind := by
  simp only [subjectKind, h, Except.toOption, Option.getD_some]

theorem kindsOf?_of_readable {subjects : List Subject}
    (h : ∀ s ∈ subjects, store.Readable P s) :
    store.kindsOf? subjects = .ok (subjects.map store.subjectKind) := by
  unfold kindsOf?
  induction subjects with
  | nil => rfl
  | cons s subjects ih =>
    obtain ⟨kind, -, hkind, -⟩ := h s List.mem_cons_self
    rw [List.mapM_cons, hkind, ih fun t ht => h t (List.mem_cons_of_mem s ht), List.map_cons,
      subjectKind_eq hkind]
    rfl

theorem ruleOf_eq_run (hclosed : ∀ s, P s → store.Readable P s) {s : Subject} (hs : P s)
    (further : SubjectCheck) (mode : Recording) (v : Ref) (path : Path) :
    store.ruleOf further mode s v path =
      (store.plan s v).run further mode (store.subjectKind s) v path := by
  obtain ⟨kind, shape, hkind, -, hform⟩ := hclosed s hs
  rw [subjectKind_eq hkind]
  unfold ruleOf plan
  generalize store.form s = form at hform
  cases hform with
  | plain hsettled => exact settledRule_eq_run hsettled further mode v path
  | optional | optionalShape | file | image =>
    refine settledRule_eq_run ?_ further mode v path
    trivial
  | literal p =>
    simp only [isAlteredLiteral?_toValue]
    cases isLiteral p (store.face v) with
    | true => rfl
    | false => simp [Plan.run, Test.demand, failShowing_eq]
  | list hitem =>
    dsimp only
    cases store.elements? v with
    | none => simp [Plan.run, Test.demand, failAt]
    | some items =>
      simp only [Plan.run, List.mapIdx_eq_zipIdx_map, List.map_map]
      rfl
  | record hitem =>
    dsimp only
    cases store.entries? v with
    | none => simp [Plan.run, Test.demand, failAt]
    | some entries =>
      simp only [Plan.run, List.map_map]
      congr 1
      apply List.map_congr_left
      rintro ⟨key, w⟩ _
      dsimp only [Function.comp]
      cases store.name? key with
      | some name => rfl
      | none => exact failShowing_eq store mode key path .record .keyNotText
  | object hfields =>
    dsimp only
    cases store.entries? v with
    | none => simp [Plan.run, Test.demand, failAt]
    | some entries =>
      simp only [Plan.run, List.map_map]
      rfl
  | union hsubjects =>
    have hkinds := kindsOf?_of_readable fun s hs => hclosed s (hsubjects s hs)
    simp only [hkinds]
    rfl
  | type hdescribed =>
    obtain ⟨expected, -, hexpected, -⟩ := hclosed _ hdescribed
    dsimp only
    cases store.kind? v with
    | none => simp [Plan.run, Test.demand, failAt]
    | some found =>
      simp only [hexpected, subjectKind_eq hexpected]
      simp [Plan.run]
      rfl
/-- A set of objects that has all their elements and entries in it, and what is read where there is
no entry. -/
structure Whole (store : Store) (Q : Ref → Prop) : Prop where
  absent : Q absent
  elements? {v : Ref} (h : Q v) {items : List Ref} (hitems : store.elements? v = some items) :
    ∀ w ∈ items, Q w
  entries? {v : Ref} (h : Q v) {entries : List (Ref × Ref)}
    (hentries : store.entries? v = some entries) : ∀ entry ∈ entries, Q entry.2

theorem whole_all : store.Whole fun _ => True := ⟨trivial, by simp, by simp⟩

variable {Q : Ref → Prop}

theorem Whole.lookup (h : store.Whole Q) {v : Ref} (hv : Q v) {entries : List (Ref × Ref)}
    (hentries : store.entries? v = some entries) (name : Value) :
    Q (store.lookup name entries) := by
  unfold Store.lookup
  dsimp only
  cases hfind : entries.find? _ with
  | none => exact h.absent
  | some entry => exact h.entries? hv hentries entry (List.mem_of_find?_eq_some hfind)

/-- What a check is about, on both sides of a comparison of an engine with itself. -/
def Subject.Stays (P : Subject → Prop) (Q : Ref → Prop) (s : Subject) (v : Ref) (t : Subject)
    (w : Ref) : Prop :=
  (P s ∧ Q v) ∧ s = t ∧ v = w

theorem bare_stays {X : Error → Error → Prop} {plan : Plan Descriptor Value} {v : Ref}
    (hstuck : ∀ e, plan.bare = Plan.stuck (D := Subject) (V := Ref) e → X e e) :
    Plan.Rel X Eq (Subject.Stays P Q) v v plan.bare plan.bare := by
  cases plan with
  | answer holds below reason => exact .answer holds below rfl
  | stuck e => exact .stuck (hstuck e rfl)
  | every items => exact .every .nil
  | oneOf ds reason => exact .oneOf .nil rfl

theorem settledPlan_stays {X : Error → Error → Prop} {d : Descriptor} {v : Ref}
    (hstuck : ∀ e, store.settledPlan d v = .stuck e → X e e) :
    Plan.Rel X Eq (Subject.Stays P Q) v v (store.settledPlan d v) (store.settledPlan d v) := by
  unfold settledPlan at hstuck ⊢
  cases d with
  | number =>
    cases hn : isNumber (store.surface v) with
    | ok holds => exact .answer _ _ rfl
    | error e =>
      rw [hn] at hstuck
      exact bare_stays hstuck
  | _ => exact bare_stays hstuck

/-- The parts that plans hand on stay in sets that are closed under what is checked further. -/
theorem plan_stays {X : Error → Error → Prop} (hclosed : ∀ s, P s → store.Readable P s)
    (hwhole : store.Whole Q) {s : Subject} (hs : P s) {v : Ref} (hv : Q v)
    (hstuck : ∀ e, store.plan s v = .stuck e → X e e) :
    Plan.Rel X Eq (Subject.Stays P Q) v v (store.plan s v) (store.plan s v) := by
  obtain ⟨kind, shape, -, -, hform⟩ := hclosed s hs
  unfold plan at hstuck ⊢
  generalize store.form s = form at hform hstuck
  cases hform with
  | plain | optional | optionalShape | file | image => exact settledPlan_stays hstuck
  | literal p =>
    simp only [isAlteredLiteral?_toValue]
    exact .answer _ _ rfl
  | list hitem =>
    dsimp only
    cases hitems : store.elements? v with
    | none => exact .answer _ _ rfl
    | some items =>
      refine .every (List.forall₂_same.mpr fun item hmem => ?_)
      obtain ⟨i, hi, rfl⟩ := List.mem_mapIdx.mp hmem
      exact .part _ ⟨⟨hitem, hwhole.elements? hv hitems _ (List.getElem_mem hi)⟩, rfl, rfl⟩
  | record hitem =>
    dsimp only
    cases hentries : store.entries? v with
    | none => exact .answer _ _ rfl
    | some entries =>
      refine .every (List.forall₂_same.mpr fun item hmem => ?_)
      obtain ⟨⟨key, w⟩, hentry, rfl⟩ := List.mem_map.mp hmem
      dsimp only
      cases store.name? key with
      | none => exact .blemish rfl
      | some name => exact .part _ ⟨⟨hitem, hwhole.entries? hv hentries _ hentry⟩, rfl, rfl⟩
  | object hfields =>
    dsimp only
    cases hentries : store.entries? v with
    | none => exact .answer _ _ rfl
    | some entries =>
      refine .every (List.forall₂_same.mpr fun item hmem => ?_)
      obtain ⟨field, hfield, rfl⟩ := List.mem_map.mp hmem
      obtain ⟨⟨name, t⟩, ht, rfl⟩ := List.mem_map.mp hfield
      exact .part _ ⟨⟨hfields _ ht, hwhole.lookup hv hentries _⟩, rfl, rfl⟩
  | union hsubjects =>
    exact .oneOf (List.forall₂_same.mpr fun t ht => ⟨⟨hsubjects t ht, hv⟩, rfl, rfl⟩) rfl
  | type hdescribed =>
    dsimp only
    cases store.kind? v <;> exact .answer _ _ rfl

theorem engine_derived? {s : Subject} {shape : Option Subject}
    (h : store.derived? s = .ok shape) : store.engine.derived? s = shape := by
  simp only [engine, h, Except.toOption, Option.join_some]

/-- For subjects of a set that can be read, the engine for objects runs their plans. -/
theorem check_eq (hclosed : ∀ s, P s → store.Readable P s) (limit : Limit) (levels : Nat)
    (mode : Recording) {s : Subject} (hs : P s) (v : Ref) (path : Path) :
    store.check limit levels mode s v path = store.engine.check limit levels mode s v path := by
  induction levels generalizing mode s v path with
  | zero =>
    obtain ⟨kind, -, hkind, -⟩ := hclosed s hs
    simp only [check, hkind, Engine.check]
    exact congrArg (Test.raise ∘ limit.overrun) (subjectKind_eq hkind).symm
  | succ levels ih =>
    have hrule : store.ruleOf (store.check limit levels) mode s v path =
        (store.plan s v).run (store.engine.check limit levels) mode (store.subjectKind s) v
          path := by
      rw [ruleOf_eq_run hclosed hs]
      have hplan := plan_stays hclosed whole_all hs (v := v) trivial fun e _ => Eq.refl e
      refine Plan.run_related (accord_eq mode) hplan ?_ ?_ _ path
      · rintro t w _ _ q ⟨⟨ht, -⟩, rfl, rfl⟩
        exact ih mode ht w q
      · rintro t w _ _ q ⟨⟨ht, -⟩, rfl, rfl⟩
        exact ih .silent ht w q
    obtain ⟨kind, shape, -, hshape, hform⟩ := hclosed s hs
    have hmem := hform.shape
    have hengine := engine_derived? hshape
    simp only [check, hshape, hrule]
    cases shape with
    | none => exact (store.engine.check_of_none limit levels mode v path hengine).symm
    | some shape =>
      dsimp only
      rw [ih mode (hmem shape rfl) v path]
      exact (store.engine.check_of_some limit levels mode v path hengine).symm

end Store

end DataSchema
