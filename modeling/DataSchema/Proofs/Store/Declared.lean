import DataSchema.Proofs.Store.Interchange
import DataSchema.Proofs.Store.Resemblance
import DataSchema.Proofs.Store.Safety

/-!
Open mappings. An object, a file or an image reads what is under the names that it declares and
nothing else of a mapping: two mappings that hold the same under these names are validated and
explained alike. Whether an absent value is written out does not matter, even for the length of a
file, since the rule that reads the entry itself runs only where a number is found.
-/

namespace DataSchema

/-- The names that a descriptor of open mappings declares. -/
def Descriptor.declared? : Descriptor → Option (List String)
  | object fields => some (fields.map (·.1))
  | file _ => some ["name", "length", "mimeType", "dataUrl", "type"]
  | image => some ["file"]
  | _ => none

/-- Two mappings that hold the same under some names, where what is not there is absent. -/
def Value.SameUnder (names : List String) (v w : Value) : Prop :=
  ∃ entries others, v.entries? = some entries ∧ w.entries? = some others ∧
    ∀ name ∈ names, entryOrNull name entries = entryOrNull name others

/-! ### Values -/

namespace Value.SameUnder

variable {names : List String} {v w : Value}

theorem length? (h : v.SameUnder names w) (hname : "length" ∈ names) : v.length? = w.length? := by
  obtain ⟨entries, others, hv, hw, hsame⟩ := h
  simp only [Value.length?, hv, hw, Option.bind_eq_bind, Option.bind_some, hsame "length" hname]

end Value.SameUnder

theorem Value.hasLength_iff {v : Value} : v.HasLength ↔ ∃ q, v.length? = some q := by
  constructor
  · rintro ⟨entries, length, q, hv, hlookup, hreal⟩
    exact ⟨q, by simp [Value.length?, hv, Value.entryOrNull, hlookup, hreal]⟩
  · rintro ⟨q, h⟩
    obtain ⟨entries, hv, hreal⟩ := Option.bind_eq_some_iff.mp h
    obtain ⟨length, hlookup, hlength⟩ := real?_entryOrNull hreal
    exact ⟨entries, length, q, hv, hlookup, hlength⟩

/-- Where the length is one number, the rule of files does one thing. -/
theorem lengthRule_congr {v w : Value} (hv : v.HasLength) (h : v.length? = w.length?)
    (mode : Recording) (path : Path) : lengthRule mode v path = lengthRule mode w path := by
  obtain ⟨q, hq⟩ := Value.hasLength_iff.mp hv
  have hplan : lengthPlan v = lengthPlan w := by
    rw [lengthPlan_eq hq, lengthPlan_eq (h ▸ hq), Value.hasNegativeLength, Value.hasNegativeLength,
      h]
  let further : Further Descriptor Value := fun _ _ _ _ => .pass
  rw [lengthRule_eq_run further, lengthRule_eq_run further, hplan]
  unfold Plan.run
  split <;> rfl

namespace Descriptor

section Check

variable {v w : Value} (limit : Limit) (levels : Nat) (mode : Recording) (path : Path)

theorem check_object_congr {fields : List (String × Descriptor)}
    (h : v.SameUnder (fields.map (·.1)) w) : check limit levels mode (object fields) v path =
      check limit levels mode (object fields) w path := by
  cases levels with
  | zero => rfl
  | succ levels =>
    obtain ⟨entries, others, hv, hw, hsame⟩ := h
    simp only [check, derived?, rule, hv, hw]
    congr 1
    refine List.map_congr_left fun field hfield => ?_
    rw [hsame field.1 (List.mem_map_of_mem hfield)]

theorem check_file_congr (tag : Option String)
    (h : v.SameUnder ["name", "length", "mimeType", "dataUrl", "type"] w) :
    check limit levels mode (file tag) v path = check limit levels mode (file tag) w path := by
  cases levels with
  | zero => rfl
  | succ levels =>
    have hshape : check limit levels mode (fileShape tag) v path =
        check limit levels mode (fileShape tag) w path :=
      check_object_congr limit levels mode path h
    have hlength := h.length? (by decide)
    by_cases hv : v.HasLength
    · have hrule := lengthRule_congr hv hlength mode path
      change Test.andThen _ (lengthRule mode v path) = Test.andThen _ (lengthRule mode w path)
      rw [hshape, hrule]
    · have hw : ¬w.HasLength := by rwa [Value.hasLength_iff, ← hlength, ← Value.hasLength_iff]
      rw [check_file_of_no_length hv limit levels mode tag path .pass,
        check_file_of_no_length hw limit levels mode tag path .pass, hshape]

/-- A check of a mapping asks for no more than what is under the declared names. -/
theorem check_declared {d : Descriptor} {names : List String} (hd : d.declared? = some names)
    (h : v.SameUnder names w) :
    check limit levels mode d v path = check limit levels mode d w path := by
  cases d with
  | object fields =>
    obtain rfl := Option.some.inj hd
    exact check_object_congr limit levels mode path h
  | file tag =>
    obtain rfl := Option.some.inj hd
    exact check_file_congr limit levels mode path tag h
  | image =>
    obtain rfl := Option.some.inj hd
    cases levels with
    | zero => rfl
    | succ levels =>
      have hshape : check limit levels mode imageShape v path =
          check limit levels mode imageShape w path := check_object_congr limit levels mode path h
      exact congrArg (Test.andThen · .pass) hshape
  | _ => contradiction

end Check

end Descriptor

theorem runCheck_declared {d : Descriptor} {names : List String} (hd : d.declared? = some names)
    {v w : Value} (h : v.SameUnder names w) (settings : Settings) (mode : Recording) :
    runCheck settings mode d v = runCheck settings mode d w :=
  congrFun (Descriptor.check_declared _ _ mode [] hd h) #[]

/-! ### Objects -/

namespace Store

/-- The names that a descriptor of open mappings declares. Those of an object stand in the pairs
that it holds. -/
inductive Declares (store : Store) (r : Ref) : List String → Prop where
  | object {held : Ref} {items : List Ref} {names : List String}
    (hcell : store.cell r = .descriptor .object held) (hheld : store.cell held = .tuple items)
    (hitems : List.Forall₂ (fun x name => ∃ key d, store.cell x = .tuple [key, d] ∧
      store.cell key = .plain (.string name)) items names) : Declares store r names
  | file (h : store.kind? r = some .file) :
    Declares store r ["name", "length", "mimeType", "dataUrl", "type"]
  | image (h : store.kind? r = some .image) : Declares store r ["file"]

/-- Two mappings that hold the same under some names, where what is not there is absent. -/
def SameUnder (store : Store) (names : List String) (v w : Ref) : Prop :=
  ∃ entries others, store.entries? v = some entries ∧ store.entries? w = some others ∧
    ∀ name ∈ names,
      store.Same (store.lookup (.string name) entries) (store.lookup (.string name) others)

variable {store : Store} {member : Ref → Prop} {P : Subject → Prop} {names : List String}
  {v w : Ref}

theorem hasLength_iff (hproper : store.Proper) :
    store.HasLength v ↔ ∃ q, (store.surface v).length? = some q := by
  constructor
  · rintro ⟨entries, entry, q, hv, -, -, hfound, hreal⟩
    refine ⟨q, ?_⟩
    simp [Value.length?, entries?_surface hproper, hv, entryOrNull_surface hproper, hfound, hreal]
  · rintro ⟨q, h⟩
    obtain ⟨shown, hshown, hreal⟩ := Option.bind_eq_some_iff.mp h
    rw [entries?_surface hproper, Option.map_eq_some_iff] at hshown
    obtain ⟨entries, hv, rfl⟩ := hshown
    rw [entryOrNull_surface hproper] at hreal
    have hne : store.face (store.lookup (.string "length") entries) ≠ .null := by
      intro hnull
      rw [hnull] at hreal
      contradiction
    obtain ⟨entry, hentry, hname, hfound⟩ := exists_of_lookup hproper hne
    exact ⟨entries, entry, q, hv, hentry, hname, hfound, hfound ▸ hreal⟩

theorem SameUnder.length? (hproper : store.Proper) (h : store.SameUnder names v w)
    (hname : "length" ∈ names) : (store.surface v).length? = (store.surface w).length? := by
  obtain ⟨entries, others, hv, hw, hsame⟩ := h
  have hface := (looksLike_same hproper (hsame "length" hname)).face
  have hreal : (store.face (store.lookup (.string "length") entries)).real? =
      (store.face (store.lookup (.string "length") others)).real? :=
    hface.apply_eq none fun u hu => by cases u <;> first | rfl | contradiction
  simp only [Value.length?, entries?_surface hproper, hv, hw, Option.map_some,
    Option.bind_eq_bind, Option.bind_some, entryOrNull_surface hproper, hreal]

theorem names_of_pairs {items : List Ref} {fields : List (String × Subject)}
    (hitems : List.Forall₂ (fun x name => ∃ key d, store.cell x = .tuple [key, d] ∧
      store.cell key = .plain (.string name)) items names)
    (hmap : items.map (fun x => store.fieldOf? (.held x)) =
      fields.map fun (name, s) => .ok (.string name, s)) : fields.map (·.1) = names := by
  have hread : List.Forall₂ (fun x field => store.fieldOf? (.held x) =
      .ok (Value.string field.1, field.2)) items fields := by
    have heq : List.Forall₂ Eq (items.map fun x => store.fieldOf? (.held x))
        (fields.map fun (name, s) => .ok (.string name, s)) := by
      rw [hmap]
      exact List.forall₂_refl _
    rwa [List.forall₂_map_left_iff, List.forall₂_map_right_iff] at heq
  have hnames := map_eq_of_forall₂ (f := (·.1)) (g := id) (forall₂_trans hread.flip hitems) ?_
  · rwa [List.map_id] at hnames
  · rintro field name ⟨x, hfield, key, d, hpair, hname⟩
    rw [fieldOf?_of_pair hpair hname] at hfield
    exact (Value.string.inj (Prod.mk.inj (Except.ok.inj hfield)).1).symm

/-- A descriptor of a kind holds nothing, or in its field what builders put there. -/
theorem Formed.cell_of_kind? {r : Ref} (h : store.Formed member r) {kind : Kind}
    (hkind : store.kind? r = some kind) :
    (kind.field? = none ∧ ∃ d, store.cell r = .plain (.descriptor d) ∧ d.kind = kind ∧ d.IsBuilt) ∨
      ∃ held, store.cell r = .descriptor kind held ∧ store.Fills member kind held := by
  rcases h.cell with ⟨d, hcell, hfield, hbuilt⟩ | ⟨kind', held, hcell, hfills⟩
  · have heq : d.kind = kind := by
      simpa [Store.kind?, face, hcell, Cell.face, Value.descriptorKind?] using hkind
    exact .inl ⟨heq ▸ hfield, d, hcell, heq, hbuilt⟩
  · obtain rfl := Option.some.inj ((kind?_of_descriptor hcell).symm.trans hkind)
    exact .inr ⟨held, hcell, hfills⟩

/-! #### Checks -/

section Check

variable (hproper : store.Proper) (hclosed : ∀ s, P s → store.Readable P s) (limit : Limit)
  (levels : Nat) (mode : Recording) (path : Path)
include hproper hclosed

theorem check_same {s : Subject} (hs : P s) {x y : Ref} (h : store.Same x y) :
    (store.engine.check limit levels mode s x path).Records Eq (Issue.Matches [] Reason.SameWords)
      (store.engine.check limit levels mode s y path) := by
  have hresembles : store.engine.Resembles store.engine .kept Eq Reason.SameWords
      (Against P store.Same) :=
    engine_resembles hproper (fun _ => rfl) (.inl rfl) (fun _ _ => looksLike_same hproper) hclosed
  exact Engine.check_records hresembles.mirrors (fun _ => rfl) levels mode ⟨⟨hs, rfl⟩, h⟩ [] path

/-- Rules do alike if what they hand on is the same. -/
theorem run_same {plan plan' : Plan Subject Ref} (kind : Kind)
    (h : Plan.Rel Eq Reason.SameWords (Against P store.Same) v w plan plan') :
    (plan.run (store.engine.check limit levels) mode kind v path).Records Eq
      (Issue.Matches [] Reason.SameWords)
      (plan'.run (store.engine.check limit levels) mode kind w path) := by
  refine Plan.run_related (accord_records mode [] Eq Reason.SameWords fun _ _ h => h) h ?_ ?_ kind
    path
  · rintro t x _ y q ⟨⟨ht, rfl⟩, hxy⟩
    exact check_same hproper hclosed limit levels mode q ht hxy
  · rintro t x _ y q ⟨⟨ht, rfl⟩, hxy⟩
    exact check_same hproper hclosed limit levels .silent q ht hxy

theorem check_fields {s : Subject} {fields : List (String × Subject)}
    (hform : store.form s = .object (.ok (fields.map fun (name, t) => .ok (.string name, t))))
    (hnone : store.derived? s = .ok none) (hfields : ∀ field ∈ fields, P field.2)
    (h : store.SameUnder (fields.map (·.1)) v w) :
    (store.engine.check limit levels mode s v path).Records Eq (Issue.Matches [] Reason.SameWords)
      (store.engine.check limit levels mode s w path) := by
  cases levels with
  | zero => exact fun _ _ => .error rfl
  | succ levels =>
    obtain ⟨entries, others, hv, hw, hsame⟩ := h
    have hplan : Plan.Rel Eq Reason.SameWords (Against P store.Same) v w (store.plan s v)
        (store.plan s w) := by
      simp only [plan, hform, hv, hw, List.map_map]
      refine .every ?_
      rw [List.forall₂_map_left_iff, List.forall₂_map_right_iff, List.forall₂_same]
      exact fun field hfield => .part _ ⟨⟨hfields field hfield, rfl⟩,
        hsame field.1 (List.mem_map_of_mem hfield)⟩
    refine Engine.check_succ_of_run (accord_records mode [] Eq Reason.SameWords fun _ _ h => h) ?_
      (run_same hproper hclosed limit levels mode path _ hplan)
    rw [engine_derived? hnone]
    exact .none

end Check

section Root

variable (hproper : store.Proper) (hclosed : ∀ x, member x → store.Formed member x)
  (limit : Limit) (levels : Nat) (mode : Recording) (path : Path)
include hproper hclosed

/-- A shape that no object holds asks for no more than its fields. -/
theorem check_shape {fields : List (String × Descriptor)}
    (hbuilt : (Descriptor.object fields).IsBuilt) (h : store.SameUnder (fields.map (·.1)) v w) :
    (store.engine.check limit levels mode (.shape (.object fields)) v path).Records Eq
      (Issue.Matches [] Reason.SameWords)
      (store.engine.check limit levels mode (.shape (.object fields)) w path) := by
  have hform : store.form (.shape (.object fields)) =
      .object (.ok ((fields.map fun field => (field.1, Subject.shape field.2)).map
        fun (name, t) => .ok (.string name, t))) := by
    simp only [form, List.map_map, Function.comp_def]
  refine check_fields hproper (fun s => readable_of_closed hclosed) limit levels mode path hform
    rfl ?_ (by rwa [List.map_map])
  intro field hfield
  obtain ⟨declared, hdeclared, rfl⟩ := List.mem_map.mp hfield
  exact (Descriptor.fieldsBuilt_iff fields).mp hbuilt.2 declared hdeclared

/-- A file asks for no more than its shape does: where the rule is come to, the length is one
number. -/
theorem check_file {s : Subject} {tag held : Option String}
    (hshape : store.derived? s = .ok (some (.shape (Descriptor.fileShape tag))))
    (hform : store.form s = .settled (.file held)) (hs : s.IsOf member)
    (h : store.SameUnder ["name", "length", "mimeType", "dataUrl", "type"] v w) :
    (store.engine.check limit levels mode s v path).Records Eq (Issue.Matches [] Reason.SameWords)
      (store.engine.check limit levels mode s w path) := by
  cases levels with
  | zero => exact fun _ _ => .error rfl
  | succ levels =>
    have haccord := accord_records mode [] Eq Reason.SameWords fun _ _ h => h
    have hread : ∀ s, s.IsOf member → store.Readable (·.IsOf member) s :=
      fun s => readable_of_closed hclosed
    have hbuilt : Subject.IsOf member (.shape (Descriptor.fileShape tag)) :=
      Descriptor.isBuilt_fileShape tag
    have hfields := check_shape hproper hclosed limit levels mode path hbuilt h
    have hlength := h.length? hproper (by decide)
    by_cases hv : store.HasLength v
    · obtain ⟨q, hq⟩ := (hasLength_iff hproper).mp hv
      have hplan : Plan.Rel Eq Reason.SameWords (Against (·.IsOf member) store.Same) v w
          (store.plan s v) (store.plan s w) := by
        simp only [plan, hform, settledPlan, Descriptor.plan, lengthPlan_eq hq,
          lengthPlan_eq (hlength ▸ hq), Value.hasNegativeLength, hlength]
        exact .answer _ _ rfl
      refine Engine.check_succ_of_run haccord ?_
        (run_same hproper hread limit levels mode path _ hplan)
      rw [engine_derived? hshape]
      exact .some hfields
    · have hw : ¬store.HasLength w := by
        rwa [hasLength_iff hproper, ← hlength, ← hasLength_iff hproper]
      rw [← check_eq hread _ _ _ hs, ← check_eq hread _ _ _ hs,
        check_file_of_no_length hproper hv hshape limit levels mode path .pass,
        check_file_of_no_length hproper hw hshape limit levels mode path .pass,
        check_eq hread _ _ _ hbuilt, check_eq hread _ _ _ hbuilt]
      exact haccord.andThen hfields haccord.pass

theorem check_image {r : Ref} (hcell : store.cell r = .plain (.descriptor .image))
    (h : store.SameUnder ["file"] v w) :
    (store.engine.check limit levels mode (.object r) v path).Records Eq
      (Issue.Matches [] Reason.SameWords)
      (store.engine.check limit levels mode (.object r) w path) := by
  cases levels with
  | zero => exact fun _ _ => .error rfl
  | succ levels =>
    have haccord := accord_records mode [] Eq Reason.SameWords fun _ _ h => h
    have hshape : store.derived? (.object r) = .ok (some (.shape Descriptor.imageShape)) := by
      simp only [derived?, hcell]
      rfl
    have hbuilt : Descriptor.imageShape.IsBuilt :=
      Descriptor.IsBuilt.derived (d := .image) trivial rfl
    refine Engine.check_succ_of_run haccord ?_ ?_
    · rw [engine_derived? hshape]
      exact .some (check_shape hproper hclosed limit levels mode path hbuilt h)
    · simp only [engine, plan, form, hcell, settledPlan, Descriptor.plan, Plan.bare, Plan.run]
      exact haccord.pass

/-- A check of a mapping asks for no more than what is under the declared names. -/
theorem check_declared {r : Ref} (hr : member r) (hnames : store.Declares r names)
    (h : store.SameUnder names v w) :
    (store.engine.check limit levels mode (.object r) v path).Records Eq
      (Issue.Matches [] Reason.SameWords)
      (store.engine.check limit levels mode (.object r) w path) := by
  have hread : ∀ s, s.IsOf member → store.Readable (·.IsOf member) s :=
    fun s => readable_of_closed hclosed
  cases hnames with
  | @object held items _ hcell hheld hitems =>
    cases (hclosed r hr).fills hcell with
    | @object _ pairs hheld' hpairs =>
      obtain rfl := Cell.tuple.inj (hheld.symm.trans hheld')
      obtain ⟨fields, hfields, hmap⟩ := fieldOf?_of_pairs hpairs
      have hform : store.form (.object r) =
          .object (.ok (fields.map fun (name, t) => .ok (.string name, t))) := by
        simp only [form, hcell, formOf, parts?, hheld, List.map_map, Function.comp_def, hmap]
      have hsame : fields.map (·.1) = names := names_of_pairs hitems hmap
      exact check_fields hproper hread limit levels mode path hform
        (derived?_of_descriptor hcell (by decide)) hfields (hsame ▸ h)
  | file hkind =>
    rcases (hclosed r hr).cell_of_kind? hkind with ⟨hnone, -⟩ | ⟨held, hcell, hfills⟩
    · contradiction
    · cases hfills with
      | file tag hheld =>
        have hshape : store.derived? (.object r) =
            .ok (some (.shape (Descriptor.fileShape tag))) := by
          simp only [derived?, hcell, fileShape?_of_tag hheld]
          rfl
        have hform : store.form (.object r) = .settled (.file none) := by
          simp only [form, hcell, formOf]
        exact check_file hproper hclosed limit levels mode path hshape hform hr h
  | image hkind =>
    rcases (hclosed r hr).cell_of_kind? hkind with
      ⟨-, d, hcell, himage, hbuilt⟩ | ⟨held, hcell, hfills⟩
    · obtain rfl : d = .image := by cases d <;> first | rfl | contradiction
      exact check_image hproper hclosed limit levels mode path hcell h
    · cases hfills

end Root

theorem runCheck_declared (hproper : store.Proper) {r : Ref} (hr : store.IsSchema (.object r))
    (hnames : store.Declares r names) (h : store.SameUnder names v w) (settings : Settings)
    (mode : Recording) :
    Recorded Eq (Issue.Matches [] Reason.SameWords) #[] #[]
      (store.runCheck settings mode (.object r) v)
      (store.runCheck settings mode (.object r) w) := by
  rw [runCheck_eq_check hr, runCheck_eq_check hr]
  obtain ⟨member, hmem, hclosed⟩ := hr
  exact check_declared hproper hclosed _ _ mode [] hmem hnames h #[] #[]

/-- Linked records, which are objects with an optional `next`; a mapping with nothing in it, and one
that holds an absent `next` and under another name itself. -/
def linked : Store := ⟨#[.plain .null, .plain (.string "next"), .descriptor .optional 5,
  .tuple [1, 2], .tuple [3], .descriptor .object 4, .dict [], .view [(8, 7), (1, 0)],
  .plain (.string "self")]⟩

theorem linked_proper : linked.Proper := .of_mem rfl (by decide)

theorem linked_isSchema : linked.IsSchema (.object 5) := by
  refine ⟨fun r => r = 2 ∨ r = 5, .inr rfl, ?_⟩
  rintro r (rfl | rfl)
  · exact .optional rfl (show 5 = 2 ∨ 5 = 5 from .inr rfl)
  · refine .object rfl rfl fun x hx => ?_
    obtain rfl := List.mem_singleton.mp hx
    exact ⟨1, "next", 2, rfl, rfl, show 2 = 2 ∨ 2 = 5 from .inl rfl⟩

end Store

/-! ### Main statement -/

/-- Where an issue is, what kind of descriptor it is of, and what it says. -/
def Issue.told (i : Issue) : Path × Kind × String := (i.path, i.kind, i.message)

/-- Mappings that hold the same under the names that an object, a file or an image declares are
validated and explained alike, whatever else they hold. -/
theorem declared_names_decide (settings : Settings) :
    (∀ d names, d.declared? = some names → ∀ v w, v.SameUnder names w →
      validate settings d v = validate settings d w ∧
        explain settings d v = explain settings d w) ∧
    ∀ store : Store, store.Proper → ∀ r names, store.IsSchema (.object r) →
      store.Declares r names → ∀ v w, store.SameUnder names v w →
      store.validate settings r v = store.validate settings r w ∧
        (store.explain settings r v).map (·.summary Issue.told) =
          (store.explain settings r w).map (·.summary Issue.told) := by
  constructor
  · intro d names hd v w h
    have hrun := runCheck_declared hd h settings
    exact ⟨by rw [validate, validate, hrun], by simp only [explain, hrun]⟩
  · intro store hproper r names hr hnames v w h
    have hruns := Store.runCheck_declared hproper hr hnames h settings
    have htold : ∀ i j : Issue, i.Alike j → i.told = j.told := by
      intro i j hij
      have hpath : i.path = j.path := hij.path
      have hmessage : i.message = j.message := hij.reason
      simp only [Issue.told, hpath, hij.kind, hmessage]
    exact ⟨Store.validate_of_recorded hproper (hruns .silent),
      Store.explain_of_recorded hproper hr htold htold hruns⟩

/-- A file without a length and one whose length is absent, next to a key that is no name; and as
objects a mapping with nothing in it and one that holds itself. -/
theorem declared_names_decide_linked :
    let v := Value.dict [(.string "name", .string "a")]
    let w := Value.view [(.string "length", .null), (.int 3, .list []),
      (.string "name", .string "a")]
    let names := ["name", "length", "mimeType", "dataUrl", "type"]
    let store := Store.linked
    (Descriptor.file none).declared? = some names ∧ v.SameUnder names w ∧
      validate .default (.file none) v = .ok false ∧
      validate .default (.file none) w = .ok false ∧
      explain .default (.file none) v = explain .default (.file none) w ∧
      store.Proper ∧ store.IsSchema (.object 5) ∧ store.Declares 5 ["next"] ∧
      store.SameUnder ["next"] 6 7 ∧ store.validate .default 5 6 = .ok true ∧
      store.validate .default 5 7 = .ok true ∧
      (store.explain .default 5 6).map (·.summary Issue.told) =
        (store.explain .default 5 7).map (·.summary Issue.told) := by
  intro v w names store
  obtain ⟨hvalues, hobjects⟩ := declared_names_decide .default
  have hsame : v.SameUnder names w :=
    ⟨_, _, rfl, rfl, by simp [names, Value.entryOrNull, Value.lookup]⟩
  have hfile := hvalues (.file none) names rfl v w hsame
  have hunder : store.SameUnder ["next"] 6 7 :=
    ⟨_, _, rfl, rfl, fun name hname => .inl (by obtain rfl := List.mem_singleton.mp hname; rfl)⟩
  have hnames : store.Declares 5 ["next"] :=
    .object rfl rfl (.cons ⟨1, 2, rfl, rfl⟩ .nil)
  have hlinked := hobjects store Store.linked_proper 5 ["next"] Store.linked_isSchema hnames 6 7
    hunder
  have hno : validate .default (.file none) v = .ok false := rfl
  have hyes : store.validate .default 5 6 = .ok true := rfl
  exact ⟨rfl, hsame, hno, hfile.1 ▸ hno, hfile.2, Store.linked_proper, Store.linked_isSchema,
    hnames, hunder, hyes, hlinked.1 ▸ hyes, hlinked.2⟩

end DataSchema
