import DataSchema.Proofs.Separation
import DataSchema.Proofs.Store.Safety

/-!
Issues at different places, for objects that may hold themselves. The shapes that descriptors
derive are no objects, and none of their parts is a record. An explanation lists what the engine
finds in the same words, and words tell whether an issue is about a key.
-/

namespace DataSchema

/-! ### Words -/

theorem head?_append {s : String} {c : Char} (h : s.toList.head? = some c) (t : String) :
    (s ++ t).toList.head? = some c := by
  rw [String.toList_append, List.head?_append, h]
  rfl

/-- Only what is said about a key begins as it does. -/
theorem Reason.isOfKey_eq (reason : Reason) :
    reason.isOfKey = (reason.message.toList.head? == some 'r') := by
  have hbegins : ∀ {c : Char}, reason.message.toList.head? = some c →
      (reason.message.toList.head? == some 'r') = (c == 'r') := by
    intro c h
    rw [h]
    rfl
  cases reason with
  | negativeLength => exact (hbegins (c := 'f') rfl).symm
  | noAlternative => exact (hbegins (head?_append (head?_append rfl _) _)).symm
  | notLiteral | otherKind =>
    exact (hbegins (head?_append (head?_append (head?_append rfl _) _) _)).symm
  | _ => exact (hbegins (head?_append rfl _)).symm

theorem Reason.SameWords.isOfKey {r r' : Reason} (h : r.SameWords r') :
    r.isOfKey = r'.isOfKey := by
  rw [Reason.isOfKey_eq, Reason.isOfKey_eq, h]

theorem Issue.Alike.path {i j : Issue} (h : i.Alike j) : i.path = j.path := by
  obtain ⟨hpath, -, -⟩ := h
  simpa using hpath

theorem Issue.Alike.isOfKey {i j : Issue} (h : i.Alike j) :
    i.reason.isOfKey = j.reason.isOfKey := by
  obtain ⟨-, -, hreason⟩ := h
  exact Reason.SameWords.isOfKey hreason

theorem Issue.Apart.of_alike {i j i' j' : Issue} (h : i.Apart j) (hi : i.Alike i')
    (hj : j.Alike j') : i'.Apart j' := by
  intro heq
  rw [← hi.path, ← hj.path] at heq
  rw [← hi.isOfKey, ← hj.isOfKey]
  exact h heq

theorem issuesAt_alike {found issues : List Issue} (path : Path)
    (h : List.Forall₂ Issue.Alike found issues) :
    (issuesAt path found).map (fun i => (i.kind, i.message)) =
      (issuesAt path issues).map fun i => (i.kind, i.message) := by
  induction h with
  | nil => rfl
  | @cons i j found issues hij _ ih =>
    have hsame : (i.kind, i.message) = (j.kind, j.message) := by
      obtain ⟨-, hkind, hreason⟩ := hij
      exact Prod.ext hkind hreason
    unfold issuesAt at ih ⊢
    rw [List.filter_cons, List.filter_cons, hij.path]
    split
    · rw [List.map_cons, List.map_cons, hsame, ih]
    · exact ih

namespace Store

variable {store : Store} {P : Subject → Prop} {Q : Ref → Prop}

/-- The keys of entries that are no texts. -/
def otherKeys (store : Store) (entries : List (Ref × Ref)) : List Ref :=
  (entries.map (·.1)).filter fun key => (store.name? key).isNone

/-- What has fields has no two under one name. -/
def FieldsOnce (store : Store) (s : Subject) : Prop :=
  ∀ fields : List (String × Subject),
    store.form s = .object (.ok (fields.map fun (name, c) => .ok (.string name, c))) →
      (fields.map (·.1)).Nodup

/-- A schema in which no two fields of an object have one name, which builders see to. -/
def IsSchemaOnce (store : Store) (s : Subject) : Prop :=
  ∃ member : Ref → Prop, s.IsOf member ∧
    ∀ x, member x → store.Formed member x ∧ store.FieldsOnce (.object x)

theorem IsSchemaOnce.isSchema {s : Subject} (h : store.IsSchemaOnce s) : store.IsSchema s := by
  obtain ⟨member, hs, hclosed⟩ := h
  exact ⟨member, hs, fun x hx => (hclosed x hx).1⟩

theorem fieldsOnce_shape {d : Descriptor} (hd : d.IsBuilt) : store.FieldsOnce (.shape d) := by
  intro fields hform
  cases d with
  | object declared =>
    have hfields : List.Forall₂ Eq _ _ :=
      List.forall₂_eq_eq_eq ▸ Except.ok.inj (Form.object.inj hform)
    rw [List.forall₂_map_left_iff, List.forall₂_map_right_iff] at hfields
    have hnames : declared.map (·.1) = fields.map (·.1) :=
      map_eq_of_forall₂ hfields fun _ _ h => Value.string.inj (Prod.mk.inj (Except.ok.inj h)).1
    exact hnames ▸ hd.1
  | _ => contradiction

theorem fieldsOnce_of_closed {member : Ref → Prop}
    (hclosed : ∀ x, member x → store.FieldsOnce (.object x)) {s : Subject} (hs : s.IsOf member) :
    store.FieldsOnce s := by
  cases s with
  | object r => exact hclosed r hs
  | shape d => exact fieldsOnce_shape hs
  | orAbsent | nothing => exact fun _ hform => nomatch hform

/-! ### Records -/

theorem reaches_shape {d : Descriptor} {path : Path} {t : Subject}
    (h : store.Reaches (.shape d) path t) : ∃ e, t = .shape e ∧ d.Reaches path e := by
  generalize hs : Subject.shape d = s at h
  induction h generalizing d with
  | here => exact ⟨d, hs.symm, .here d⟩
  | derived hd _ ih =>
    subst hs
    obtain ⟨shape, hshape, rfl⟩ := Option.map_eq_some_iff.mp (Except.ok.inj hd)
    obtain ⟨e, rfl, hreaches⟩ := ih rfl
    exact ⟨e, rfl, .derived hshape hreaches⟩
  | element hform position _ ih =>
    subst hs
    cases d with
    | list item =>
      obtain ⟨e, rfl, hreaches⟩ := ih (Form.list.inj hform)
      exact ⟨e, rfl, .element position hreaches⟩
    | _ => contradiction
  | entry hform name _ ih =>
    subst hs
    cases d with
    | record item =>
      obtain ⟨e, rfl, hreaches⟩ := ih (Form.record.inj hform)
      exact ⟨e, rfl, .entry name hreaches⟩
    | _ => contradiction
  | field hform hmem _ ih =>
    subst hs
    cases d with
    | object fields =>
      obtain rfl := Except.ok.inj (Form.object.inj hform)
      obtain ⟨⟨name, d⟩, hfield, heq⟩ := List.mem_map.mp hmem
      obtain ⟨hname, hshape⟩ := Prod.mk.inj (Except.ok.inj heq)
      obtain rfl := Value.string.inj hname
      obtain ⟨e, rfl, hreaches⟩ := ih hshape
      exact ⟨e, rfl, .field hfield hreaches⟩
    | _ => contradiction

/-- Derived shapes have no records among their parts. -/
theorem recordless_of_derived {s shape t : Subject} (hread : store.Readable P s)
    (hd : store.derived? s = .ok (some shape)) {path : Path} (h : store.Reaches shape path t) :
    store.subjectKind t ≠ .record := by
  have hrecordless : ∀ d : Descriptor, d.Recordless → shape = .shape d →
      store.subjectKind t ≠ .record := by
    rintro d hless rfl
    obtain ⟨e, rfl, hreaches⟩ := reaches_shape h
    exact hless path e hreaches
  obtain ⟨kind, shape', -, hshape, hclosed⟩ := hread
  obtain rfl := Except.ok.inj (hshape.symm.trans hd)
  generalize store.form s = form at hclosed
  cases hclosed with
  | optional =>
    cases h with
    | here => simp [subjectKind, kindOf?, Except.toOption]
    | derived hd => exact absurd (Except.ok.inj hd) (Option.some_ne_none _).symm
    | element hform | entry hform | field hform => contradiction
  | optionalShape => exact hrecordless _ (Descriptor.recordless_union _) rfl
  | file => exact hrecordless _ (Descriptor.recordless_fileShape _) rfl
  | image => exact hrecordless _ (Descriptor.recordless_of_derived (d := .image) rfl) rfl

/-! ### Plans -/

theorem isOfKey_own {s : Subject} (hread : store.Readable P s) {v : Ref} {reason : Reason}
    (h : (store.plan s v).reason? = some reason) : reason.isOfKey = false := by
  have hbare : ∀ plan : Plan Descriptor Value,
      (plan.bare : Plan Subject Ref).reason? = plan.reason? := fun plan => by cases plan <;> rfl
  have hsettled : ∀ d, (store.settledPlan d v).reason? = some reason →
      reason.isOfKey = false := by
    intro d h
    unfold settledPlan at h
    split at h
    · exact Option.some.inj h ▸ rfl
    · rw [hbare] at h
      exact Descriptor.isOfKey_own h
  obtain ⟨kind, shape, -, -, hclosed⟩ := hread
  unfold plan at h
  generalize store.form s = form at h hclosed
  cases hclosed with
  | plain | optional | optionalShape | file | image => exact hsettled _ h
  | literal p =>
    simp only [isAlteredLiteral?_toValue] at h
    exact Option.some.inj h ▸ rfl
  | list | record | object | type =>
    dsimp only at h
    split at h
    all_goals
      first
      | contradiction
      | exact Option.some.inj h ▸ rfl
  | union => exact Option.some.inj h ▸ rfl

/-- What derives a shape is no record, and its rule hands nothing on. -/
theorem settled_of_derived {s shape : Subject} (hread : store.Readable P s)
    (hd : store.derived? s = .ok (some shape)) :
    store.subjectKind s ≠ .record ∧ ∃ d, store.form s = .settled d := by
  obtain ⟨kind, shape', hkind, hshape, hclosed⟩ := hread
  obtain rfl := Except.ok.inj (hshape.symm.trans hd)
  rw [subjectKind_eq hkind]
  generalize store.form s = form at hclosed
  cases hclosed with
  | optional c | optionalShape c | file | image => exact ⟨by decide, _, rfl⟩

theorem derived?_of_engine {s shape : Subject} (hread : store.Readable P s)
    (hd : store.engine.derived? s = some shape) : store.derived? s = .ok (some shape) := by
  obtain ⟨kind, shape', -, hshape, -⟩ := hread
  obtain rfl := (engine_derived? hshape).symm.trans hd
  exact hshape

/-- Names of fields and of entries are met once, and so is each position. -/
theorem engine_parting (hread : ∀ s, P s → store.Readable P s)
    (hfields : ∀ s, P s → store.FieldsOnce s) (hwhole : store.Whole Q)
    (honce : store.NamedOnce Q) : store.engine.Parting fun s v => P s ∧ Q v where
  once := by
    rintro s v ⟨hs, hv⟩ items hplan
    cases handsOn_of_plan (hread s hs) hplan with
    | elements => exact Engine.nodup_steps_elements _ _
    | entries hform hentries =>
      refine Engine.nodup_steps_names ?_ (honce v hv _ hentries)
      rintro ⟨key, w⟩
      dsimp only
      cases store.name? key <;> rfl
    | @fields fields hform =>
      have hnames : (fields.filterMap fun field => some field.1).Nodup := by
        rw [List.filterMap_eq_map']
        exact hfields s hs fields hform
      exact Engine.nodup_steps_names (fun _ => rfl) hnames
    | nothing => exact .nil
  blemish := by
    rintro s v ⟨hs, -⟩ items hplan reason hmem
    cases handsOn_of_plan (hread s hs) hplan with
    | elements => simp at hmem
    | entries hform =>
      obtain ⟨kind, shape, hkind, -, hclosed⟩ := hread s hs
      rw [hform] at hclosed
      cases hclosed
      refine ⟨subjectKind_eq hkind, ?_⟩
      obtain ⟨⟨key, w⟩, -, heq⟩ := List.mem_map.mp hmem
      dsimp only at heq
      split at heq
      · contradiction
      · exact Item.blemish.inj heq ▸ rfl
    | fields => simp at hmem
    | nothing => simp at hmem
  own := fun ⟨hs, _⟩ _ hreason => isOfKey_own (hread _ hs) hreason
  derived := by
    rintro s shape v ⟨hs, -⟩ hd
    obtain ⟨hkind, d, hform⟩ := settled_of_derived (hread s hs) (derived?_of_engine (hread s hs) hd)
    refine ⟨hkind, fun items hplan => ?_⟩
    simp only [engine, plan, hform] at hplan
    exact settledPlan_every hplan
  shape := by
    rintro s shape t v w path ⟨hs, hv⟩ hd hleads
    have hderived := derived?_of_engine (hread s hs) hd
    obtain ⟨kind, shape', -, hshape, hclosed⟩ := hread s hs
    obtain rfl := Except.ok.inj (hshape.symm.trans hderived)
    obtain ⟨hreaches, -⟩ := reaches_of_leads hread hwhole honce hleads (hclosed.shape _ rfl) hv
    exact recordless_of_derived (hread s hs) hderived hreaches

/-- A path down to a record is walked by the engine where there is a mapping at its end. -/
theorem leads_of_reaches (hproper : store.Proper) {s t : Subject} {path : Path}
    (h : store.Reaches s path t) {v w : Ref} (hfollow : store.follow? v path = some w)
    (hw : store.entries? w ≠ none) : store.engine.Leads s v path t w := by
  have habsent : ∀ path, store.follow? absent path ≠ some w := by
    intro path hbelow
    have hentries : store.entries? absent = none := by simp only [entries?, hproper.absent]
    have helements : store.elements? absent = none := by simp only [elements?, hproper.absent]
    cases path with
    | nil =>
      obtain rfl := Option.some.inj hbelow
      exact hw hentries
    | cons step path => cases step <;> simp [follow?, stepTo?, hentries, helements] at hbelow
  induction h generalizing v with
  | here s =>
    obtain rfl := Option.some.inj hfollow
    exact .here s v
  | derived hd _ ih => exact .derived (engine_derived? hd) (ih hfollow)
  | @element s item t path hform position _ ih =>
    obtain ⟨u, hu, hbelow⟩ := Option.bind_eq_some_iff.mp hfollow
    obtain ⟨elements, hv, hu⟩ := Option.bind_eq_some_iff.mp hu
    split at hu
    · next hle =>
      obtain ⟨n, rfl⟩ := Int.eq_ofNat_of_zero_le hle
      have hplan : store.engine.plan s v =
          .every (elements.mapIdx fun i w => .part item w (.index i)) := by
        simp only [engine, plan, hform, hv]
      refine .part hplan ?_ (ih hbelow)
      obtain ⟨hlt, hget⟩ := List.getElem?_eq_some_iff.mp hu
      exact List.mem_mapIdx.mpr ⟨n, hlt, by rw [← hget]; rfl⟩
    · contradiction
  | @entry s item t path hform name _ ih =>
    obtain ⟨u, hu, hbelow⟩ := Option.bind_eq_some_iff.mp hfollow
    obtain ⟨entries, hv, rfl⟩ := Option.map_eq_some_iff.mp hu
    refine .part (plan_record hform hv) ?_ (ih hbelow)
    rcases lookup_cases name entries with hnone | ⟨⟨key, u⟩, hentry, hname, hlookup⟩
    · exact absurd (hnone ▸ hbelow) (habsent path)
    · refine List.mem_map.mpr ⟨_, hentry, ?_⟩
      dsimp only
      rw [hname, hlookup]
  | @field s c t fields name path hform hmem _ ih =>
    obtain ⟨u, hu, hbelow⟩ := Option.bind_eq_some_iff.mp hfollow
    obtain ⟨entries, hv, rfl⟩ := Option.map_eq_some_iff.mp hu
    have hplan : ∃ items, store.engine.plan s v = .every items ∧
        .part c (store.lookup (.string name) entries) (.key name) ∈ items := by
      simp only [engine, plan, hform, hv]
      exact ⟨_, rfl, List.mem_map.mpr ⟨_, hmem, rfl⟩⟩
    obtain ⟨items, hplan, hpart⟩ := hplan
    exact .part hplan hpart (ih hbelow)

/-! ### Explanations -/

/-- A path leads to a record and to a mapping alike, as for values. -/
def RecordAt (store : Store) (s : Subject) (v : Ref) (path : Path) (entries : List (Ref × Ref)) :
    Prop :=
  ∃ t item w, store.Reaches s path t ∧ store.form t = .record item ∧
    store.follow? v path = some w ∧ store.entries? w = some entries

/-- No failing place is listed twice, as for values. -/
structure ListedOnce (store : Store) (settings : Settings) (s : Subject) (v : Ref)
    (issues : List Issue) : Prop where
  apart : issues.Pairwise Issue.Apart
  ofKey {i : Issue} (hi : i ∈ issues) (hkey : i.reason.isOfKey = true) :
    ∃ entries, store.RecordAt s v i.path entries ∧ ∃ key ∈ store.otherKeys entries,
      i.kind = .record ∧ i.message = (Reason.keyNotText (store.tree key)).message
  keys (hall : settings.collectAll.truthy = true) {path : Path} {entries : List (Ref × Ref)}
    (h : store.RecordAt s v path entries) :
    (issuesAt path issues).map (fun i => (i.kind, i.message)) =
      (store.otherKeys entries).map fun key =>
        (.record, (Reason.keyNotText (store.tree key)).message)

theorem blemishes_record (item : Subject) (entries : List (Ref × Ref)) :
    (entries.map fun (key, w) => match store.name? key with
      | some name => Item.part item w (.key name)
      | none => .blemish (.keyNotText (store.tree key))).filterMap Item.blemish? =
        (store.otherKeys entries).map fun key => .keyNotText (store.tree key) := by
  unfold otherKeys
  induction entries with
  | nil => rfl
  | cons entry entries ih =>
    obtain ⟨key, w⟩ := entry
    rw [List.map_cons, List.map_cons, List.filterMap_cons, List.filter_cons, ih]
    dsimp only
    cases store.name? key <;> rfl

theorem listedOnce_objects (hproper : store.Proper) {settings : Settings} {r v : Ref}
    (hr : store.IsSchemaOnce (.object r)) (hv : store.NamesOnce v) {report : Report}
    (h : store.explain settings r v = .ok report) :
    store.ListedOnce settings (.object r) v report.issues := by
  obtain ⟨found, hall, hfinds⟩ := finds_of_explain hproper hr.isSchema h
  obtain ⟨member, hmem, hclosed⟩ := hr
  obtain ⟨Q, hQ, hwhole, honce⟩ := hv
  have hread := fun s => readable_of_closed (fun x hx => (hclosed x hx).1) (s := s)
  have hfields := fun s => fieldsOnce_of_closed (fun x hx => (hclosed x hx).2) (s := s)
  have hconfined := engine_confined (X := fun _ _ => True) hread hwhole fun _ _ _ _ _ _ _ => trivial
  have hparting := engine_parting hread hfields hwhole honce
  have hmode := settings.writes
  refine ⟨?_, ?_, ?_⟩
  · have hapart := hfinds.apart hconfined hparting hmode ⟨hmem, hQ⟩
    exact pairwise_of_forall₂ hall hapart fun i j i' j' hij hi hj => hij.of_alike hi hj
  · intro i hi hkey
    obtain ⟨j, hj, halike⟩ : ∃ j ∈ found, j.Alike i := exists_of_mem_left hall.flip hi
    rw [← halike.isOfKey] at hkey
    obtain ⟨t, w, items, hleads, hkind, hrecord, hplan, hblemish⟩ :=
      hfinds.blemished hconfined hparting hmode ⟨hmem, hQ⟩ hj hkey
    obtain ⟨hreaches, hfollow, ht⟩ := reaches_of_leads hread hwhole honce hleads hmem hQ
    rw [halike.path] at hreaches hfollow
    obtain ⟨-, hsame, hwords⟩ := halike
    cases handsOn_of_plan (hread t ht) hplan with
    | elements | fields => simp at hblemish
    | nothing hother => exact absurd hrecord hother
    | @entries item hform entries hw =>
      refine ⟨entries, ⟨t, item, w, hreaches, hform, hfollow, hw⟩, ?_⟩
      have hreason : j.reason ∈ (store.otherKeys entries).map
          fun key => Reason.keyNotText (store.tree key) := by
        rw [← blemishes_record item]
        exact List.mem_filterMap.mpr ⟨_, hblemish, rfl⟩
      obtain ⟨key, hin, heq⟩ := List.mem_map.mp hreason
      refine ⟨key, hin, ?_, ?_⟩
      · rw [← hsame, hkind, hrecord]
      · rw [heq]
        exact hwords.symm
  · intro hcollect path entries hrecord
    obtain ⟨t, item, w, hreaches, hform, hfollow, hw⟩ := hrecord
    rw [if_pos hcollect] at hfinds
    have hleads := leads_of_reaches hproper hreaches hfollow (by simp [hw])
    have ht := (reaches_of_leads hread hwhole honce hleads hmem hQ).2.2
    obtain ⟨kind, shape, hkind, -, hformed⟩ := hread t ht
    rw [hform] at hformed
    cases hformed
    have hat : issuesAt path found = ((store.otherKeys entries).map
        fun key => .keyNotText (store.tree key)).map fun reason => ⟨path, .record, reason⟩ := by
      rw [← blemishes_record item]
      exact hfinds.issuesAt_record hconfined hparting ⟨hmem, hQ⟩ hleads (subjectKind_eq hkind)
        (plan_record hform hw)
    rw [← issuesAt_alike path hall, hat, List.map_map, List.map_map]
    rfl

/-- Records of records of numbers, and a mapping that holds itself under three keys, of which two
are no texts. -/
def ledger : Store := ⟨#[.plain .null, .plain (.descriptor .number), .descriptor .record 1,
  .descriptor .record 2, .dict [(5, 4), (6, 4), (7, 4)], .plain (.string "a"), .plain (.int 1),
  .plain (.int 2)]⟩

theorem ledger_proper : ledger.Proper := .of_mem rfl (by decide)

theorem ledger_isSchemaOnce : ledger.IsSchemaOnce (.object 3) := by
  refine ⟨fun r => r = 1 ∨ r = 2 ∨ r = 3, .inr (.inr rfl), ?_⟩
  rintro r (rfl | rfl | rfl)
  · exact ⟨.leaf (d := .number) rfl rfl trivial, fun _ hform => nomatch hform⟩
  · exact ⟨.record rfl (show 1 = 1 ∨ _ from .inl rfl), fun _ hform => nomatch hform⟩
  · exact ⟨.record rfl (show 2 = 1 ∨ 2 = 2 ∨ _ from .inr (.inl rfl)),
      fun _ hform => nomatch hform⟩

theorem ledger_namesOnce : ledger.NamesOnce 4 := by
  refine ⟨fun _ => True, trivial, whole_all, ?_⟩
  intro r _ entries hentries
  match r with
  | 4 =>
    obtain rfl := Option.some.inj hentries
    decide
  | 0 | 1 | 2 | 3 | 5 | 6 | 7 | _ + 8 => contradiction

end Store

/-- No failing place is listed twice but for keys of records that are no texts, of which each is
listed once at its record. So it is for values, and for objects that may hold themselves. -/
theorem failing_places_are_listed_once :
    (∀ settings d v report, d.IsBuilt → v.everywhere Value.namesOnce = true →
      explain settings d v = .ok report → ListedOnce settings d v report.issues) ∧
    ∀ store : Store, store.Proper → ∀ settings r v report, store.IsSchemaOnce (.object r) →
      store.NamesOnce v → store.explain settings r v = .ok report →
      store.ListedOnce settings (.object r) v report.issues :=
  ⟨fun _ _ _ _ hd hv h => listedOnce_values hd hv h,
    fun _ hproper _ _ _ _ hr hv h => Store.listedOnce_objects hproper hr hv h⟩

/-- A record with two keys that are no texts and a failure under a third in a field beside another
field that fails, and records of records of numbers against a mapping that holds itself. -/
theorem failing_places_are_listed_once_ledger :
    let d := Descriptor.object [("a", .record .number), ("b", .string)]
    let v := Value.dict [(.string "a", .dict [(.int 1, .null), (.string "c", .null),
      (.int 2, .null)])]
    let listed : List Issue := [⟨[.key "a"], .record, .keyNotText (.int 1)⟩,
      ⟨[.key "a", .key "c"], .number, .notNumber .null⟩,
      ⟨[.key "a"], .record, .keyNotText (.int 2)⟩, ⟨[.key "b"], .string, .notText .null⟩]
    let store := Store.ledger
    let one : Reason := .keyNotText (.int 1)
    let two : Reason := .keyNotText (.int 2)
    let told : List Issue := [⟨[.key "a", .key "a"], .number, .notNumber (store.tree 4)⟩,
      ⟨[.key "a"], .record, one⟩, ⟨[.key "a"], .record, two⟩, ⟨[], .record, one⟩,
      ⟨[], .record, two⟩]
    d.IsBuilt ∧ v.everywhere Value.namesOnce = true ∧
      explain .default d v = .ok ⟨.object, false, listed⟩ ∧ ListedOnce .default d v listed ∧
      store.Proper ∧ store.IsSchemaOnce (.object 3) ∧ store.NamesOnce 4 ∧
      store.explain .default 3 4 = .ok ⟨.record, false, told⟩ ∧
      store.ListedOnce .default (.object 3) 4 told := by
  intro d v listed store one two told
  obtain ⟨hvalues, hobjects⟩ := failing_places_are_listed_once
  have hbuilt : d.IsBuilt := by simp [d, Descriptor.IsBuilt, Descriptor.FieldsBuilt]
  have hnames : v.everywhere Value.namesOnce = true := by decide
  have hlisted : explain .default d v = .ok ⟨.object, false, listed⟩ := rfl
  have htold : store.explain .default 3 4 = .ok ⟨.record, false, told⟩ := rfl
  exact ⟨hbuilt, hnames, hlisted, hvalues _ _ _ _ hbuilt hnames hlisted, Store.ledger_proper,
    Store.ledger_isSchemaOnce, Store.ledger_namesOnce, htold,
    hobjects store Store.ledger_proper _ _ _ _ Store.ledger_isSchemaOnce Store.ledger_namesOnce
      htold⟩

end DataSchema
