import DataSchema.Proofs.Interchange
import DataSchema.Proofs.Location
import DataSchema.Proofs.Reordering

/-!
Objects that look alike. What a check asks of an object is what it is on its surface, what its
elements are and what it has under names. Objects that agree on this, and whose parts do again,
cannot be told apart by checks, and are explained in words that correspond.
-/

namespace DataSchema

/-- What a report says if each issue is told in some way. -/
def Report.summary {α : Type} (tell : Issue → α) (report : Report) : Kind × Bool × List α :=
  (report.kind, report.ok, report.issues.map tell)

/-- The reasons that name no more of what was found than its class. -/
def Reason.ofClass : List (Value → Reason) :=
  [notAbsent, notBool, notText, notSequence, notMapping, notDescriptor]

theorem SameFace.symm {v w : Value} (h : SameFace v w) : SameFace w v := by
  cases h with
  | same => exact .same _
  | holding hv hw hkind => exact .holding hw hv hkind.symm

theorem SameFace.trans {u v w : Value} (h : SameFace u v) (h' : SameFace v w) : SameFace u w := by
  cases h with
  | same => exact h'
  | holding hu hv hkind =>
    cases h' with
    | same => exact .holding hu hv hkind
    | holding _ hw hkind' => exact .holding hu hw (hkind.trans hkind')

namespace Store

/-- What is said of the one object corresponds to what is said of the other. -/
structure Worded (store : Store) (M : Reason → Reason → Prop) (x y : Ref) : Prop where
  named {v w : Value} (hv : v.typeName = (store.face x).typeName)
    (hw : w.typeName = (store.face y).typeName) : ∀ reason ∈ Reason.ofClass, M (reason v) (reason w)
  shown (reason : Value → Reason) : M (reason (store.tree x)) (reason (store.tree y))

/-- Two entries under one name or under no name, whose values are related. -/
structure EntryLike (store : Store) (M : Reason → Reason → Prop) (Q : Ref → Ref → Prop)
    (entry other : Ref × Ref) : Prop where
  name : store.name? entry.1 = store.name? other.1
  key : M (.keyNotText (store.tree entry.1)) (.keyNotText (store.tree other.1))
  value : Q entry.2 other.2

/-- Two objects that cannot be told apart by one look, and whose parts are related. Entries may be
reordered only where they are found by their names. -/
structure LooksLike (store : Store) (order : Arrangement) (M : Reason → Reason → Prop)
    (Q : Ref → Ref → Prop) (x y : Ref) : Prop where
  face : SameFace (store.face x) (store.face y)
  words : store.Worded M x y
  elements : Option.Rel (List.Forall₂ Q) (store.elements? x) (store.elements? y)
  entries : Option.Rel (Arranged order (store.EntryLike M Q)) (store.entries? x) (store.entries? y)
  once (h : order = .free) {entries : List (Ref × Ref)} (hx : store.entries? x = some entries) :
    (store.names entries).Nodup

/-- What is found under a name. -/
def entryAt? (store : Store) (name : String) (entries : List (Ref × Ref)) : Option Ref :=
  (entries.find? fun entry => store.name? entry.1 == some name).map (·.2)

variable {store : Store} {order : Arrangement} {M : Reason → Reason → Prop}
  {Q : Ref → Ref → Prop} {P : Subject → Prop}

theorem lookup_eq_entryAt? (name : String) (entries : List (Ref × Ref)) :
    store.lookup (.string name) entries = (store.entryAt? name entries).getD absent := rfl

theorem lookup_surface (name : String) (entries : List (Ref × Ref)) :
    Value.lookup name (entries.map fun entry => (store.face entry.1, store.face entry.2)) =
      (store.entryAt? name entries).map store.face := by
  induction entries with
  | nil => rfl
  | cons entry entries ih =>
    by_cases hkey : store.face entry.1 = .string name
    · have hname := name?_eq_some_iff.mpr hkey
      simp [hkey, Value.lookup_cons_self, entryAt?, hname]
    · have hne : (store.name? entry.1 == some name) = false := by
        simpa using mt name?_eq_some_iff.mp hkey
      simp only [List.map_cons, Value.lookup_cons_of_ne hkey, ih, entryAt?, List.find?_cons, hne]

theorem names_eq {entries others : List (Ref × Ref)}
    (h : List.Forall₂ (store.EntryLike M Q) entries others) :
    store.names entries = store.names others := by
  have hmap := map_eq_of_forall₂ h fun entry other hlike => hlike.name
  have hnames (entries : List (Ref × Ref)) :
      store.names entries = (entries.map fun entry => store.name? entry.1).filterMap id := by
    rw [List.filterMap_map]
    rfl
  rw [hnames, hnames, hmap]

/-- Related things are found under each name. -/
theorem rel_entryAt? {entries others : List (Ref × Ref)}
    (h : Arranged order (store.EntryLike M Q) entries others)
    (honce : order = .free → (store.names entries).Nodup) (name : String) :
    Option.Rel Q (store.entryAt? name entries) (store.entryAt? name others) := by
  obtain ⟨middle, hall, hallows⟩ := h
  have hfound : store.entryAt? name middle = store.entryAt? name others := by
    cases order with
    | kept => exact congrArg (store.entryAt? name) hallows
    | free =>
      have hmiddle : (store.names middle).Nodup := names_eq hall ▸ honce rfl
      have hfind : middle.find? (fun entry => store.name? entry.1 == some name) =
          others.find? fun entry => store.name? entry.1 == some name :=
        find?_eq_of_perm hallows hmiddle fun entry hentry => beq_iff_eq.mp hentry
      rw [entryAt?, entryAt?, hfind]
  rw [← hfound]
  clear hallows honce hfound
  induction hall with
  | nil => exact .none
  | @cons entry other _ _ hlike _ ih =>
    simp only [entryAt?, List.find?_cons, hlike.name]
    cases store.name? other.1 == some name with
    | true => exact .some hlike.value
    | false => exact ih

theorem rel_lookup (habsent : Q absent absent) {entries others : List (Ref × Ref)}
    (h : Arranged order (store.EntryLike M Q) entries others)
    (honce : order = .free → (store.names entries).Nodup) (name : String) :
    Q (store.lookup (.string name) entries) (store.lookup (.string name) others) := by
  have hrel := rel_entryAt? h honce name
  rw [lookup_eq_entryAt?, lookup_eq_entryAt?]
  generalize store.entryAt? name entries = x, store.entryAt? name others = y at hrel
  cases hrel with
  | none => exact habsent
  | some hxy => exact hxy

/-! ### Objects with the same content -/

/-- Objects with the same content look alike if what is said of them corresponds. -/
theorem LooksLike.of_cell {x y : Ref} (h : store.cell x = store.cell y)
    (hM : ∀ reason, M reason reason) (hQ : ∀ u, Q u u) (hwords : store.Worded M x y)
    (honce : order = .free → ∀ entries, store.entries? x = some entries →
      (store.names entries).Nodup) : store.LooksLike order M Q x y where
  face := by
    rw [Store.face, Store.face, h]
    exact .same _
  words := hwords
  elements := by
    rw [elements?, elements?, h]
    cases store.cell y with
    | list | tuple => exact .some (List.forall₂_same.mpr fun u _ => hQ u)
    | _ => exact .none
  entries := by
    rw [entries?, entries?, h]
    cases store.cell y with
    | dict | view =>
      refine .some (.of_forall₂ order (List.forall₂_same.mpr fun entry _ => ?_))
      exact ⟨rfl, hM _, hQ entry.2⟩
    | _ => exact .none
  once := fun hfree entries hx => honce hfree entries hx

theorem name?_of_trees (hproper : store.Proper) {x y : Ref} {v : Value}
    (hx : store.IsTreeOf x v) (hy : store.IsTreeOf y v) : store.name? x = store.name? y := by
  refine Option.ext fun name => (name?_tree hproper hx.1 name).trans ?_
  rw [hx.2, ← hy.2]
  exact (name?_tree hproper hy.1 name).symm

/-- Trees of one value look alike. -/
theorem LooksLike.of_trees (hproper : store.Proper) {x y : Ref} {v : Value}
    (hx : store.IsTreeOf x v) (hy : store.IsTreeOf y v)
    (hM : ∀ reason reason', reason.SameWords reason' → M reason reason')
    (hQ : ∀ a b u, store.IsTreeOf a u → store.IsTreeOf b u → Q a b)
    (honce : order = .free → ∀ entries, store.entries? x = some entries →
      (store.names entries).Nodup) : store.LooksLike order M Q x y := by
  obtain ⟨hxtree, rfl⟩ := hx
  obtain ⟨hytree, htrees⟩ := hy
  have hface := sameFace_tree hproper hytree
  have hname := typeName_tree hproper hytree
  have helements := elements?_tree hproper hytree
  have hentries := entries?_tree hproper hytree
  rw [htrees] at hface hname helements hentries
  have hclass := (typeName_tree hproper hxtree).trans hname.symm
  refine ⟨(sameFace_tree hproper hxtree).trans hface.symm, ⟨?_, ?_⟩, ?_, ?_,
    fun hfree _ hx => honce hfree _ hx⟩
  · intro u w hu hw reason hreason
    exact hM _ _ (Reason.sameWords_of_typeName (hu.trans (hclass.trans hw.symm)) reason hreason)
  · intro reason
    exact hM _ _ (congrArg (fun u => (reason u).message) htrees.symm)
  · have hleft := elements?_tree hproper hxtree
    generalize store.elements? x = items, store.elements? y = others,
      (store.tree x).elements? = shown at hleft helements
    cases hleft with
    | none =>
      cases helements
      exact .none
    | some hall =>
      cases helements with | some hall' => ?_
      exact .some ((forall₂_trans hall hall'.flip).imp fun a b ⟨u, ha, hb⟩ => hQ a b u ha hb)
  · have hleft := entries?_tree hproper hxtree
    generalize store.entries? x = entries, store.entries? y = others,
      (store.tree x).entries? = shown at hleft hentries
    cases hleft with
    | none =>
      cases hentries
      exact .none
    | some hall =>
      cases hentries with | some hall' => ?_
      refine .some (.of_forall₂ order ((forall₂_trans hall hall'.flip).imp ?_))
      rintro ⟨key, a⟩ ⟨key', b⟩ ⟨⟨k, u⟩, ⟨hkey, ha⟩, hkey', hb⟩
      have hsame : store.tree key = store.tree key' := hkey.2.trans hkey'.2.symm
      exact ⟨name?_of_trees hproper hkey hkey',
        hM _ _ (congrArg (fun u => (Reason.keyNotText u).message) hsame), hQ a b u ha hb⟩

/-- Objects that look alike still do if their parts are known to be of a set that is closed under
parts. -/
theorem LooksLike.within {x y : Ref} {S : Ref → Prop} {Q' : Ref → Ref → Prop}
    (h : store.LooksLike order M Q x y) (hwhole : store.Whole S) (hx : S x)
    (hQ : ∀ a b, S a → Q a b → Q' a b) : store.LooksLike order M Q' x y := by
  refine ⟨h.face, h.words, ?_, ?_, h.once⟩
  · have helements := h.elements
    have hparts : ∀ items, store.elements? x = some items → ∀ a ∈ items, S a :=
      fun _ => hwhole.elements? hx
    generalize store.elements? x = items, store.elements? y = others at helements hparts
    cases helements with
    | none => exact .none
    | some hall =>
      exact .some (((List.forall₂_and_left _ _).mpr ⟨hparts _ rfl, hall⟩).imp
        fun a b hab => hQ a b hab.1 hab.2)
  · have hentries := h.entries
    have hparts : ∀ entries, store.entries? x = some entries → ∀ entry ∈ entries, S entry.2 :=
      fun _ => hwhole.entries? hx
    generalize store.entries? x = entries, store.entries? y = others at hentries hparts
    cases hentries with
    | none => exact .none
    | some harranged =>
      obtain ⟨middle, hall, hallows⟩ := harranged
      refine .some ⟨middle, ?_, hallows⟩
      exact ((List.forall₂_and_left _ _).mpr ⟨hparts _ rfl, hall⟩).imp
        fun a b hab => ⟨hab.2.name, hab.2.key, hQ _ _ hab.1 hab.2.value⟩

/-- One object, or two that are trees of one value. -/
def Same (store : Store) (x y : Ref) : Prop :=
  x = y ∨ ∃ v, store.IsTreeOf x v ∧ store.IsTreeOf y v

theorem looksLike_same (hproper : store.Proper) {x y : Ref} (h : store.Same x y) :
    store.LooksLike .kept Reason.SameWords store.Same x y := by
  rcases h with rfl | ⟨v, hx, hy⟩
  · exact .of_cell rfl (fun _ => rfl) (fun _ => .inl rfl)
      ⟨fun hv hw => Reason.sameWords_of_typeName (hv.trans hw.symm), fun _ => rfl⟩
      (fun hfree => by contradiction)
  · exact .of_trees hproper hx hy (fun _ _ h => h) (fun _ _ u ha hb => .inr ⟨u, ha, hb⟩)
      (fun hfree => by contradiction)

/-! ### Plans -/

/-- A subject of a set that is checked against related objects. -/
def Against (P : Subject → Prop) (Q : Ref → Ref → Prop) (s : Subject) (x : Ref) (t : Subject)
    (y : Ref) : Prop := (P s ∧ s = t) ∧ Q x y

section Look

variable (hproper : store.Proper) (hM : ∀ reason, M reason reason) (habsent : Q absent absent)
  (hQ : ∀ x y, Q x y → store.LooksLike order M Q x y) {x y : Ref} (h : Q x y)
include hproper hM hQ h

theorem lengthPlan_similar :
    Plan.Rel Eq M (Against P Q) x y (lengthPlan (store.surface x)).bare
      (lengthPlan (store.surface y)).bare := by
  have hentries := (hQ x y h).entries
  have honce := (hQ x y h).once
  unfold lengthPlan
  rw [entries?_surface hproper, entries?_surface hproper]
  generalize store.entries? x = entries, store.entries? y = others at hentries honce
  cases hentries with
  | none => exact .stuck rfl
  | @some entries others harranged =>
    have hlength := rel_entryAt? harranged (fun hfree => honce hfree rfl) "length"
    simp only [Option.map_some, lookup_surface]
    generalize store.entryAt? "length" entries = length, store.entryAt? "length" others = length'
      at hlength ⊢
    cases hlength with
    | none => exact .stuck rfl
    | @some a b hab =>
      simp only [Option.map_some, (hQ a b hab).face.number?]
      cases (store.face b).number? with
      | none => exact .stuck rfl
      | some q => exact .answer _ _ (hM _)

theorem settledPlan_similar {d : Descriptor} (hd : d.IsSettled) :
    Plan.Rel Eq M (Against P Q) x y (store.settledPlan d x) (store.settledPlan d y) := by
  have hlook := hQ x y h
  have hface := sameFace_surface (sameFace_surface hlook.face).symm
  have hwords := hlook.words.named (typeName_surface x) (typeName_surface y)
  cases d with
  | null | void =>
    simp only [settledPlan, Descriptor.plan, Plan.bare, hface.isAbsent]
    exact .answer _ _ (hwords .notAbsent (by simp [Reason.ofClass]))
  | boolean =>
    simp only [settledPlan, Descriptor.plan, Plan.bare, hface.isBool]
    exact .answer _ _ (hwords .notBool (by simp [Reason.ofClass]))
  | string =>
    simp only [settledPlan, Descriptor.plan, Plan.bare, hface.isText]
    exact .answer _ _ (hwords .notText (by simp [Reason.ofClass]))
  | number =>
    simp only [settledPlan, Descriptor.plan, hface.isNumber]
    cases isNumber (store.surface x) with
    | ok holds => exact .answer _ _ (hlook.words.shown .notNumber)
    | error e => exact .stuck rfl
  | any | optional | image => exact .every .nil
  | file => exact lengthPlan_similar hproper hM hQ h
  | _ => exact hd.elim

include habsent in
/-- What a subject plans for objects that look alike is similar. -/
theorem plan_similar (hclosed : ∀ s, P s → store.Readable P s) {s : Subject} (hs : P s) :
    Plan.Similar order Eq M (Against P Q) x y (store.plan s x) (store.plan s y) := by
  obtain ⟨kind, shape, -, -, hform⟩ := hclosed s hs
  have hlook := hQ x y h
  have hwords := hlook.words.named rfl rfl
  unfold plan
  generalize store.form s = form at hform
  cases hform with
  | plain hsettled => exact .rel (settledPlan_similar hproper hM hQ h hsettled)
  | optional | optionalShape | file | image =>
    exact .rel (settledPlan_similar hproper hM hQ h (by trivial))
  | literal p =>
    simp only [isAlteredLiteral?_toValue, hlook.face.isLiteral]
    exact .rel (.answer _ _ (hlook.words.shown _))
  | list hitem =>
    have helements := hlook.elements
    generalize store.elements? x = items, store.elements? y = others at helements
    cases helements with
    | none => exact .rel (.answer _ _ (hwords .notSequence (by simp [Reason.ofClass])))
    | some hall =>
      exact .rel (.every (forall₂_mapIdx hall fun i a b hab => .part _ ⟨⟨hitem, rfl⟩, hab⟩))
  | record hitem =>
    have hentries := hlook.entries
    generalize store.entries? x = entries, store.entries? y = others at hentries
    cases hentries with
    | none => exact .rel (.answer _ _ (hwords .notMapping (by simp [Reason.ofClass])))
    | some harranged =>
      refine .every (harranged.map fun entry other hlike => ?_)
      simp only [hlike.name]
      cases store.name? other.1 with
      | none => exact .blemish hlike.key
      | some name => exact .part _ ⟨⟨hitem, rfl⟩, hlike.value⟩
  | object hfields =>
    have hentries := hlook.entries
    have honce := hlook.once
    generalize store.entries? x = entries, store.entries? y = others at hentries honce
    cases hentries with
    | none => exact .rel (.answer _ _ (hwords .notMapping (by simp [Reason.ofClass])))
    | some harranged =>
      refine .rel (.every ?_)
      rw [List.map_map, List.map_map, List.forall₂_map_left_iff, List.forall₂_map_right_iff,
        List.forall₂_same]
      exact fun field hfield => .part _ ⟨⟨hfields field hfield, rfl⟩,
        rel_lookup habsent harranged (fun hfree => honce hfree rfl) field.1⟩
  | union hsubjects =>
    exact .rel (.oneOf (List.forall₂_same.mpr fun t ht => ⟨⟨hsubjects t ht, rfl⟩, h⟩) (hM _))
  | type hdescribed =>
    have hkind : store.kind? x = store.kind? y := hlook.face.descriptorKind?
    rw [hkind]
    cases store.kind? y with
    | none => exact .rel (.answer _ _ (hwords .notDescriptor (by simp [Reason.ofClass])))
    | some kind => exact .rel (.answer _ _ (hM _))

end Look

/-- The engine says similar things of objects that look alike. -/
theorem engine_resembles (hproper : store.Proper) (hM : ∀ reason, M reason reason)
    (habsent : Q absent absent) (hQ : ∀ x y, Q x y → store.LooksLike order M Q x y)
    (hclosed : ∀ s, P s → store.Readable P s) :
    store.engine.Resembles store.engine order Eq M (Against P Q) where
  kind := fun h => congrArg _ h.1.2
  derived? := by
    rintro s x t y ⟨⟨hs, rfl⟩, hxy⟩
    obtain ⟨kind, shape, -, hshape, hform⟩ := hclosed s hs
    have hmem := hform.shape
    rw [engine_derived? hshape]
    cases shape with
    | none => exact .none
    | some shape => exact .some ⟨⟨hmem shape rfl, rfl⟩, hxy⟩
  plan := by
    rintro s x t y ⟨⟨hs, rfl⟩, hxy⟩
    exact plan_similar hproper hM habsent hQ hxy hclosed hs

/-! ### Answers and reports -/

section Records

variable {Match : Issue → Issue → Prop} {settings : Settings} {r v w : Ref}

theorem validate_of_recorded (hproper : store.Proper)
    (h : Recorded Eq Match #[] #[] (store.runCheck settings .silent (.object r) v)
      (store.runCheck settings .silent (.object r) w)) :
    store.validate settings r v = store.validate settings r w := by
  rw [validate_eq_walk hproper, validate_eq_walk hproper]
  exact h.answer_eq

/-- Walks that match are reported in the same way, as far as issues that match are told in one. -/
theorem explain_of_recorded {α : Type} {tell : Issue → α} (hproper : store.Proper)
    (hr : store.IsSchema (.object r)) (htell : ∀ i j, Match i j → tell i = tell j)
    (halike : ∀ i j, i.Alike j → tell i = tell j)
    (h : ∀ mode, Recorded Eq Match #[] #[] (store.runCheck settings mode (.object r) v)
      (store.runCheck settings mode (.object r) w)) :
    (store.explain settings r v).map (·.summary tell) =
      (store.explain settings r w).map (·.summary tell) := by
  have hwalk := h (if settings.collectAll.truthy then .all else .first)
  have hleft := explain_reported hproper hr settings v
  have hright := explain_reported hproper hr settings w
  generalize store.runCheck settings _ (.object r) v = walk,
    store.runCheck settings _ (.object r) w = walk', store.explain settings r v = told,
    store.explain settings r w = told' at hwalk hleft hright ⊢
  cases hwalk with
  | error he =>
    obtain rfl := he
    cases hleft
    cases hright
    rfl
  | answer ok hnew hnew' hmatch =>
    cases hleft with | report hkind _ hissues => ?_
    cases hright with | report hkind' _ hissues' => ?_
    obtain rfl := Except.ok.inj (hkind.symm.trans hkind')
    rw [hnew] at hissues
    rw [hnew'] at hissues'
    have htold := ((map_eq_of_forall₂ hissues halike).symm.trans
      (map_eq_of_forall₂ hmatch htell)).trans (map_eq_of_forall₂ hissues' halike)
    simp only [Except.map, Report.summary, htold]

end Records

end Store

end DataSchema
