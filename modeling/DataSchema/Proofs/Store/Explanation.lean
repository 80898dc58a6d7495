import DataSchema.Proofs.Store.Engine

/-!
An explanation of an object is what the engine for objects writes down. Where a descriptor and an
object are both trees the engine for values explains them, and what it says is the same, place by
place and word by word.
-/

namespace DataSchema

/-- Two reasons in the same words. -/
def Reason.SameWords (r r' : Reason) : Prop := r.message = r'.message

/-- Reasons that name no more of what was found than its class. -/
theorem Reason.sameWords_of_typeName {v w : Value} (h : v.typeName = w.typeName) :
    ∀ reason ∈ [notAbsent, notBool, notText, notSequence, notMapping, notDescriptor],
      (reason v).SameWords (reason w) := by
  intro reason hreason
  simp only [List.mem_cons, List.not_mem_nil, or_false] at hreason
  rcases hreason with rfl | rfl | rfl | rfl | rfl | rfl
  · exact congrArg ("expected None, got " ++ ·) h
  · exact congrArg ("expected bool, got " ++ ·) h
  · exact congrArg ("expected str, got " ++ ·) h
  · exact congrArg ("expected a list, got " ++ ·) h
  · exact congrArg ("expected a mapping, got " ++ ·) h
  · exact congrArg ("expected a descriptor, got " ++ ·) h

/-- Two issues at the same place, of the same kind and in the same words. -/
def Issue.Alike (i j : Issue) : Prop := i.Matches [] Reason.SameWords j

namespace Store

/-- An object that is the tree of a value. -/
def IsTreeOf (store : Store) (v : Ref) (w : Value) : Prop :=
  store.isTree v = true ∧ store.tree v = w

/-- An entry of an object that is the tree of an entry of a value. -/
def EntryTreeOf (store : Store) (entry : Ref × Ref) (shown : Value × Value) : Prop :=
  store.IsTreeOf entry.1 shown.1 ∧ store.IsTreeOf entry.2 shown.2

variable {store : Store} {P : Subject → Prop}

/-! ### Trees of elements and entries -/

theorem elements?_tree (hproper : store.Proper) {v : Ref} (h : store.isTree v = true) :
    Option.Rel (List.Forall₂ store.IsTreeOf) (store.elements? v) (store.tree v).elements? := by
  have hrefs : ∀ x ∈ (store.cell v).refs, store.isTree x = true :=
    fun x hx => isTree_of_mem_refs h hx
  rw [tree_eq_assemble h]
  cases hcell : store.cell v with
  | plain u =>
    simp only [elements?, hcell, Cell.assemble, (hproper.plain hcell).elements?]
    exact .none
  | list items | tuple items =>
    rw [hcell] at hrefs
    simp only [elements?, hcell, Cell.assemble, Value.elements?]
    refine .some ?_
    rw [List.forall₂_map_right_iff, List.forall₂_same]
    exact fun x hx => ⟨hrefs x hx, rfl⟩
  | set | dict | view =>
    simp only [elements?, hcell, Cell.assemble, Value.elements?]
    exact .none
  | descriptor kind held =>
    simp only [elements?, hcell, Cell.assemble, Cell.assembleDescriptor]
    cases Descriptor.ofHeld? kind (store.tree held) <;> exact .none

theorem entries?_tree (hproper : store.Proper) {v : Ref} (h : store.isTree v = true) :
    Option.Rel (List.Forall₂ store.EntryTreeOf) (store.entries? v) (store.tree v).entries? := by
  have hrefs : ∀ x ∈ (store.cell v).refs, store.isTree x = true :=
    fun x hx => isTree_of_mem_refs h hx
  rw [tree_eq_assemble h]
  cases hcell : store.cell v with
  | plain u =>
    simp only [entries?, hcell, Cell.assemble, (hproper.plain hcell).entries?]
    exact .none
  | list | tuple | set =>
    simp only [entries?, hcell, Cell.assemble, Value.entries?]
    exact .none
  | dict entries | view entries =>
    rw [hcell] at hrefs
    simp only [entries?, hcell, Cell.assemble, Value.entries?]
    refine .some ?_
    rw [List.forall₂_map_right_iff, List.forall₂_same]
    intro entry hentry
    have hboth : ∀ x ∈ [entry.1, entry.2], store.isTree x = true :=
      fun x hx => hrefs x (List.mem_flatMap.mpr ⟨entry, hentry, hx⟩)
    exact ⟨⟨hboth _ (by simp), rfl⟩, hboth _ (by simp), rfl⟩
  | descriptor kind held =>
    simp only [entries?, hcell, Cell.assemble, Cell.assembleDescriptor]
    cases Descriptor.ofHeld? kind (store.tree held) <;> exact .none

theorem name?_tree (hproper : store.Proper) {key : Ref} (h : store.isTree key = true)
    (name : String) : store.name? key = some name ↔ store.tree key = .string name :=
  name?_eq_some_iff.trans ((sameFace_tree hproper h).eq_string_iff name)

theorem isTreeOf_absent (hproper : store.Proper) : store.IsTreeOf absent .null := by
  have hordered : store.Ordered [absent] := by
    simp [Ordered, hproper.absent, Cell.refs]
  exact ⟨isTree_of_ordered hordered fun _ => List.mem_singleton_self _,
    by simp only [tree, hproper.absent]⟩

/-- The tree of what is found under a name is found there. -/
theorem lookup_tree (hproper : store.Proper) (name : String) {entries : List (Ref × Ref)}
    {shown : List (Value × Value)} (h : List.Forall₂ store.EntryTreeOf entries shown) :
    store.IsTreeOf (store.lookup (.string name) entries) (Value.entryOrNull name shown) := by
  induction h with
  | nil => exact isTreeOf_absent hproper
  | @cons a b entries shown hab _ ih =>
    obtain ⟨key, x⟩ := a
    obtain ⟨key', y⟩ := b
    obtain ⟨⟨hkey, rfl⟩, hx⟩ := hab
    have hname := name?_tree hproper hkey name
    by_cases hsame : store.tree key = .string name
    · simp only [lookup, List.find?_cons, hname.mpr hsame, Value.entryOrNull, hsame,
        Value.lookup_cons_self]
      simpa using hx
    · have hne : (store.name? key == some name) = false := by simpa using mt hname.mp hsame
      simp only [lookup, Value.entryOrNull, Value.lookup_cons_of_ne hsame] at ih ⊢
      simpa only [List.find?_cons, hne] using ih

/-- What a tree is on its surface is of the class of the tree. -/
theorem typeName_tree (hproper : store.Proper) {v : Ref} (h : store.isTree v = true) :
    (store.face v).typeName = (store.tree v).typeName := by
  rw [tree_eq_assemble h, face]
  cases hcell : store.cell v with
  | plain | list | tuple | set | dict | view => rfl
  | descriptor kind held =>
    simp only [Cell.face, Cell.assemble, Cell.assembleDescriptor]
    cases hd : Descriptor.ofHeld? kind (store.tree held) with
    | none => rfl
    | some d =>
      obtain ⟨hkind, hheld⟩ := Descriptor.held?_of_ofHeld? hd (hproper.field hcell)
      obtain rfl := hkind
      cases d with
      | outsider => contradiction
      | _ => rfl

/-! ### Plans -/

/-- A subject and an object that stand for a descriptor and a value. -/
def Stands (store : Store) (P : Subject → Prop) (s : Subject) (v : Ref) (d : Descriptor)
    (w : Value) : Prop :=
  (P s ∧ store.Reads s d) ∧ store.IsTreeOf v w

theorem typeName_surface (v : Ref) : (store.surface v).typeName = (store.face v).typeName := by
  unfold surface face
  cases store.cell v <;> rfl

theorem lengthPlan_tree (hproper : store.Proper) {v : Ref} (h : store.isTree v = true) :
    Plan.Rel Eq Reason.SameWords (store.Stands P) v (store.tree v)
      (lengthPlan (store.surface v)).bare (lengthPlan (store.tree v)) := by
  have hentries := (shows_tree hproper 2 h).2.2
  unfold lengthPlan
  rw [entries?_surface hproper]
  generalize store.entries? v = entries, (store.tree v).entries? = shown at hentries
  cases hentries with
  | none => exact .stuck rfl
  | @some entries shown hall =>
    have hfaces : List.Forall₂ (fun a b : Value × Value => SameFace a.1 b.1 ∧ SameFace a.2 b.2)
        (entries.map fun entry => (store.face entry.1, store.face entry.2)) shown := by
      rw [List.forall₂_map_left_iff]
      exact hall.imp fun entry shown hab => ⟨hab.1, hab.2.1⟩
    have hlength := lookup_sameFace "length" hfaces
    dsimp only [Option.map]
    generalize Value.lookup "length" _ = length, Value.lookup "length" shown = length' at hlength ⊢
    cases hlength with
    | none => exact .stuck rfl
    | @some a b hab =>
      simp only [hab.number?]
      cases b.number? with
      | none => exact .stuck rfl
      | some q => exact .answer _ _ rfl

theorem settledPlan_tree (hproper : store.Proper) {v : Ref} (h : store.isTree v = true)
    {d : Descriptor} (hd : d.IsSettled) :
    Plan.Rel Eq Reason.SameWords (store.Stands P) v (store.tree v) (store.settledPlan d v)
      (d.plan (store.tree v)) := by
  have hface := sameFace_surface (sameFace_tree hproper h)
  have hwords := Reason.sameWords_of_typeName
    ((typeName_surface v).trans (typeName_tree hproper h))
  cases d with
  | null | void =>
    simp only [settledPlan, Descriptor.plan, Plan.bare, hface.isAbsent]
    exact .answer _ _ (hwords .notAbsent (by simp))
  | boolean =>
    simp only [settledPlan, Descriptor.plan, Plan.bare, hface.isBool]
    exact .answer _ _ (hwords .notBool (by simp))
  | string =>
    simp only [settledPlan, Descriptor.plan, Plan.bare, hface.isText]
    exact .answer _ _ (hwords .notText (by simp))
  | number =>
    simp only [settledPlan, Descriptor.plan, hface.isNumber]
    cases isNumber (store.tree v) with
    | ok holds => exact .answer _ _ rfl
    | error e => exact .stuck rfl
  | any | optional | image => exact .every .nil
  | file => exact lengthPlan_tree hproper h
  | _ => exact hd.elim

theorem settledPlan_reads (hproper : store.Proper) {v : Ref} (h : store.isTree v = true)
    {e d : Descriptor} (he : e.IsSettled) (hread : store.FormReads (.settled e) d) :
    Plan.Rel Eq Reason.SameWords (store.Stands P) v (store.tree v) (store.settledPlan e v)
      (d.plan (store.tree v)) := by
  cases hread with
  | leaf => exact settledPlan_tree hproper h he
  | optional c d => exact settledPlan_tree hproper h (d := .optional d) trivial
  | file s t => exact settledPlan_tree hproper h (d := .file t) trivial

theorem plan_stands (hproper : store.Proper) (hclosed : ∀ s, P s → store.Readable P s)
    {s : Subject} {v : Ref} {d : Descriptor} {w : Value} (h : store.Stands P s v d w) :
    Plan.Rel Eq Reason.SameWords (store.Stands P) v w (store.plan s v) (d.plan w) := by
  obtain ⟨⟨hs, hreads⟩, htree, rfl⟩ := h
  obtain ⟨kind, shape, -, -, hform⟩ := hclosed s hs
  have hread := form_reads hproper hreads
  have hface := sameFace_tree hproper htree
  have hwords := Reason.sameWords_of_typeName (typeName_tree hproper htree)
  unfold plan
  generalize store.form s = form at hform hread
  cases hform with
  | plain hsettled => exact settledPlan_reads hproper htree hsettled hread
  | optional | optionalShape | file | image =>
    exact settledPlan_reads hproper htree (by trivial) hread
  | literal p =>
    generalize hvalue : Form.literal p.toValue = form at hread
    cases hread with
    | literal q =>
      have hprimitive := congrArg Value.primitive? (Form.literal.inj hvalue)
      rw [Value.primitive?_toValue, Value.primitive?_toValue] at hprimitive
      obtain rfl := Option.some.inj hprimitive
      simp only [isAlteredLiteral?_toValue, hface.isLiteral]
      exact .answer _ _ rfl
    | _ => contradiction
  | list hitem =>
    cases hread with
    | list hd =>
      have helements := elements?_tree hproper htree
      simp only [Descriptor.plan]
      generalize store.elements? v = items, (store.tree v).elements? = shown at helements
      cases helements with
      | none => exact .answer _ _ (hwords .notSequence (by simp))
      | some hall =>
        exact .every (forall₂_mapIdx hall fun i x y hxy => .part _ ⟨⟨hitem, hd⟩, hxy⟩)
  | record hitem =>
    cases hread with
    | record hd =>
      have hentries := entries?_tree hproper htree
      simp only [Descriptor.plan]
      generalize store.entries? v = entries, (store.tree v).entries? = shown at hentries
      cases hentries with
      | none => exact .answer _ _ (hwords .notMapping (by simp))
      | some hall =>
        refine .every ?_
        rw [List.forall₂_map_left_iff, List.forall₂_map_right_iff]
        refine hall.imp ?_
        rintro ⟨key, x⟩ ⟨key', y⟩ ⟨⟨hkey, rfl⟩, hx⟩
        have hname := name?_tree hproper hkey
        dsimp only
        split
        · next name hsome =>
          rw [(hname name).mp hsome]
          exact .part _ ⟨⟨hitem, hd⟩, hx⟩
        · next hnone =>
          split
          · next name hstring =>
            rw [(hname name).mpr hstring] at hnone
            contradiction
          · exact .blemish rfl
  | object hfields =>
    cases hread with
    | object hds =>
      have hentries := entries?_tree hproper htree
      simp only [Descriptor.plan]
      generalize store.entries? v = entries, (store.tree v).entries? = shown at hentries
      cases hentries with
      | none => exact .answer _ _ (hwords .notMapping (by simp))
      | some hall =>
        refine .every ?_
        rw [List.forall₂_map_left_iff] at hds
        rw [List.map_map, List.forall₂_map_left_iff, List.forall₂_map_right_iff]
        refine ((List.forall₂_and_left _ _).mpr ⟨hfields, hds⟩).imp ?_
        rintro ⟨name, t⟩ ⟨name', e⟩ ⟨ht, t', heq, hreads⟩
        obtain ⟨hname, rfl⟩ := Prod.mk.inj (Except.ok.inj heq)
        obtain rfl := Value.string.inj hname
        exact .part _ ⟨⟨ht, hreads⟩, lookup_tree hproper name hall⟩
  | union hsubjects =>
    cases hread with
    | union hds =>
      have hkinds := map_eq_of_forall₂ hds fun t e ht =>
        subjectKind_eq (kindOf?_reads hproper ht)
      have hall := (List.forall₂_and_left _ _).mpr ⟨hsubjects, hds⟩
      exact .oneOf (hall.imp fun t e ht => ⟨ht, htree, rfl⟩)
        (congrArg (fun kinds => (Reason.noAlternative kinds).message) hkinds)
  | type hdescribed =>
    cases hread with
    | type hd =>
      have hkind : store.kind? v = (store.tree v).descriptorKind? := hface.descriptorKind?
      simp only [Descriptor.plan, hkind, subjectKind_eq (kindOf?_reads hproper hd)]
      cases (store.tree v).descriptorKind? with
      | none => exact .answer _ _ (hwords .notDescriptor (by simp))
      | some kind => exact .answer _ _ rfl

/-- Where both are trees, the engine for objects says what the engine for values does. -/
theorem engine_mirrors (hproper : store.Proper) (hclosed : ∀ s, P s → store.Readable P s) :
    store.engine.Mirrors Descriptor.engine Eq Reason.SameWords (store.Stands P) where
  kind := fun h => subjectKind_eq (kindOf?_reads hproper h.1.2)
  derived? := by
    rintro s v d w ⟨⟨hs, hreads⟩, htree⟩
    obtain ⟨shape, hshape, hrel⟩ := derived?_reads hproper hreads
    obtain ⟨kind, shape', -, hshape', hform⟩ := hclosed s hs
    obtain rfl := Except.ok.inj (hshape.symm.trans hshape')
    have hmem := hform.shape
    rw [engine_derived? hshape]
    change Option.Rel _ shape d.derived?
    generalize d.derived? = derived at hrel
    cases hrel with
    | none => exact .none
    | some hderived => exact .some ⟨⟨hmem _ rfl, hderived⟩, htree⟩
  plan := plan_stands hproper hclosed

/-! ### Explanations -/

/-- The outcome of a walk and the report of an explanation that lists alike issues. -/
inductive Reported (store : Store) (r : Ref) : Outcome → Except Error Report → Prop where
  | error (e : Error) : Reported store r (.error e) (.error e)
  | report {kind : Kind} (hkind : store.kindOf? (.object r) = .ok kind) (ok : Bool)
    {written : Array Issue} {issues : List Issue}
    (h : List.Forall₂ Issue.Alike written.toList issues) :
    Reported store r (.ok (ok, written)) (.ok ⟨kind, ok, issues⟩)

theorem kindOf?_of_isSchema {s : Subject} (h : store.IsSchema s) :
    ∃ kind, store.kindOf? s = .ok kind := by
  obtain ⟨member, hr, hclosed⟩ := h
  obtain ⟨kind, -, hkind, -⟩ := readable_of_closed hclosed hr
  exact ⟨kind, hkind⟩

/-- A walk from a schema is a check of the engine. -/
theorem runCheck_eq_check {s : Subject} (hs : store.IsSchema s) (settings : Settings)
    (mode : Recording) (v : Ref) : store.runCheck settings mode s v =
      store.engine.check settings.depth.limit (settings.depth.limit.bound + 1) mode s v [] #[] := by
  obtain ⟨member, hmem, hclosed⟩ := hs
  rw [runCheck, check_eq (fun s => readable_of_closed hclosed) _ _ _ hmem]

/-- What an explanation of an object reports is what a walk over the object writes down. -/
theorem explain_reported (hproper : store.Proper) {r : Ref} (hr : store.IsSchema (.object r))
    (settings : Settings) (v : Ref) : store.Reported r
      (store.runCheck settings (if settings.collectAll.truthy then .all else .first) (.object r) v)
      (store.explain settings r v) := by
  generalize hmode : (if settings.collectAll.truthy then Recording.all else .first) = mode
  obtain ⟨kind, hkind⟩ := kindOf?_of_isSchema hr
  unfold explain
  cases htrees : store.trees? r v with
  | none =>
    dsimp only
    rw [hmode]
    cases hrun : store.runCheck settings mode (.object r) v with
    | error e => exact .error e
    | ok outcome =>
      rw [hkind]
      exact .report hkind outcome.1 (List.forall₂_same.mpr fun i _ => ⟨rfl, rfl, rfl⟩)
  | some pair =>
    obtain ⟨hd, htree, hw⟩ := trees?_eq_some htrees
    obtain ⟨member, hmem, hclosed⟩ := hr
    have hread := fun s => readable_of_closed hclosed (s := s)
    have hstands : store.Stands (·.IsOf member) (.object r) v pair.1 pair.2 :=
      ⟨⟨hmem, hd⟩, htree, hw.symm⟩
    have hover : ∀ kind, settings.depth.limit.overrun kind = settings.depth.limit.overrun kind :=
      fun _ => rfl
    have hrecords := Engine.check_records (engine_mirrors hproper hread) hover
      (settings.depth.limit.bound + 1) mode hstands [] [] #[] #[]
    simp only [runCheck, DataSchema.explain, DataSchema.runCheck, DataSchema.check_eq, hmode,
      check_eq hread _ _ mode (s := .object r) hmem]
    rw [List.append_nil] at hrecords
    generalize store.engine.check _ _ mode (.object r) v [] #[] = walk,
      Descriptor.engine.check _ _ mode pair.1 pair.2 [] #[] = told at hrecords ⊢
    cases hrecords with
    | error he =>
      obtain rfl := he
      exact .error _
    | answer ok h h' hmatch =>
      refine .report (kindOf?_reads hproper hd) ok ?_
      rw [h, h']
      exact hmatch

/-- The answer of a validation of an object is that of a silent walk over the object. -/
theorem validate_eq_walk (hproper : store.Proper) (settings : Settings) (r v : Ref) :
    store.validate settings r v = (store.runCheck settings .silent (.object r) v).map (·.1) := by
  unfold validate
  cases htrees : store.trees? r v with
  | none => rfl
  | some pair =>
    obtain ⟨hd, htree, hw⟩ := trees?_eq_some htrees
    have hshown := shows_tree hproper (settings.depth.limit.bound + 2) htree
    rw [← hw] at hshown
    have hreads : store.Reads (.object r) pair.1 := hd
    have hrun : store.runCheck settings .silent (.object r) v =
        DataSchema.runCheck settings .silent pair.1 pair.2 :=
      congrFun (check_shows hproper settings.depth.limit hreads hshown [] []) #[]
    rw [hrun]
    rfl

end Store

end DataSchema
