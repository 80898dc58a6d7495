import DataSchema.Proofs.Store.Resemblance

/-!
Classes of containers. Whether a sequence is a list or a tuple, and whether a mapping can be written
to, makes no difference to checks, wherever it stands. The order of entries makes one only to
failures that are no answers: whoever answers in both orders answers alike.
-/

namespace DataSchema

namespace Value

/-- The same value, up to the classes of its sequences and mappings, and maybe the order of entries.
Keys and what sets hold stay as they are. -/
inductive Recast (order : Arrangement) : Value → Value → Prop where
  | one (v : Value) : Recast order v v
  | sequence {v w : Value} {items others : List Value} (hv : v.elements? = some items)
    (hw : w.elements? = some others) (h : List.Forall₂ (Recast order) items others) :
    Recast order v w
  | mapping {v w : Value} {entries middle others : List (Value × Value)}
    (hv : v.entries? = some entries) (hw : w.entries? = some others)
    (hkeys : entries.map (·.1) = middle.map (·.1))
    (hvalues : List.Forall₂ (Recast order) (entries.map (·.2)) (middle.map (·.2)))
    (horder : order.Allows middle others) : Recast order v w
  | altered (kind : Kind) {v w : Value} (h : Recast order v w) :
    Recast order (.altered kind v) (.altered kind w)

/-- A value that is recast, and in which names are found in any order if they may be in any. -/
def RecastSafely (order : Arrangement) (v w : Value) : Prop :=
  v.Recast order w ∧ (order = .free → v.everywhere namesOnce = true)

variable {order : Arrangement} {v w : Value}

theorem holds_of_elements? {items : List Value} (h : v.elements? = some items) :
    v.holds = true ∧ v.descriptorKind? = none ∧ v.entries? = none := by
  cases v with
  | list | tuple => exact ⟨rfl, rfl, rfl⟩
  | _ => simp [elements?] at h

theorem holds_of_entries? {entries : List (Value × Value)} (h : v.entries? = some entries) :
    v.holds = true ∧ v.descriptorKind? = none ∧ v.elements? = none := by
  cases v with
  | dict | view => exact ⟨rfl, rfl, rfl⟩
  | _ => simp [entries?] at h

theorem Recast.sameFace (h : v.Recast order w) : SameFace v w := by
  cases h with
  | one => exact .same v
  | sequence hv hw =>
    obtain ⟨hholds, hkind, -⟩ := holds_of_elements? hv
    obtain ⟨hholds', hkind', -⟩ := holds_of_elements? hw
    exact .holding hholds hholds' (hkind.trans hkind'.symm)
  | mapping hv hw =>
    obtain ⟨hholds, hkind, -⟩ := holds_of_entries? hv
    obtain ⟨hholds', hkind', -⟩ := holds_of_entries? hw
    exact .holding hholds hholds' (hkind.trans hkind'.symm)
  | altered => exact .holding rfl rfl rfl

/-! ### Values -/

theorem RecastSafely.elements? (h : v.RecastSafely order w) :
    Option.Rel (List.Forall₂ (RecastSafely order)) v.elements? w.elements? := by
  obtain ⟨hrecast, honce⟩ := h
  cases hrecast with
  | one =>
    cases hv : v.elements? with
    | none => exact .none
    | some items =>
      refine .some (List.forall₂_same.mpr fun u hu => ⟨.one u, fun hfree => ?_⟩)
      exact everywhere_elements (honce hfree) hv u hu
  | @sequence _ _ items _ hv hw hall =>
    rw [hv, hw]
    have honce' : ∀ u ∈ items, order = .free → u.everywhere namesOnce = true :=
      fun u hu hfree => everywhere_elements (honce hfree) hv u hu
    exact .some (((List.forall₂_and_left _ _).mpr ⟨honce', hall⟩).imp fun _ _ hab => hab.symm)
  | mapping hv hw =>
    rw [(holds_of_entries? hv).2.2, (holds_of_entries? hw).2.2]
    exact .none
  | altered => exact .none

theorem RecastSafely.entries? (h : v.RecastSafely order w) :
    Option.Rel (Arranged order fun entry other => entry.1 = other.1 ∧
      entry.2.RecastSafely order other.2) v.entries? w.entries? := by
  obtain ⟨hrecast, honce⟩ := h
  cases hrecast with
  | one =>
    cases hv : v.entries? with
    | none => exact .none
    | some entries =>
      refine .some (.of_forall₂ order (List.forall₂_same.mpr fun entry hentry => ⟨rfl, .one _, ?_⟩))
      exact fun hfree => everywhere_entries (honce hfree) hv entry hentry
  | @mapping _ _ entries middle others hv hw hkeys hvalues horder =>
    rw [hv, hw]
    have hall := forall₂_pairs_iff.mpr ⟨hkeys, hvalues⟩
    have honce' : ∀ entry ∈ entries, order = .free → entry.2.everywhere namesOnce = true :=
      fun entry hentry hfree => everywhere_entries (honce hfree) hv entry hentry
    refine .some ⟨middle, ?_, horder⟩
    exact ((List.forall₂_and_left _ _).mpr ⟨honce', hall⟩).imp
      fun _ _ hab => ⟨hab.2.1, hab.2.2, hab.1⟩
  | sequence hv hw =>
    rw [(holds_of_elements? hv).2.2, (holds_of_elements? hw).2.2]
    exact .none
  | altered => exact .none

theorem names_eq {R : Value → Value → Prop} {entries others : List (Value × Value)}
    (h : List.Forall₂ (fun entry other => entry.1 = other.1 ∧ R entry.2 other.2) entries others) :
    names entries = names others := by
  induction h with
  | nil => rfl
  | @cons entry other _ _ hpair _ ih =>
    obtain ⟨key, x⟩ := entry
    obtain ⟨_, y⟩ := other
    obtain ⟨rfl, -⟩ := hpair
    cases key with
    | string name => exact congrArg (name :: ·) ih
    | _ => exact ih

theorem lookup_perm {entries others : List (Value × Value)} (h : entries.Perm others)
    (honce : (names entries).Nodup) (name : String) :
    lookup name entries = lookup name others := by
  have honce' : (names others).Nodup := (h.filterMap _).nodup_iff.mp honce
  refine Option.ext fun u => ⟨fun hu => ?_, fun hu => ?_⟩
  · exact lookup_of_mem honce' (h.mem_iff.mp (mem_of_lookup hu))
  · exact lookup_of_mem honce (h.mem_iff.mpr (mem_of_lookup hu))

/-- Related values are found under each name. -/
theorem rel_lookup {R : Value → Value → Prop} {entries others : List (Value × Value)}
    (h : Arranged order (fun entry other => entry.1 = other.1 ∧ R entry.2 other.2) entries others)
    (honce : order = .free → (names entries).Nodup) (name : String) :
    Option.Rel R (lookup name entries) (lookup name others) := by
  obtain ⟨middle, hall, hallows⟩ := h
  have hfound : lookup name middle = lookup name others := by
    cases order with
    | kept => exact congrArg _ (show middle = others from hallows)
    | free => exact lookup_perm hallows (names_eq hall ▸ honce rfl) name
  rw [← hfound]
  clear hallows honce hfound
  induction hall with
  | nil => exact .none
  | @cons entry other _ _ hpair _ ih =>
    obtain ⟨key, x⟩ := entry
    obtain ⟨_, y⟩ := other
    obtain ⟨rfl, hxy⟩ := hpair
    by_cases hkey : key = .string name
    · subst hkey
      rw [lookup_cons_self, lookup_cons_self]
      exact .some hxy
    · rw [lookup_cons_of_ne hkey, lookup_cons_of_ne hkey]
      exact ih

theorem RecastSafely.names_nodup (h : v.RecastSafely order w) {entries : List (Value × Value)}
    (hv : v.entries? = some entries) (hfree : order = .free) : (names entries).Nodup := by
  have hself := everywhere_self (h.2 hfree)
  simpa [namesOnce, hv] using hself

end Value

namespace Descriptor

/-- A descriptor, and two values of which one is the other recast. -/
def Recasting (order : Arrangement) (d : Descriptor) (v : Value) (e : Descriptor) (w : Value) :
    Prop := d = e ∧ v.RecastSafely order w

variable {order : Arrangement} {v w : Value}

theorem lengthPlan_recast (h : v.RecastSafely order w) :
    Plan.Rel Eq (fun _ _ => True) (Recasting order) v w (lengthPlan v) (lengthPlan w) := by
  have hentries := h.entries?
  have honce : ∀ entries, v.entries? = some entries → order = .free →
      (Value.names entries).Nodup := fun _ => h.names_nodup
  unfold lengthPlan
  generalize v.entries? = entries, w.entries? = others at hentries honce
  cases hentries with
  | none => exact .stuck rfl
  | @some entries others harranged =>
    have hlength := Value.rel_lookup harranged (honce _ rfl) "length"
    dsimp only
    generalize Value.lookup "length" entries = length, Value.lookup "length" others = length'
      at hlength ⊢
    cases hlength with
    | none => exact .stuck rfl
    | @some a b hab =>
      simp only [hab.1.sameFace.number?]
      cases b.number? with
      | none => exact .stuck rfl
      | some q => exact .answer _ _ trivial

/-- What a descriptor plans for a value and for one that it is recast to is similar. -/
theorem plan_recast (h : v.RecastSafely order w) (d : Descriptor) :
    Plan.Similar order Eq (fun _ _ => True) (Recasting order) v w (d.plan v) (d.plan w) := by
  have hface := h.1.sameFace
  cases d with
  | null | void =>
    simp only [plan, hface.isAbsent]
    exact .rel (.answer _ _ trivial)
  | boolean =>
    simp only [plan, hface.isBool]
    exact .rel (.answer _ _ trivial)
  | string =>
    simp only [plan, hface.isText]
    exact .rel (.answer _ _ trivial)
  | number =>
    simp only [plan, hface.isNumber]
    cases isNumber w with
    | ok holds => exact .rel (.answer _ _ trivial)
    | error e => exact .rel (.stuck rfl)
  | literal p =>
    simp only [plan, hface.isLiteral]
    exact .rel (.answer _ _ trivial)
  | any | image | optional => exact .rel (.every .nil)
  | outsider => exact .rel (.stuck rfl)
  | file => exact .rel (lengthPlan_recast h)
  | union ds =>
    exact .rel (.oneOf (List.forall₂_same.mpr fun e _ => ⟨rfl, h⟩) trivial)
  | type described =>
    simp only [plan, hface.descriptorKind?]
    cases w.descriptorKind? <;> exact .rel (.answer _ _ trivial)
  | list item =>
    have helements := h.elements?
    simp only [plan]
    generalize v.elements? = items, w.elements? = others at helements
    cases helements with
    | none => exact .rel (.answer _ _ trivial)
    | some hall => exact .rel (.every (forall₂_mapIdx hall fun i a b hab => .part _ ⟨rfl, hab⟩))
  | record item =>
    have hentries := h.entries?
    simp only [plan]
    generalize v.entries? = entries, w.entries? = others at hentries
    cases hentries with
    | none => exact .rel (.answer _ _ trivial)
    | some harranged =>
      refine .every (harranged.map ?_)
      rintro ⟨key, a⟩ ⟨_, b⟩ ⟨rfl, hab⟩
      cases key with
      | string name => exact .part _ ⟨rfl, hab⟩
      | _ => exact .blemish trivial
  | object fields =>
    have hentries := h.entries?
    have honce : ∀ entries, v.entries? = some entries → order = .free →
      (Value.names entries).Nodup := fun _ => h.names_nodup
    simp only [plan]
    generalize v.entries? = entries, w.entries? = others at hentries honce
    cases hentries with
    | none => exact .rel (.answer _ _ trivial)
    | @some entries others harranged =>
      refine .rel (.every ?_)
      rw [List.forall₂_map_left_iff, List.forall₂_map_right_iff, List.forall₂_same]
      intro field _
      have hfound := Value.rel_lookup harranged (honce _ rfl) field.1
      refine .part _ ⟨rfl, ?_⟩
      unfold Value.entryOrNull
      generalize Value.lookup field.1 entries = a, Value.lookup field.1 others = b at hfound ⊢
      cases hfound with
      | none => exact ⟨.one _, fun _ => rfl⟩
      | some hab => exact hab

theorem engine_recasts (order : Arrangement) :
    engine.Resembles engine order Eq (fun _ _ => True) (Recasting order) where
  kind := fun h => congrArg kind h.1
  derived? := by
    rintro d v _ w ⟨rfl, h⟩
    change Option.Rel _ d.derived? d.derived?
    cases d.derived? with
    | none => exact .none
    | some shape => exact .some ⟨rfl, h⟩
  plan := by
    rintro d v _ w ⟨rfl, h⟩
    exact plan_recast h d

end Descriptor

theorem runCheck_recast {v w : Value} (h : v.Recast .kept w) (d : Descriptor)
    (settings : Settings) (mode : Recording) :
    Recorded Eq (Issue.Matches [] fun _ _ => True) #[] #[] (runCheck settings mode d v)
      (runCheck settings mode d w) := by
  simp only [runCheck, check_eq]
  exact Engine.check_records (Descriptor.engine_recasts .kept).mirrors (fun _ => rfl) _ mode
    ⟨rfl, h, fun hfree => by contradiction⟩ [] [] #[] #[]

/-- Where an issue is, and what kind of descriptor it is of. -/
def Issue.place (i : Issue) : Path × Kind := (i.path, i.kind)

theorem Issue.Matches.place_eq {M : Reason → Reason → Prop} {i j : Issue}
    (h : i.Matches [] M j) : i.place = j.place := by
  rw [Issue.place, Issue.place, h.path, h.kind, List.nil_append]

theorem explain_recast {v w : Value} (h : v.Recast .kept w) (d : Descriptor)
    (settings : Settings) : (explain settings d v).map (·.summary Issue.place) =
      (explain settings d w).map (·.summary Issue.place) := by
  have hrun := runCheck_recast h d settings (if settings.collectAll.truthy then .all else .first)
  simp only [explain]
  generalize runCheck settings _ d v = run, runCheck settings _ d w = run' at hrun
  cases hrun with
  | error he => exact he ▸ rfl
  | answer ok hnew hnew' hmatch =>
    have hplaces := map_eq_of_forall₂ hmatch fun i j hij => hij.place_eq
    simp only [Except.map, Report.summary, hnew, hnew', List.nil_append, hplaces]

theorem gives_of_validate {settings : Settings} {d : Descriptor} {v : Value} {ok : Bool}
    (h : validate settings d v = .ok ok) : (Descriptor.engine.check settings.depth.limit
      (settings.depth.limit.bound + 1) .silent d v []).Gives ok := by
  obtain ⟨⟨_, after⟩, hrun, rfl⟩ := exists_of_map_eq_ok h
  rw [runCheck, check_eq] at hrun
  exact ⟨#[], after, hrun⟩

theorem validate_reordered {v w : Value} (h : v.Recast .free w)
    (honce : v.everywhere Value.namesOnce = true) {d : Descriptor} {settings settings' : Settings}
    {ok ok' : Bool} (hv : validate settings d v = .ok ok)
    (hw : validate settings' d w = .ok ok') : ok = ok' :=
  Engine.check_concurs (Descriptor.engine_recasts .free) _ _ _ _ _ _ ⟨rfl, h, fun _ => honce⟩ _ _
    _ _ (gives_of_validate hv) (gives_of_validate hw)

/-! ### Objects -/

namespace Store

/-- Two objects with the same content, or two that are trees of one value. -/
def SameContent (store : Store) (x y : Ref) : Prop :=
  store.cell x = store.cell y ∨ ∃ v, store.IsTreeOf x v ∧ store.IsTreeOf y v

/-- One look at two objects of which one is the other recast: their parts are related. -/
inductive Turned (store : Store) (order : Arrangement) (B : Ref → Ref → Prop) (x y : Ref) :
    Prop where
  | same (h : store.SameContent x y)
  | sequence {items others : List Ref} (hx : store.elements? x = some items)
    (hy : store.elements? y = some others) (h : List.Forall₂ B items others)
  | mapping {entries others : List (Ref × Ref)} (hx : store.entries? x = some entries)
    (hy : store.entries? y = some others) (h : Arranged order (fun entry other =>
      store.SameContent entry.1 other.1 ∧ B entry.2 other.2) entries others)
  | field {kind : Kind} {u w : Ref} (hx : store.cell x = .descriptor kind u)
    (hy : store.cell y = .descriptor kind w) (h : B u w)

/-- The same object, up to the classes of sequences and mappings and maybe the order of entries, on
all ways into it, which may have no end. -/
def Recast (store : Store) (order : Arrangement) (x y : Ref) : Prop :=
  ∃ B : Ref → Ref → Prop, B x y ∧ ∀ u w, B u w → store.Turned order B u w

variable {store : Store} {order : Arrangement} {B : Ref → Ref → Prop} {S : Ref → Prop} {x y : Ref}

theorem SameContent.name? (hproper : store.Proper) (h : store.SameContent x y) :
    store.name? x = store.name? y := by
  rcases h with hcell | ⟨v, hx, hy⟩
  · rw [Store.name?, Store.name?, hcell]
  · exact name?_of_trees hproper hx hy

theorem face_of_elements? {items : List Ref} (h : store.elements? x = some items) :
    (store.face x).holds = true ∧ (store.face x).descriptorKind? = none ∧
      store.entries? x = none := by
  unfold elements? at h
  cases hcell : store.cell x with
  | list | tuple => simp [face, entries?, hcell, Cell.face, Value.holds, Value.descriptorKind?]
  | _ => simp [hcell] at h

theorem face_of_entries? {entries : List (Ref × Ref)} (h : store.entries? x = some entries) :
    (store.face x).holds = true ∧ (store.face x).descriptorKind? = none ∧
      store.elements? x = none := by
  unfold entries? at h
  cases hcell : store.cell x with
  | dict | view => simp [face, elements?, hcell, Cell.face, Value.holds, Value.descriptorKind?]
  | _ => simp [hcell] at h

/-- One look does not tell an object from what it is recast to. -/
theorem Turned.looksLike (hproper : store.Proper) (h : store.Turned order B x y)
    (honce : order = .free → ∀ entries, store.entries? x = some entries →
      (store.names entries).Nodup) :
    store.LooksLike order (fun _ _ => True) (fun a b => B a b ∨ store.SameContent a b) x y := by
  have hwords : store.Worded (fun _ _ => True) x y := ⟨fun _ _ _ _ => trivial, fun _ => trivial⟩
  cases h with
  | same hsame =>
    rcases hsame with hcell | ⟨v, hx, hy⟩
    · exact .of_cell hcell (fun _ => trivial) (fun _ => .inr (.inl rfl)) hwords honce
    · exact .of_trees hproper hx hy (fun _ _ _ => trivial)
        (fun _ _ u ha hb => .inr (.inr ⟨u, ha, hb⟩)) honce
  | sequence hx hy hall =>
    obtain ⟨hholds, hkind, hnone⟩ := face_of_elements? hx
    obtain ⟨hholds', hkind', hnone'⟩ := face_of_elements? hy
    refine ⟨.holding hholds hholds' (hkind.trans hkind'.symm), hwords, ?_, ?_,
      fun hfree _ hx => honce hfree _ hx⟩
    · rw [hx, hy]
      exact .some (hall.imp fun _ _ hab => .inl hab)
    · rw [hnone, hnone']
      exact .none
  | mapping hx hy harranged =>
    obtain ⟨hholds, hkind, hnone⟩ := face_of_entries? hx
    obtain ⟨hholds', hkind', hnone'⟩ := face_of_entries? hy
    refine ⟨.holding hholds hholds' (hkind.trans hkind'.symm), hwords, ?_, ?_,
      fun hfree _ hx => honce hfree _ hx⟩
    · rw [hnone, hnone']
      exact .none
    · rw [hx, hy]
      obtain ⟨middle, hall, hallows⟩ := harranged
      exact .some ⟨middle, hall.imp fun _ _ hab => ⟨hab.1.name? hproper, trivial, .inl hab.2⟩,
        hallows⟩
  | field hx hy hpart =>
    refine ⟨?_, hwords, ?_, ?_, fun hfree _ hx => honce hfree _ hx⟩
    · rw [face, face, hx, hy]
      exact .same _
    · rw [elements?, elements?, hx, hy]
      exact .none
    · rw [entries?, entries?, hx, hy]
      exact .none

/-- Objects of a set of which one is recast to the other. -/
def RecastIn (store : Store) (S : Ref → Prop) (B : Ref → Ref → Prop) (x y : Ref) : Prop :=
  S x ∧ (B x y ∨ store.SameContent x y)

variable {P : Subject → Prop}

/-- The engine says similar things of an object and of what it is recast to. In any order names are
found only if there are no two entries under one. -/
theorem engine_recasts (hproper : store.Proper) (hclosed : ∀ s, P s → store.Readable P s)
    (hwhole : store.Whole S) (honce : order = .free → store.NamedOnce S)
    (hB : ∀ u w, B u w → store.Turned order B u w) :
    store.engine.Resembles store.engine order Eq (fun _ _ => True)
      (Against P (store.RecastIn S B)) := by
  refine engine_resembles hproper (fun _ => trivial) ⟨hwhole.absent, .inr (.inl rfl)⟩ ?_ hclosed
  rintro x y ⟨hx, hxy⟩
  have hturned : store.Turned order B x y := hxy.elim (hB x y) .same
  exact (hturned.looksLike hproper fun hfree => honce hfree x hx).within hwhole hx
    fun a b ha hab => ⟨ha, hab⟩

theorem runCheck_recast (hproper : store.Proper) {s : Subject} (hs : store.IsSchema s)
    (h : store.Recast .kept x y) (settings : Settings) (mode : Recording) :
    Recorded Eq (Issue.Matches [] fun _ _ => True) #[] #[] (store.runCheck settings mode s x)
      (store.runCheck settings mode s y) := by
  rw [runCheck_eq_check hs, runCheck_eq_check hs]
  obtain ⟨member, hmem, hclosed⟩ := hs
  obtain ⟨B, hxy, hB⟩ := h
  have hengine := engine_recasts hproper (fun s => readable_of_closed hclosed) whole_all
    (fun hfree => by contradiction) hB
  exact Engine.check_records hengine.mirrors (fun _ => rfl) _ mode
    ⟨⟨hmem, rfl⟩, trivial, .inl hxy⟩ [] [] #[] #[]

theorem gives_of_validate (hproper : store.Proper) {r v : Ref} (hr : store.IsSchema (.object r))
    {settings : Settings} {ok : Bool} (h : store.validate settings r v = .ok ok) :
    (store.engine.check settings.depth.limit (settings.depth.limit.bound + 1) .silent (.object r) v
      []).Gives ok := by
  rw [validate_eq_walk hproper] at h
  obtain ⟨⟨_, after⟩, hrun, rfl⟩ := exists_of_map_eq_ok h
  rw [runCheck_eq_check hr] at hrun
  exact ⟨#[], after, hrun⟩

theorem validate_reordered (hproper : store.Proper) {r : Ref} (hr : store.IsSchema (.object r))
    (h : store.Recast .free x y) (honce : store.NamesOnce x) {settings settings' : Settings}
    {ok ok' : Bool} (hx : store.validate settings r x = .ok ok)
    (hy : store.validate settings' r y = .ok ok') : ok = ok' := by
  have hgives := gives_of_validate hproper hr hx
  have hgives' := gives_of_validate hproper hr hy
  obtain ⟨member, hmem, hclosed⟩ := hr
  obtain ⟨B, hxy, hB⟩ := h
  obtain ⟨S, hS, hwhole, hnamed⟩ := honce
  have hengine := engine_recasts hproper (fun s => readable_of_closed hclosed) hwhole
    (fun _ => hnamed) hB
  exact Engine.check_concurs hengine _ _ _ _ _ _ ⟨⟨hmem, rfl⟩, hS, .inl hxy⟩ _ _ _ _ hgives hgives'

/-- Lists of lists of numbers, and a list and a tuple that hold themselves and a number; records of
anything, and two mappings that hold themselves and a number, in either order. -/
def turned : Store := ⟨#[.plain .null, .plain (.descriptor .number), .descriptor .list 1,
  .descriptor .list 2, .list [4, 5], .plain (.int 5), .tuple [6, 5], .plain (.descriptor .any),
  .descriptor .record 7, .plain (.string "number"), .plain (.string "self"),
  .dict [(9, 5), (10, 11)], .view [(10, 12), (9, 5)]]⟩

theorem turned_proper : turned.Proper := .of_mem rfl (by decide)

theorem turned_isSchema_list : turned.IsSchema (.object 3) := by
  refine ⟨fun r => r = 1 ∨ r = 2 ∨ r = 3, .inr (.inr rfl), ?_⟩
  rintro r (rfl | rfl | rfl)
  · exact .leaf (d := .number) rfl rfl trivial
  · exact .list rfl (show 1 = 1 ∨ _ from .inl rfl)
  · exact .list rfl (show 2 = 1 ∨ 2 = 2 ∨ _ from .inr (.inl rfl))

theorem turned_isSchema_record : turned.IsSchema (.object 8) := by
  refine ⟨fun r => r = 7 ∨ r = 8, .inr rfl, ?_⟩
  rintro r (rfl | rfl)
  · exact .leaf (d := .any) rfl rfl trivial
  · exact .record rfl (show 7 = 7 ∨ _ from .inl rfl)

theorem turned_recast_list : turned.Recast .kept 4 6 := by
  refine ⟨fun x y => x = 4 ∧ y = 6 ∨ x = 5 ∧ y = 5, .inl ⟨rfl, rfl⟩, ?_⟩
  rintro x y (⟨rfl, rfl⟩ | ⟨rfl, rfl⟩)
  · exact .sequence rfl rfl (.cons (.inl ⟨rfl, rfl⟩) (.cons (.inr ⟨rfl, rfl⟩) .nil))
  · exact .same (.inl rfl)

theorem turned_recast_dict : turned.Recast .free 11 12 := by
  refine ⟨fun x y => x = 11 ∧ y = 12 ∨ x = 5 ∧ y = 5, .inl ⟨rfl, rfl⟩, ?_⟩
  rintro x y (⟨rfl, rfl⟩ | ⟨rfl, rfl⟩)
  · refine .mapping rfl rfl ⟨[(9, 5), (10, 12)], ?_, List.Perm.swap _ _ _⟩
    exact .cons ⟨.inl rfl, .inr ⟨rfl, rfl⟩⟩ (.cons ⟨.inl rfl, .inl ⟨rfl, rfl⟩⟩ .nil)
  · exact .same (.inl rfl)

theorem turned_namesOnce : turned.NamesOnce 11 := by
  refine ⟨fun r => r = 0 ∨ r = 5 ∨ r = 11, .inr (.inr rfl), ⟨.inl rfl, ?_, ?_⟩, ?_⟩
  · rintro r (rfl | rfl | rfl) items hitems <;> cases hitems
  · rintro r (rfl | rfl | rfl) entries hentries <;> cases hentries
    decide
  · rintro r (rfl | rfl | rfl) entries hentries <;> cases hentries
    decide

end Store

/-! ### Main statement -/

end DataSchema
