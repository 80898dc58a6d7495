import DataSchema.Proofs.Build
import DataSchema.Proofs.Everywhere
import DataSchema.Proofs.File

/-!
What no value can do. However little a value has of what a descriptor asks for, a check of it fails
at most for want of levels. The rule of files reads and compares what need not be there, but is not
come to where it is not. Only a fraction with no finite float next to it cannot be asked about.
-/

namespace DataSchema

/-- A computation that fails at most for want of levels. -/
def OnlyLacksLevels {α : Type} (r : Except Error α) : Prop :=
  ∀ e, r = .error e → e.family = .nesting

theorem onlyLacksLevels_ok {α : Type} (a : α) : OnlyLacksLevels (.ok a : Except Error α) :=
  FailsOnly.ok a

namespace OnlyLacksLevels

variable {α β : Type} {r : Except Error α}

theorem bind {f : α → Except Error β} (hr : OnlyLacksLevels r)
    (hf : ∀ a, r = .ok a → OnlyLacksLevels (f a)) : OnlyLacksLevels (r >>= f) :=
  FailsOnly.bind hr hf

theorem map (f : α → β) (hr : OnlyLacksLevels r) : OnlyLacksLevels (r.map f) := FailsOnly.map f hr

end OnlyLacksLevels

/-- With a depth that is a number, what fails for want of levels is known to. -/
theorem Depth.family_overrun (depth : Depth) {q : Rat} (h : depth.number = .finite q)
    (kind : Kind) : (depth.limit.overrun kind).family = .nesting := by
  unfold Depth.limit
  split
  · exact Limit.family_overrun rfl kind
  · simp only [h]
    exact Limit.family_overrun rfl kind

/-! ### Engines -/

/-- All failures of a test are of one sort. -/
def Test.FailsOnly (sort : Error → Prop) (t : Test) : Prop :=
  ∀ before, DataSchema.FailsOnly sort _ (t before)

/-- A test that fails at most for want of levels. -/
def Test.Safe (t : Test) : Prop := ∀ before, OnlyLacksLevels (t before)

theorem accord_failsOnly (mode : Recording) {X : Error → Error → Prop} (M : Reason → Reason → Prop)
    {sort : Error → Prop} (hX : ∀ e e', X e e' → sort e) :
    Accord mode mode [] X M (fun t _ => t.FailsOnly sort) (fun t _ => t.FailsOnly sort) where
  pass := fun _ => .ok _
  fail := fun _ _ => .ok _
  raise := by
    intro e e' h before cause hcause
    obtain rfl := Except.error.inj hcause
    exact hX _ _ h
  andThen := by
    intro s _ t _ hs ht before
    refine (hs before).bind ?_
    rintro ⟨ok, after⟩ -
    cases ok with
    | true => exact ht after
    | false => exact .ok _
  orElse := by
    intro s _ t _ hs ht before
    refine (hs before).bind ?_
    rintro ⟨ok, after⟩ -
    cases ok with
    | true => exact .ok _
    | false => exact ht after
  also := by
    intro s _ t _ hs ht before
    refine (hs before).bind ?_
    rintro ⟨ok, after⟩ -
    cases ok with
    | true => exact ht after
    | false =>
      cases mode.stopsEarly with
      | true => exact .ok _
      | false => exact (ht after).bind fun _ _ => .ok _

/-- The second of two tests does not matter where the first never passes. -/
theorem Test.andThen_congr {s : Test} (h : ∀ before after, s before ≠ .ok (true, after))
    (t t' : Test) : s.andThen t = s.andThen t' := by
  funext before
  unfold Test.andThen
  cases hs : s before with
  | error e => rfl
  | ok outcome =>
    obtain ⟨ok, after⟩ := outcome
    cases ok with
    | true => exact absurd hs (h before after)
    | false => rfl

namespace Engine

variable {D V : Type} {E : Engine D V} {P : D → V → Prop}

/-- What can be checked but for some failures: derived shapes can, and if they let the value pass
then the rule has something to say or fails so, and hands on only what can be checked. -/
structure Confined (E : Engine D V) (X : Error → Error → Prop) (P : D → V → Prop) : Prop where
  derived? {d : D} {v : V} (h : P d v) {shape : D} (hd : E.derived? d = some shape) : P shape v
  plan {d : D} {v : V} (h : P d v)
    (hpasses : ∀ shape, E.derived? d = some shape → E.Passes shape v) :
    Plan.Rel X Eq (fun e w e' w' => P e w ∧ e = e' ∧ w = w') v v (E.plan d v) (E.plan d v)

/-- What can be checked without failures. -/
abbrev Safe (E : Engine D V) (P : D → V → Prop) : Prop := E.Confined (fun _ _ => False) P

/-- A check of what can be checked but for some failures fails so or for want of levels, level by
level. -/
theorem check_confined {X : Error → Error → Prop} (hE : E.Confined X P) {sort : Error → Prop}
    (hX : ∀ e e', X e e' → sort e) {limit : Limit} (hlimit : ∀ kind, sort (limit.overrun kind))
    (levels : Nat) (mode : Recording) {d : D} {v : V} (h : P d v) (path : Path) :
    (E.check limit levels mode d v path).FailsOnly sort := by
  induction levels generalizing mode d v path with
  | zero =>
    intro before e he
    obtain rfl := Except.error.inj he
    exact hlimit (E.kind d)
  | succ levels ih =>
    have hrule (hpasses : ∀ shape, E.derived? d = some shape → E.Passes shape v) :
        ((E.plan d v).run (E.check limit levels) mode (E.kind d) v path).FailsOnly sort := by
      exact Plan.run_keeps (accord_failsOnly mode Eq hX) (hE.plan h hpasses)
        (fun e w q hw => ih mode hw q) (fun e w q hw => ih .silent hw q) (E.kind d) path
    cases hd : E.derived? d with
    | none =>
      rw [E.check_of_none limit levels mode v path hd]
      exact hrule (by simp [hd])
    | some shape =>
      rw [E.check_of_some limit levels mode v path hd]
      intro before
      -- the rule is asked only after the shape has let the value pass
      refine (ih mode (hE.derived? h hd) path before).bind ?_
      rintro ⟨ok, after⟩ hshape
      cases ok with
      | false => exact .ok _
      | true =>
        refine hrule (fun other hother => ?_) after
        obtain rfl := Option.some.inj (hd.symm.trans hother)
        exact passes_of_check hshape

/-- A check of what can be checked fails at most for want of levels. -/
theorem check_safe (hE : E.Safe P) {limit : Limit}
    (hlimit : ∀ kind, (limit.overrun kind).family = .nesting) (levels : Nat) (mode : Recording)
    {d : D} {v : V} (h : P d v) (path : Path) : (E.check limit levels mode d v path).Safe :=
  check_confined hE (fun _ _ => False.elim) hlimit levels mode h path

end Engine

/-! ### Values -/

namespace Value

/-- A fraction has a finite float next to it. -/
def fitsFloat : Value → Bool
  | fraction q => (Binary64.ofRat q).isFinite
  | _ => true

/-- A mapping with a number under the name that files have their length under. -/
def HasLength (v : Value) : Prop :=
  ∃ entries length q, v.entries? = some entries ∧ lookup "length" entries = some length ∧
    length.real? = some q

theorem isNumber_of_fitsFloat {v : Value} (h : v.fitsFloat = true) :
    ∃ holds, isNumber v = .ok holds := by
  cases v with
  | fraction q => exact ⟨true, if_pos h⟩
  | _ => exact ⟨_, rfl⟩

/-- A set of values that has all their elements and entries in it, and what is read where there is
no entry. -/
structure Whole (Q : Value → Prop) : Prop where
  null : Q null
  elements? {v : Value} (h : Q v) {items : List Value} (hitems : v.elements? = some items) :
    ∀ w ∈ items, Q w
  entries? {v : Value} (h : Q v) {entries : List (Value × Value)}
    (hentries : v.entries? = some entries) : ∀ entry ∈ entries, Q entry.2

theorem whole_all : Whole fun _ => True := ⟨trivial, by simp, by simp⟩

theorem whole_everywhere {p : Value → Bool} (hnull : p null = true) :
    Whole fun v => v.everywhere p = true :=
  ⟨hnull, fun h _ hitems => everywhere_elements h hitems,
    fun h _ hentries => everywhere_entries h hentries⟩

theorem Whole.entryOrNull {Q : Value → Prop} (h : Whole Q) {v : Value} (hv : Q v)
    {entries : List (Value × Value)} (hentries : v.entries? = some entries) (name : String) :
    Q (Value.entryOrNull name entries) := by
  unfold Value.entryOrNull
  cases hlookup : lookup name entries with
  | none => exact h.null
  | some w => exact h.entries? hv hentries _ (mem_of_lookup hlookup)

end Value

namespace Descriptor

/-- The plan for a value fails at most as the question does whether a value is a number, and its
parts are values of the same set. -/
theorem plan_confined {X : Error → Error → Prop} {Q : Value → Prop} (hwhole : Value.Whole Q)
    (hnumber : ∀ v e, Q v → isNumber v = .error e → X e e) {d : Descriptor} {v : Value}
    (hd : d.IsBuilt) (hv : Q v)
    (hpasses : ∀ shape, d.derived? = some shape → engine.Passes shape v) :
    Plan.Rel X Eq (fun e w e' w' => (e.IsBuilt ∧ Q w) ∧ e = e' ∧ w = w') v v (d.plan v)
      (d.plan v) := by
  cases d with
  | null | void | boolean | string | literal => exact .answer _ _ rfl
  | any | image | optional => exact .every .nil
  | outsider => exact hd.elim
  | number =>
    simp only [plan]
    cases hholds : isNumber v with
    | ok holds => exact .answer _ _ rfl
    | error e => exact .stuck (hnumber v e hv hholds)
  | file tag =>
    obtain ⟨_, _, q, -, -, -, hlength⟩ := length_of_passes (hpasses (fileShape tag) rfl)
    simp only [plan, lengthPlan_eq hlength]
    exact .answer _ _ rfl
  | type described =>
    simp only [plan]
    cases v.descriptorKind? <;> exact .answer _ _ rfl
  | list item =>
    simp only [plan]
    cases hitems : v.elements? with
    | none => exact .answer _ _ rfl
    | some items =>
      refine .every (List.forall₂_same.mpr fun part hpart => ?_)
      obtain ⟨i, hi, rfl⟩ := List.mem_mapIdx.mp hpart
      exact .part _ ⟨⟨hd, hwhole.elements? hv hitems _ (List.getElem_mem hi)⟩, rfl, rfl⟩
  | record item =>
    simp only [plan]
    cases hentries : v.entries? with
    | none => exact .answer _ _ rfl
    | some entries =>
      refine .every (List.forall₂_same.mpr fun part hpart => ?_)
      obtain ⟨⟨key, w⟩, hentry, rfl⟩ := List.mem_map.mp hpart
      cases key with
      | string name => exact .part _ ⟨⟨hd, hwhole.entries? hv hentries _ hentry⟩, rfl, rfl⟩
      | _ => exact .blemish rfl
  | object fields =>
    simp only [plan]
    cases hentries : v.entries? with
    | none => exact .answer _ _ rfl
    | some entries =>
      refine .every (List.forall₂_same.mpr fun part hpart => ?_)
      obtain ⟨field, hfield, rfl⟩ := List.mem_map.mp hpart
      have hbuilt := (fieldsBuilt_iff fields).mp hd.2 field hfield
      exact .part _ ⟨⟨hbuilt, hwhole.entryOrNull hv hentries _⟩, rfl, rfl⟩
  | union alternatives =>
    refine .oneOf (List.forall₂_same.mpr fun e he => ?_) rfl
    exact ⟨⟨(allBuilt_iff alternatives).mp hd.2 e he, hv⟩, rfl, rfl⟩

theorem engine_confined {X : Error → Error → Prop} {Q : Value → Prop} (hwhole : Value.Whole Q)
    (hnumber : ∀ v e, Q v → isNumber v = .error e → X e e) :
    engine.Confined X fun d v => d.IsBuilt ∧ Q v where
  derived? := fun h _ hd => ⟨h.1.derived hd, h.2⟩
  plan := fun h hpasses => plan_confined hwhole hnumber h.1 h.2 hpasses

theorem engine_safe :
    engine.Safe fun d v => d.IsBuilt ∧ v.everywhere Value.fitsFloat = true := by
  refine engine_confined (Value.whole_everywhere rfl) fun v e hv he => ?_
  obtain ⟨holds, hholds⟩ := Value.isNumber_of_fitsFloat (Value.everywhere_self hv)
  rw [hholds] at he
  contradiction

/-- Without a number for a length the rule of files is not come to: any other test could stand in
its place. -/
theorem check_file_of_no_length {v : Value} (h : ¬v.HasLength) (limit : Limit) (levels : Nat)
    (mode : Recording) (tag : Option String) (path : Path) (other : Test) :
    check limit (levels + 1) mode (file tag) v path =
      (check limit levels mode (fileShape tag) v path).andThen other := by
  refine Test.andThen_congr (fun before after hshape => h ?_) _ other
  rw [check_eq] at hshape
  obtain ⟨entries, length, q, hv, hlookup, hreal, -⟩ :=
    length_of_passes (Engine.passes_of_check hshape)
  exact ⟨entries, length, q, hv, hlookup, hreal⟩

theorem isBuilt_configurationShape (kind : Kind) : (configurationShape kind).IsBuilt := by
  cases kind <;> simp [configurationShape, IsBuilt, FieldsBuilt, AllBuilt, orAbsent]

/-- There are no fractions in the configuration of a descriptor. -/
theorem fitsFloat_configuration (d : Descriptor) :
    d.configuration.everywhere Value.fitsFloat = true := by
  cases d with
  | literal p => cases p <;> rfl
  | file tag => cases tag <;> rfl
  | object fields =>
    have hentries := (Value.everywhereEntries_iff (p := Value.fitsFloat) (fieldEntries fields)).mpr
    simp only [configuration, Value.everywhere, Value.fitsFloat, Bool.true_and]
    refine hentries fun entry hentry => ?_
    obtain ⟨field, -, rfl⟩ := List.mem_map.mp hentry
    rfl
  | union ds =>
    simp only [configuration, Value.everywhere, Value.fitsFloat, Bool.true_and]
    refine (Value.everywhereAll_iff _).mpr fun w hw => ?_
    obtain ⟨e, -, rfl⟩ := List.mem_map.mp hw
    rfl
  | _ => rfl

end Descriptor

variable {settings : Settings} {q : Rat} {d : Descriptor} {v : Value}

theorem onlyLacksLevels_runCheck (hdepth : settings.depth.number = .finite q) (mode : Recording)
    (hd : d.IsBuilt) (hv : v.everywhere Value.fitsFloat = true) :
    OnlyLacksLevels (runCheck settings mode d v) := by
  simp only [runCheck, check_eq]
  exact Engine.check_safe Descriptor.engine_safe (settings.depth.family_overrun hdepth) _ mode
    ⟨hd, hv⟩ [] #[]

theorem onlyLacksLevels_validate (hdepth : settings.depth.number = .finite q) (hd : d.IsBuilt)
    (hv : v.everywhere Value.fitsFloat = true) : OnlyLacksLevels (validate settings d v) :=
  (onlyLacksLevels_runCheck hdepth .silent hd hv).map _

theorem onlyLacksLevels_matchAlternative (hdepth : settings.depth.number = .finite q)
    (hv : v.everywhere Value.fitsFloat = true) {ds : List Descriptor}
    (hds : Descriptor.AllBuilt ds) : OnlyLacksLevels (matchAlternative settings v ds) := by
  induction ds with
  | nil => exact onlyLacksLevels_ok none
  | cons d ds ih =>
    refine (onlyLacksLevels_validate hdepth hds.1 hv).bind fun ok _ => ?_
    cases ok with
    | true => exact onlyLacksLevels_ok _
    | false => exact (ih hds.2).bind fun _ _ => onlyLacksLevels_ok _

theorem onlyLacksLevels_checkConfiguration (hdepth : settings.depth.number = .finite q)
    (d : Descriptor) : OnlyLacksLevels (checkConfiguration settings d) :=
  onlyLacksLevels_validate hdepth (Descriptor.isBuilt_configurationShape d.kind)
    (Descriptor.fitsFloat_configuration d)

/-- Whatever the engine is asked about a descriptor and a value, it answers or lacks levels. -/
structure Safe (settings : Settings) (d : Descriptor) (v : Value) : Prop where
  validate : OnlyLacksLevels (validate settings d v)
  explain : OnlyLacksLevels (explain settings d v)
  matchAlternative {ds : List Descriptor} (h : d = .union ds) :
    OnlyLacksLevels (matchAlternative settings v ds)
  checkConfiguration : OnlyLacksLevels (checkConfiguration settings d)

theorem safe_values (hdepth : settings.depth.number = .finite q) (hd : d.IsBuilt)
    (hv : v.everywhere Value.fitsFloat = true) : Safe settings d v where
  validate := onlyLacksLevels_validate hdepth hd hv
  explain := (onlyLacksLevels_runCheck hdepth _ hd hv).map _
  matchAlternative := by
    rintro ds rfl
    exact onlyLacksLevels_matchAlternative hdepth hv hd.2
  checkConfiguration := onlyLacksLevels_checkConfiguration hdepth d

end DataSchema
