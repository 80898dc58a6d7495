import DataSchema.Proofs.Store.Alternatives
import DataSchema.Proofs.Store.Configuration
import DataSchema.Proofs.Store.File

/-!
What no object can do. Checks of objects by schemas, which may both hold themselves, fail at most
for want of levels, as those of values do.
-/

namespace DataSchema

namespace Store

variable {store : Store} {P : Subject → Prop} {Q : Ref → Prop}

/-- A mapping with a number under the name that files have their length under. -/
def HasLength (store : Store) (v : Ref) : Prop :=
  ∃ entries entry q, store.entries? v = some entries ∧ entry ∈ entries ∧
    store.name? entry.1 = some "length" ∧ store.lookup (.string "length") entries = entry.2 ∧
    (store.face entry.2).real? = some q

/-- The plan for an object that can be asked about is none of those that fail. -/
theorem plan_not_stuck (hproper : store.Proper) (hread : ∀ s, P s → store.Readable P s)
    {s : Subject} (hs : P s) {v : Ref} (hv : (store.face v).fitsFloat = true)
    (hpasses : ∀ shape, store.engine.derived? s = some shape → store.engine.Passes shape v)
    (e : Error) : store.plan s v ≠ .stuck e := by
  obtain ⟨kind, shape, -, hshape, hform⟩ := hread s hs
  rw [engine_derived? hshape] at hpasses
  unfold plan
  generalize store.form s = form at hform
  cases hform with
  | @plain d hsettled hd =>
    cases d with
    | number =>
      obtain ⟨holds, hholds⟩ := Value.isNumber_of_fitsFloat hv
      simp [settledPlan, isNumber_surface, hholds]
    | optional | file | image => contradiction
    | _ => first | exact hsettled.elim | simp [settledPlan, Descriptor.plan, Plan.bare]
  | optional | optionalShape | image => simp [settledPlan, Descriptor.plan, Plan.bare]
  | file s t =>
    obtain ⟨_, _, q, -, -, -, -, -, hlength⟩ :=
      length_of_passes hproper (hpasses (.shape (Descriptor.fileShape t)) rfl)
    simp [settledPlan, Descriptor.plan, lengthPlan_eq hlength, Plan.bare]
  | literal p => simp [isAlteredLiteral?_toValue]
  | list => cases store.elements? v <;> simp
  | record | object => cases store.entries? v <;> simp
  | union => simp
  | type => cases store.kind? v <;> simp

theorem engine_confined {X : Error → Error → Prop} (hread : ∀ s, P s → store.Readable P s)
    (hwhole : store.Whole Q)
    (hstuck : ∀ s v e, P s → Q v →
      (∀ shape, store.engine.derived? s = some shape → store.engine.Passes shape v) →
      store.plan s v = .stuck e → X e e) :
    store.engine.Confined X fun s v => P s ∧ Q v where
  derived? := by
    rintro s v ⟨hs, hv⟩ t ht
    obtain ⟨kind, shape, -, hshape, hform⟩ := hread s hs
    rw [engine_derived? hshape] at ht
    exact ⟨hform.shape t ht, hv⟩
  plan := by
    rintro s v ⟨hs, hv⟩ hpasses
    exact plan_stays hread hwhole hs hv fun e => hstuck s v e hs hv hpasses

theorem engine_safe (hproper : store.Proper) (hread : ∀ s, P s → store.Readable P s)
    (hwhole : store.Whole Q) (hfits : ∀ w, Q w → (store.face w).fitsFloat = true) :
    store.engine.Safe fun s v => P s ∧ Q v := by
  refine engine_confined hread hwhole fun s v e hs hv hpasses he => ?_
  exact plan_not_stuck hproper hread hs (hfits v hv) hpasses e he

variable {settings : Settings} {q : Rat}

/-- A walk over an object fails at most for want of levels. -/
theorem onlyLacksLevels_runCheck (hproper : store.Proper)
    (hdepth : settings.depth.number = .finite q) (mode : Recording) {s : Subject}
    (hs : store.IsSchema s) {v : Ref} (hv : store.Everywhere Value.fitsFloat v) :
    OnlyLacksLevels (store.runCheck settings mode s v) := by
  obtain ⟨member, hmem, hclosed⟩ := hs
  obtain ⟨Q, hQ, hwhole, hfits⟩ := hv
  have hread := fun s => readable_of_closed hclosed (s := s)
  simp only [runCheck, check_eq hread _ _ mode hmem]
  exact Engine.check_safe (engine_safe hproper hread hwhole hfits)
    (settings.depth.family_overrun hdepth) _ mode ⟨hmem, hQ⟩ [] #[]

theorem onlyLacksLevels_validate (hproper : store.Proper)
    (hdepth : settings.depth.number = .finite q) {r v : Ref} (hr : store.IsSchema (.object r))
    (hv : store.Everywhere Value.fitsFloat v) :
    OnlyLacksLevels (store.validate settings r v) := by
  rw [validate_eq_walk hproper]
  exact (onlyLacksLevels_runCheck hproper hdepth .silent hr hv).map _

theorem onlyLacksLevels_explain (hproper : store.Proper)
    (hdepth : settings.depth.number = .finite q) {r v : Ref} (hr : store.IsSchema (.object r))
    (hv : store.Everywhere Value.fitsFloat v) :
    OnlyLacksLevels (store.explain settings r v) := by
  have hreported := explain_reported hproper hr settings v
  have hwalk := onlyLacksLevels_runCheck hproper hdepth
    (if settings.collectAll.truthy then .all else .first) hr hv
  generalize store.runCheck settings _ (.object r) v = walk, store.explain settings r v = told
    at hreported hwalk ⊢
  cases hreported with
  | error e => exact fun e' he => hwalk e' (congrArg Except.error (Except.error.inj he))
  | report => exact onlyLacksLevels_ok _

/-! ### Alternatives -/

theorem onlyLacksLevels_firstMatch (hproper : store.Proper)
    (hdepth : settings.depth.number = .finite q) {v : Ref}
    (hv : store.Everywhere Value.fitsFloat v) {subjects : List Subject}
    (hs : ∀ s ∈ subjects, store.IsSchema s) :
    OnlyLacksLevels (store.firstMatch settings v subjects) := by
  induction subjects with
  | nil => exact onlyLacksLevels_ok none
  | cons s subjects ih =>
    have hfirst := onlyLacksLevels_runCheck hproper hdepth .silent (hs s List.mem_cons_self) hv
    have hrest := ih fun t ht => hs t (List.mem_cons_of_mem s ht)
    refine hfirst.bind ?_
    rintro ⟨ok, issues⟩ -
    cases ok with
    | true => exact onlyLacksLevels_ok _
    | false => exact hrest.bind fun _ _ => onlyLacksLevels_ok _

theorem onlyLacksLevels_matchAlternative (hproper : store.Proper)
    (hdepth : settings.depth.number = .finite q) {r v : Ref} (hr : store.IsSchema (.object r))
    (hkind : store.kind? r = some .union) (hv : store.Everywhere Value.fitsFloat v) :
    OnlyLacksLevels (store.matchAlternative settings r v) := by
  have hunion := hr.isUnion hkind
  rw [matchAlternative_eq hproper hunion]
  refine onlyLacksLevels_firstMatch hproper hdepth hv fun s hs => ?_
  obtain ⟨x, hx, rfl⟩ := List.mem_map.mp hs
  exact hunion.alternatives x hx

/-! ### Configurations -/

/-- The shape of configurations holds no objects. -/
theorem isSchema_shape {d : Descriptor} (h : d.IsBuilt) : store.IsSchema (.shape d) :=
  ⟨fun _ => False, h, fun _ hx => hx.elim⟩

theorem onlyLacksLevels_checkConfiguration (hproper : store.Proper)
    (hdepth : settings.depth.number = .finite q) {r : Ref} (hr : store.IsSchema (.object r)) :
    OnlyLacksLevels (store.checkConfiguration settings r) := by
  unfold checkConfiguration
  split
  · next d _ => exact DataSchema.onlyLacksLevels_checkConfiguration hdepth d
  · obtain ⟨kind, hkind⟩ := Option.isSome_iff_exists.mp hr.isVariant.kind?
    obtain ⟨v, store', hrun, hflat, -⟩ := Build.configuration_yields hproper hr.isVariant hkind
    have hproper' : store'.Proper := Build.configuration_keeps r store hproper (v, store') hrun
    have hwalk := onlyLacksLevels_runCheck hproper' hdepth .silent
      (isSchema_shape (Descriptor.isBuilt_configurationShape kind)) (hflat.everywhere hproper')
    rw [kindOf?_of_kind? hkind]
    simp only [bind, Except.bind] at hrun ⊢
    rw [hrun]
    exact hwalk.bind fun _ _ => onlyLacksLevels_ok _

/-! ### Lengths of files -/

/-- Without a number for a length the rule of files is not come to: any other test could stand in
its place. -/
theorem check_file_of_no_length (hproper : store.Proper) {v : Ref} (h : ¬store.HasLength v)
    {s : Subject} {tag : Option String}
    (hs : store.derived? s = .ok (some (.shape (Descriptor.fileShape tag)))) (limit : Limit)
    (levels : Nat) (mode : Recording) (path : Path) (other : Test) :
    store.check limit (levels + 1) mode s v path =
      (store.check limit levels mode (.shape (Descriptor.fileShape tag)) v path).andThen other := by
  have hnever : ∀ before after, store.check limit levels mode
      (.shape (Descriptor.fileShape tag)) v path before ≠ .ok (true, after) := by
    intro before after hshape
    have hread : ∀ s, s.IsOf (fun _ => False) → store.Readable (·.IsOf fun _ => False) s :=
      fun s => readable_of_closed (by simp)
    have hbuilt : Subject.IsOf (fun _ => False) (.shape (Descriptor.fileShape tag)) :=
      Descriptor.isBuilt_fileShape tag
    rw [check_eq hread _ _ _ hbuilt] at hshape
    obtain ⟨entries, entry, q, hv, hentry, hname, hlookup, hreal, -⟩ :=
      length_of_passes hproper (Engine.passes_of_check hshape)
    exact h ⟨entries, entry, q, hv, hentry, hname, hlookup, hreal⟩
  simp only [check, hs]
  exact Test.andThen_congr hnever _ other

/-! ### Main statement -/

/-- Whatever the engine is asked about a schema and an object, it answers or lacks levels. -/
structure Safe (store : Store) (settings : Settings) (r v : Ref) : Prop where
  validate : OnlyLacksLevels (store.validate settings r v)
  explain : OnlyLacksLevels (store.explain settings r v)
  matchAlternative (h : store.kind? r = some .union) :
    OnlyLacksLevels (store.matchAlternative settings r v)
  checkConfiguration : OnlyLacksLevels (store.checkConfiguration settings r)

theorem safe_objects (hproper : store.Proper) (hdepth : settings.depth.number = .finite q)
    {r v : Ref} (hr : store.IsSchema (.object r)) (hv : store.Everywhere Value.fitsFloat v) :
    store.Safe settings r v where
  validate := onlyLacksLevels_validate hproper hdepth hr hv
  explain := onlyLacksLevels_explain hproper hdepth hr hv
  matchAlternative := fun h => onlyLacksLevels_matchAlternative hproper hdepth hr h hv
  checkConfiguration := onlyLacksLevels_checkConfiguration hproper hdepth hr

theorem recursive_fitsFloat : recursive.Everywhere Value.fitsFloat 5 := by
  refine ⟨fun _ => True, trivial, whole_all, fun w _ => ?_⟩
  match w with
  | 0 | 1 | 2 | 3 | 4 | 5 | 7 | _ + 8 => exact rfl
  | 6 => exact (by decide +kernel : (Value.fraction (1 / 3)).fitsFloat = true)

end Store

/-- No value, and no object that may hold itself, makes the engine fail but for want of levels. The
rule of files is only come to where there is a number for a length. -/
theorem wrong_values_only_lack_levels :
    (∀ (settings : Settings) (depth : Int), settings.depth.number = .finite depth →
      (∀ d v, d.IsBuilt → v.everywhere Value.fitsFloat = true → Safe settings d v) ∧
      ∀ store : Store, store.Proper → ∀ r v, store.IsSchema (.object r) →
        store.Everywhere Value.fitsFloat v → store.Safe settings r v) ∧
    (∀ v, ¬v.HasLength → ∀ limit levels mode tag path other,
      check limit (levels + 1) mode (.file tag) v path =
        (check limit levels mode (Descriptor.fileShape tag) v path).andThen other) ∧
    ∀ store : Store, store.Proper → ∀ v, ¬store.HasLength v → ∀ s tag,
      store.derived? s = .ok (some (.shape (Descriptor.fileShape tag))) →
      ∀ limit levels mode path other, store.check limit (levels + 1) mode s v path =
        (store.check limit levels mode (.shape (Descriptor.fileShape tag)) v path).andThen
          other := by
  refine ⟨fun settings depth hdepth => ⟨?_, ?_⟩, ?_, ?_⟩
  · exact fun d v hd hv => safe_values hdepth hd hv
  · exact fun store hproper r v hr hv => Store.safe_objects hproper hdepth hr hv
  · exact fun v hv limit levels mode tag path other =>
      Descriptor.check_file_of_no_length hv limit levels mode tag path other
  · exact fun store hproper v hv s tag hs limit levels mode path other =>
      Store.check_file_of_no_length hproper hv hs limit levels mode path other

/-- A fraction in the place of a file's name, and a list that holds itself in that of numbers and
lists of such: the one is rejected, the other comes to the last level. -/
theorem wrong_values_only_lack_levels_loop :
    let settings : Settings := ⟨.ofInt 3 (by decide), .bool true⟩
    let d := Descriptor.union [.file none, .record .null]
    let v := Value.dict [(.string "name", .fraction (1 / 3))]
    let store := Store.recursive
    settings.depth.number = .finite (3 : Int) ∧ d.IsBuilt ∧
      v.everywhere Value.fitsFloat = true ∧ Safe settings d v ∧
      validate settings d v = .ok false ∧ store.Proper ∧ store.IsSchema (.object 3) ∧
      store.Everywhere Value.fitsFloat 5 ∧ store.Safe settings 3 5 ∧
      store.validate settings 3 5 = .error (.nestedTooDeep (.int 3) .union) ∧ ¬v.HasLength ∧
      (∀ other, check ⟨.int 3, some 3⟩ 2 .all (.file none) v [] =
        (check ⟨.int 3, some 3⟩ 1 .all (Descriptor.fileShape none) v []).andThen other) ∧
      ¬store.HasLength 5 ∧
      store.derived? (.object 7) = .ok (some (.shape (Descriptor.fileShape none))) ∧
      ∀ other, store.check ⟨.int 3, some 3⟩ 2 .all (.object 7) 5 [] =
        (store.check ⟨.int 3, some 3⟩ 1 .all (.shape (Descriptor.fileShape none)) 5 []).andThen
          other := by
  intro settings d v store
  obtain ⟨hsafe, hvalues, hobjects⟩ := wrong_values_only_lack_levels
  have hdepth : settings.depth.number = .finite (3 : Int) := rfl
  have hbuilt : d.IsBuilt := by simp [d, Descriptor.IsBuilt, Descriptor.AllBuilt]
  have hfits : v.everywhere Value.fitsFloat = true := by decide +kernel
  have hlength : ¬v.HasLength := by
    rintro ⟨entries, length, q, hentries, hlookup, -⟩
    obtain rfl := Option.some.inj hentries
    simp [Value.lookup] at hlookup
  have hlength' : ¬store.HasLength 5 := by
    rintro ⟨entries, entry, q, hentries, -⟩
    exact Option.some_ne_none entries hentries.symm
  have hderived : store.derived? (.object 7) = .ok (some (.shape (Descriptor.fileShape none))) :=
    rfl
  exact ⟨hdepth, hbuilt, hfits, (hsafe settings 3 hdepth).1 d v hbuilt hfits, rfl,
    Store.recursive_proper, Store.recursive_isSchema, Store.recursive_fitsFloat,
    (hsafe settings 3 hdepth).2 store Store.recursive_proper 3 5 Store.recursive_isSchema
      Store.recursive_fitsFloat, rfl, hlength, hvalues v hlength _ _ _ _ _, hlength', hderived,
    hobjects store Store.recursive_proper 5 hlength' _ none hderived _ _ _ _⟩

end DataSchema
