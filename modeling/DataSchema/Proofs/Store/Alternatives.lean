import DataSchema.Proofs.Alternatives
import DataSchema.Proofs.Store.Explanation

/-!
The first alternative of a union that accepts an object. Unions are objects that hold their
alternatives, among which they may be themselves. Main statement: the choice of an alternative and
the validation of the union agree, for values and for objects.
-/

namespace DataSchema

namespace Store

variable {store : Store}

/-- The alternatives that a union holds. -/
def alternatives (store : Store) (r : Ref) : List Ref :=
  match store.cell r with
  | .descriptor .union held => (store.elements? held).getD []
  | _ => []

/-- A union that is a schema holds schemas, and derives no shape. -/
structure IsUnion (store : Store) (r : Ref) : Prop where
  alternatives : ∀ x ∈ store.alternatives r, store.IsSchema (.object x)
  derived? : store.derived? (.object r) = .ok none
  form : store.form (.object r) = .union ((store.alternatives r).map .object)
  parts? : ∃ held, store.cell r = .descriptor .union held ∧
    store.parts? held = some ((store.alternatives r).map .held)

theorem IsSchema.isUnion {r : Ref} (hr : store.IsSchema (.object r))
    (hkind : store.kind? r = some .union) : store.IsUnion r := by
  obtain ⟨member, hmem, hclosed⟩ := hr
  cases hclosed r hmem with
  | @union held items hcell hheld hitems =>
    have halternatives : store.alternatives r = items := by
      simp only [Store.alternatives, hcell, elements?, hheld, Option.getD_some]
    have hparts : store.parts? held = some (items.map .held) := by simp only [Store.parts?, hheld]
    refine ⟨?_, derived?_of_descriptor hcell (by decide), ?_, held, hcell, ?_⟩
    · rw [halternatives]
      exact fun x hx => ⟨member, hitems x hx, hclosed⟩
    · simp only [Store.form, hcell, formOf, hparts, halternatives, List.map_map]
      rfl
    · rw [hparts, halternatives]
  | @leaf d hcell hfield =>
    simp only [Store.kind?, face, hcell, Cell.face, Value.descriptorKind?] at hkind
    rw [Option.some.inj hkind] at hfield
    contradiction
  | file _ hcell => simp [kind?_of_descriptor hcell] at hkind
  | _ hcell => simp [kind?_of_descriptor hcell] at hkind

/-- The plan of a union is to ask for one of its alternatives. -/
theorem IsUnion.plan {r : Ref} (hr : store.IsUnion r) (v : Ref) : store.engine.plan (.object r) v =
    .oneOf ((store.alternatives r).map .object)
      (.noAlternative ((store.alternatives r).map fun x => store.subjectKind (.object x))) := by
  simp only [engine, Store.plan, hr.form, List.map_map, Function.comp_def]

theorem runCheck_eq_verdict {s : Subject} (hs : store.IsSchema s) (settings : Settings) (v : Ref) :
    (store.runCheck settings .silent s v).map (·.1) = store.engine.verdict settings.depth.limit
      (settings.depth.limit.bound + 1) s v := by
  rw [runCheck_eq_check hs, Engine.verdict]

theorem validate_eq_verdict (hproper : store.Proper) {r : Ref} (hr : store.IsSchema (.object r))
    (settings : Settings) (v : Ref) :
    store.validate settings r v = store.engine.verdict settings.depth.limit
      (settings.depth.limit.bound + 1) (.object r) v :=
  (validate_eq_walk hproper settings r v).trans (runCheck_eq_verdict hr settings v)

theorem firstMatch_eq_firstOf (hproper : store.Proper) (settings : Settings) (v : Ref)
    (rs : List Ref) : store.firstMatch settings v (rs.map .object) =
      firstOf (fun r => store.validate settings r v) rs := by
  induction rs with
  | nil => rfl
  | cons r rs ih =>
    rw [List.map_cons, firstMatch, firstOf, ih, validate_eq_walk hproper]
    cases store.runCheck settings .silent (.object r) v <;> rfl

/-- Descriptors match where the subjects do that are read as these, with any value that the object
shows as deep as the engine goes. -/
theorem matchAlternative_reads (hproper : store.Proper) (settings : Settings) {v : Ref} {w : Value}
    (hv : store.Shows (settings.depth.limit.bound + 2) v w) {subjects : List Subject}
    {ds : List Descriptor} (h : List.Forall₂ store.Reads subjects ds) :
    DataSchema.matchAlternative settings w ds = store.firstMatch settings v subjects := by
  induction h with
  | nil => rfl
  | @cons s d _ _ hd _ ih =>
    have hrun : store.runCheck settings .silent s v = DataSchema.runCheck settings .silent d w :=
      congrFun (check_shows hproper settings.depth.limit hd hv [] []) #[]
    simp only [DataSchema.matchAlternative, firstMatch, DataSchema.validate, hrun, ih]
    cases DataSchema.runCheck settings .silent d w <;> rfl

/-- The alternatives of a union that is a schema are asked one after the other. -/
theorem matchAlternative_eq (hproper : store.Proper) {r : Ref} (hr : store.IsUnion r)
    (settings : Settings) (v : Ref) : store.matchAlternative settings r v =
      store.firstMatch settings v ((store.alternatives r).map .object) := by
  obtain ⟨held, hcell, hparts⟩ := hr.parts?
  have hwalk : ((store.alternatives r).map Part.held).map Subject.ofPart =
      (store.alternatives r).map .object := by
    rw [List.map_map]
    rfl
  unfold matchAlternative
  split
  · next ds w htrees =>
    obtain ⟨hd, htree, rfl⟩ := trees?_eq_some htrees
    have hread := form_reads hproper (s := .object r) hd
    rw [hr.form] at hread
    cases hread with
    | union hds =>
      exact matchAlternative_reads hproper settings (shows_tree hproper _ htree) hds
  · next other hother _ =>
    obtain ⟨-, rfl⟩ := Cell.descriptor.inj (hcell.symm.trans hother)
    simp only [hparts, hwalk]
  · next hother => exact absurd hcell (hother held)

theorem agreesWithUnion_objects (hproper : store.Proper) {r : Ref}
    (hr : store.IsSchema (.object r)) (hkind : store.kind? r = some .union) (v : Ref) :
    AgreesWithUnion (fun settings => store.matchAlternative settings r v)
      (fun settings => store.validate settings r v)
      (fun settings x => store.validate settings x v) (store.alternatives r) := by
  have hunion := hr.isUnion hkind
  refine store.engine.agreesWithUnion .object (engine_derived? hunion.derived?) (hunion.plan v)
    ?_ ?_ ?_
  · intro settings
    rw [matchAlternative_eq hproper hunion, firstMatch_eq_firstOf hproper]
  · exact fun settings => validate_eq_verdict hproper hr settings v
  · exact fun settings x hx => validate_eq_verdict hproper (hunion.alternatives x hx) settings v

/-- Numbers and lists of such, in a list that holds itself and a fraction; and files. -/
def recursive : Store := ⟨#[.plain .null, .plain (.descriptor .number), .tuple [1, 4],
  .descriptor .union 2, .descriptor .list 3, .list [5, 6], .plain (.fraction (1 / 3)),
  .descriptor .file 0]⟩

theorem recursive_proper : recursive.Proper := .of_mem rfl (by decide)

theorem recursive_isSchema : recursive.IsSchema (.object 3) := by
  refine ⟨fun r => r = 1 ∨ r = 3 ∨ r = 4, .inr (.inl rfl), ?_⟩
  rintro r (rfl | rfl | rfl)
  · exact .leaf (d := .number) rfl rfl trivial
  · exact .union rfl rfl (by simp)
  · exact .list rfl (show 3 = 1 ∨ 3 = 3 ∨ _ from .inr (.inl rfl))

end Store

/-- The choice of an alternative agrees with the validation of the union that is given one level
more, and has the answer of one that is given as many levels, for all values and for all objects,
which may hold themselves as unions may. -/
theorem choice_agrees_with_union :
    (∀ (ds : List Descriptor) (v : Value),
      AgreesWithUnion (fun settings => matchAlternative settings v ds)
        (fun settings => validate settings (.union ds) v)
        (fun settings d => validate settings d v) ds) ∧
    ∀ store : Store, store.Proper → ∀ r v, store.IsSchema (.object r) →
      store.kind? r = some .union →
      AgreesWithUnion (fun settings => store.matchAlternative settings r v)
        (fun settings => store.validate settings r v)
        (fun settings x => store.validate settings x v) (store.alternatives r) :=
  ⟨agreesWithUnion_values,
    fun _ hproper _ v hr hkind => Store.agreesWithUnion_objects hproper hr hkind v⟩

/-- A list of lists that only the third alternative accepts, at a depth that is enough for the
choice and one too few for the union; and a list that holds itself, where both come to the last
level. -/
theorem choice_agrees_with_union_loop :
    let three : Settings := ⟨.ofInt 3 (by decide), .bool true⟩
    let four : Settings := ⟨.ofInt 4 (by decide), .bool true⟩
    let ds : List Descriptor := [.number, .list .string, .list (.union [.string, .list .string])]
    let v := Value.list [.string "a", .list [.string "b"]]
    let store := Store.recursive
    SameChoice (matchAlternative three v ds) (validate four (.union ds) v) ∧
      PassesFirst (fun d => validate three d v) ds 2 ∧
      matchAlternative three v ds = .ok (some 2) ∧ validate four (.union ds) v = .ok true ∧
      validate three (.union ds) v = .error (.nestedTooDeep (.int 3) .string) ∧
      store.Proper ∧ store.IsSchema (.object 3) ∧ store.kind? 3 = some .union ∧
      SameChoice (store.matchAlternative three 3 5) (store.validate four 3 5) ∧
      store.matchAlternative three 3 5 = .error (.nestedTooDeep (.int 3) .number) ∧
      store.validate four 3 5 = .error (.nestedTooDeep (.int 4) .number) := by
  intro three four ds v store
  obtain ⟨hvalues, hobjects⟩ := choice_agrees_with_union
  have hmatch : matchAlternative three v ds = .ok (some 2) := rfl
  have hunion := hobjects store Store.recursive_proper 3 5 Store.recursive_isSchema rfl
  exact ⟨(hvalues ds v).deeper 3 (by decide) (by decide) _ _, (hvalues ds v).first three 2 hmatch,
    hmatch, rfl, rfl, Store.recursive_proper, Store.recursive_isSchema, rfl,
    hunion.deeper 3 (by decide) (by decide) _ _, rfl, rfl⟩

end DataSchema
