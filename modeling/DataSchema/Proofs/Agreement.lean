import DataSchema.Proofs.Store.Lockstep

/-!
Validation and explanation give the same verdict. An explanation that stops at its first failure
comes out as a validation does; one that goes on comes out the same unless it fails to answer after
the validation has already answered no. Both hold for values and for objects, which may hold
themselves.
-/

namespace DataSchema

/-- The same answer or the same failure, whatever is written down. -/
inductive SameOutcome : Outcome → Outcome → Prop where
  | error (e : Error) : SameOutcome (.error e) (.error e)
  | answer (ok : Bool) (rest rest' : Array Issue) : SameOutcome (.ok (ok, rest)) (.ok (ok, rest'))

/-- The outcome of a run that stops at the first failure, and that of one that goes on. -/
inductive Foretold : Outcome → Outcome → Prop where
  | error (e : Error) : Foretold (.error e) (.error e)
  | answer (ok : Bool) (rest rest' : Array Issue) : Foretold (.ok (ok, rest)) (.ok (ok, rest'))
  | stopped (rest : Array Issue) (e : Error) : Foretold (.ok (false, rest)) (.error e)

namespace Test

def SameAnswer (s t : Test) : Prop := ∀ issues issues', SameOutcome (s issues) (t issues')

def Foretells (s t : Test) : Prop := ∀ issues issues', Foretold (s issues) (t issues')

end Test

namespace SameOutcome

variable {r r' : Outcome} {t t' : Test}

theorem andThen (hr : SameOutcome r r') (ht : t.SameAnswer t') :
    SameOutcome (r.andThen t) (r'.andThen t') := by
  cases hr with
  | error e => exact .error e
  | answer ok rest rest' =>
    cases ok with
    | true => exact ht rest rest'
    | false => exact .answer false rest rest'

theorem orElse (hr : SameOutcome r r') (ht : t.SameAnswer t') :
    SameOutcome (r.orElse t) (r'.orElse t') := by
  cases hr with
  | error e => exact .error e
  | answer ok rest rest' =>
    cases ok with
    | true => exact .answer true rest rest'
    | false => exact ht rest rest'

theorem also {one two : Recording} (hone : one.stopsEarly = true) (htwo : two.stopsEarly = true)
    (hr : SameOutcome r r') (ht : t.SameAnswer t') :
    SameOutcome (r.also one t) (r'.also two t') := by
  cases hr with
  | error e => exact .error e
  | answer ok rest rest' =>
    cases ok with
    | true => exact ht rest rest'
    | false =>
      rw [Outcome.also_false_early hone, Outcome.also_false_early htwo]
      exact .answer false rest rest'

end SameOutcome

namespace Foretold

variable {r r' : Outcome} {t t' : Test}

theorem andThen (hr : Foretold r r') (ht : t.Foretells t') :
    Foretold (r.andThen t) (r'.andThen t') := by
  cases hr with
  | error e => exact .error e
  | stopped rest e => exact .stopped rest e
  | answer ok rest rest' =>
    cases ok with
    | true => exact ht rest rest'
    | false => exact .answer false rest rest'

theorem orElse (hr : SameOutcome r r') (ht : t.Foretells t') :
    Foretold (r.orElse t) (r'.orElse t') := by
  cases hr with
  | error e => exact .error e
  | answer ok rest rest' =>
    cases ok with
    | true => exact .answer true rest rest'
    | false => exact ht rest rest'

/-- After a failure only the second run goes on, and it can but fail to answer. -/
theorem also (hr : Foretold r r') (ht : t.Foretells t') :
    Foretold (r.also .silent t) (r'.also .all t') := by
  cases hr with
  | error e => exact .error e
  | stopped rest e => exact .stopped rest e
  | answer ok rest rest' =>
    cases ok with
    | true => exact ht rest rest'
    | false =>
      rw [Outcome.also_false_early rfl, Outcome.also_false_all rfl]
      cases t' rest' with
      | error e => exact .stopped rest e
      | ok later => exact .answer false rest later.2

end Foretold

theorem lockstep_sameAnswer {one two : Recording} (hone : one.stopsEarly = true)
    (htwo : two.stopsEarly = true) : Lockstep one two [] Test.SameAnswer Test.SameAnswer where
  pass := fun issues issues' => .answer true issues issues'
  fail := fun _ _ _ _ _ => .answer false _ _
  raise := fun _ _ _ => .error _
  andThen := fun hs ht issues issues' => (hs issues issues').andThen ht
  orElse := fun hs ht issues issues' => (hs issues issues').orElse ht
  also := fun hs ht issues issues' => (hs issues issues').also hone htwo ht

theorem lockstep_foretells : Lockstep .silent .all [] Test.SameAnswer Test.Foretells where
  pass := fun issues issues' => .answer true issues issues'
  fail := fun _ _ _ _ _ => .answer false _ _
  raise := fun _ _ _ => .error _
  andThen := fun hs ht issues issues' => (hs issues issues').andThen ht
  orElse := fun hs ht issues issues' => Foretold.orElse (hs issues issues') ht
  also := fun hs ht issues issues' => (hs issues issues').also ht

theorem check_sameAnswer (limit : Limit) (levels : Nat) {one two : Recording}
    (hone : one.stopsEarly = true) (htwo : two.stopsEarly = true) (d : Descriptor) (v : Value)
    (path : Path) :
    Test.SameAnswer (check limit levels one d v path) (check limit levels two d v path) := by
  induction levels generalizing one two d v path with
  | zero => exact fun _ _ => .error _
  | succ levels ih =>
    apply check_succ_related (lockstep_sameAnswer hone htwo)
    · exact fun e _ w q => ih hone htwo e w q
    · exact fun e _ w q => ih rfl rfl e w q

theorem check_foretells (limit : Limit) (levels : Nat) (d : Descriptor) (v : Value) (path : Path) :
    Test.Foretells (check limit levels .silent d v path) (check limit levels .all d v path) := by
  induction levels generalizing d v path with
  | zero => exact fun _ _ => .error _
  | succ levels ih =>
    apply check_succ_related lockstep_foretells
    · exact fun e _ w q => ih e w q
    · exact fun e _ w q => check_sameAnswer limit levels rfl rfl e w q

namespace Store

/-- Every object in the store names its fields by text, as builders leave them. -/
def FieldsNamed (store : Store) : Prop :=
  ∀ r fields, store.form (.object r) = .object (.ok fields) →
    ∀ name d, .ok (name, d) ∈ fields → ∃ s, name = .string s

/-- Shapes that no object holds name their fields by text in any case. -/
theorem FieldsNamed.step {store : Store} (h : store.FieldsNamed) {d : Subject}
    {fields : List (Except Error (Value × Subject))} (hform : store.form d = .object (.ok fields))
    {name : Value} {e : Subject} (hmem : .ok (name, e) ∈ fields) :
    ∃ step, Step.ofValue? name = some step := by
  cases d with
  | object r =>
    obtain ⟨s, rfl⟩ := h r fields hform name e hmem
    exact ⟨.key s, rfl⟩
  | shape d =>
    cases d with
    | object declared =>
      obtain rfl := Except.ok.inj (Form.object.inj hform)
      obtain ⟨field, _, heq⟩ := List.mem_map.mp hmem
      obtain rfl : Value.string field.1 = name := congrArg Prod.fst (Except.ok.inj heq)
      exact ⟨.key field.1, rfl⟩
    | _ => contradiction
  | _ => contradiction

theorem check_sameAnswer (store : Store) (h : store.FieldsNamed) (limit : Limit) (levels : Nat)
    {one two : Recording} (hone : one.stopsEarly = true) (htwo : two.stopsEarly = true)
    (d : Subject) (v : Ref) (path : Path) :
    Test.SameAnswer (store.check limit levels one d v path)
      (store.check limit levels two d v path) := by
  induction levels generalizing one two d v path with
  | zero =>
    rw [check, check]
    cases store.kindOf? d <;> exact fun _ _ => .error _
  | succ levels ih =>
    apply check_succ_related store (lockstep_sameAnswer hone htwo)
    · exact fun issues issues' => .answer true issues issues'
    · exact fun e _ w q => ih hone htwo e w q
    · exact fun e _ w q => ih rfl rfl e w q
    · intro fields hform name e hmem w
      obtain ⟨step, hstep⟩ := h.step hform hmem
      exact checkField_related (ih hone htwo) hstep e w path

theorem check_foretells (store : Store) (h : store.FieldsNamed) (limit : Limit) (levels : Nat)
    (d : Subject) (v : Ref) (path : Path) :
    Test.Foretells (store.check limit levels .silent d v path)
      (store.check limit levels .all d v path) := by
  induction levels generalizing d v path with
  | zero =>
    rw [check, check]
    cases store.kindOf? d <;> exact fun _ _ => .error _
  | succ levels ih =>
    apply check_succ_related store lockstep_foretells
    · exact fun issues issues' => .answer true issues issues'
    · exact fun e _ w q => ih e w q
    · exact fun e _ w q => check_sameAnswer store h limit levels rfl rfl e w q
    · intro fields hform name e hmem w
      obtain ⟨step, hstep⟩ := h.step hform hmem
      exact checkField_related ih hstep e w path

end Store

/-- The answer of a validation and the report of an explanation that say the same. -/
structure SameVerdict (answer : Except Error Bool) (report : Except Error Report) : Prop where
  ok_iff (ok : Bool) : (∃ r, report = .ok r ∧ r.ok = ok) ↔ answer = .ok ok
  error_iff (e : Error) : report = .error e ↔ answer = .error e

/-- The answer of a validation and the report of an explanation that lists all failures. -/
structure FullVerdict (answer : Except Error Bool) (report : Except Error Report) : Prop where
  answer_of_report (r : Report) (h : report = .ok r) : answer = .ok r.ok
  report_of_true (h : answer = .ok true) : ∃ r, report = .ok r ∧ r.ok = true
  report_of_error (e : Error) (h : answer = .error e) : report = .error e
  answer_of_error (e : Error) (h : report = .error e) : answer = .error e ∨ answer = .ok false

/-- What a validation and an explanation under the same settings owe each other. -/
structure Agreement (settings : Settings) (answer : Except Error Bool)
    (report : Except Error Report) : Prop where
  first (h : settings.collectAll.truthy = false) : SameVerdict answer report
  all (h : settings.collectAll.truthy = true) : FullVerdict answer report

namespace Outcome

def answer (r : Outcome) : Except Error Bool := r.map (·.1)

def report (kind : Kind) (r : Outcome) : Except Error Report :=
  r.map fun (ok, issues) => ⟨kind, ok, issues.toList⟩

end Outcome

theorem SameOutcome.verdict {r r' : Outcome} (h : SameOutcome r r') (kind : Kind) :
    SameVerdict r.answer (r'.report kind) := by
  cases h with
  | error e =>
    constructor <;> intro <;> simp [Outcome.answer, Outcome.report, Except.map]
  | answer ok rest rest' =>
    constructor <;> intro <;> simp [Outcome.answer, Outcome.report, Except.map]

theorem Foretold.verdict {r r' : Outcome} (h : Foretold r r') (kind : Kind) :
    FullVerdict r.answer (r'.report kind) := by
  cases h with
  | error e =>
    constructor <;> simp [Outcome.answer, Outcome.report, Except.map]
  | answer ok rest rest' =>
    constructor <;> simp [Outcome.answer, Outcome.report, Except.map]
  | stopped rest e =>
    constructor <;> simp [Outcome.answer, Outcome.report, Except.map]

theorem agreement_of_error (settings : Settings) (e : Error) :
    Agreement settings (.error e) (.error e) := by
  constructor <;> intro <;> constructor <;> simp

/-- The two verdicts of three runs that differ in what they write down. -/
theorem agreement_of_outcomes (settings : Settings) (kind : Kind) (run : Recording → Outcome)
    (hfirst : SameOutcome (run .silent) (run .first)) (hall : Foretold (run .silent) (run .all)) :
    Agreement settings (run .silent).answer
      ((run (if settings.collectAll.truthy then .all else .first)).report kind) := by
  constructor
  · intro h
    rw [h]
    exact hfirst.verdict kind
  · intro h
    rw [h]
    exact hall.verdict kind

theorem agreement_values (settings : Settings) (d : Descriptor) (v : Value) :
    Agreement settings (validate settings d v) (explain settings d v) :=
  agreement_of_outcomes settings d.kind (fun mode => runCheck settings mode d v)
    (check_sameAnswer _ _ rfl rfl d v [] _ _) (check_foretells _ _ d v [] _ _)

theorem Store.agreement_objects (store : Store) (h : store.FieldsNamed) (settings : Settings)
    (d v : Ref) : Agreement settings (store.validate settings d v)
      (store.explain settings d v) := by
  unfold Store.validate Store.explain
  cases store.trees? d v with
  | some pair => exact agreement_values settings pair.1 pair.2
  | none =>
    dsimp only
    cases hk : store.kindOf? (.object d) with
    | error e =>
      -- What is no descriptor fails in every run before its kind is asked for.
      simp only [Store.runCheck, store.check_of_kindOf?_error hk]
      exact agreement_of_error settings e
    | ok kind =>
      have hreport (r : Outcome) : (do
          let (ok, issues) ← r
          return ⟨← Except.ok kind, ok, issues.toList⟩) = r.report kind := by
        cases r <;> rfl
      rw [hreport]
      exact agreement_of_outcomes settings kind
        (fun mode => store.runCheck settings mode (.object d) v)
        (store.check_sameAnswer h _ _ rfl rfl (.object d) v [] _ _)
        (store.check_foretells h _ _ (.object d) v [] _ _)

/-- Validation and explanation agree on every descriptor and value, and on every two objects whose
parts may be shared and may hold themselves. -/
theorem validate_explain_agreement :
    (∀ settings d v, Agreement settings (validate settings d v) (explain settings d v)) ∧
      ∀ store : Store, store.FieldsNamed → ∀ settings d v,
        Agreement settings (store.validate settings d v) (store.explain settings d v) :=
  ⟨agreement_values, Store.agreement_objects⟩

/-- Lists of such lists, and a list that holds a number and itself: the number fails at once, and
only the explanation goes on into the list. -/
theorem validate_explain_agreement_loop :
    let store : Store := ⟨#[.plain .null, .descriptor .list 1, .list [3, 2], .plain (.int 5)]⟩
    let settings : Settings := ⟨.ofInt 3 (by decide), .bool true⟩
    store.FieldsNamed ∧ settings.collectAll.truthy = true ∧
      store.validate settings 1 2 = .ok false ∧
      store.explain settings 1 2 = .error (.nestedTooDeep (.int 3) .list) ∧
      FullVerdict (store.validate settings 1 2) (store.explain settings 1 2) := by
  intro store settings
  have hnamed : store.FieldsNamed := by
    intro r fields hform
    match r with
    | 0 | 1 | 2 | 3 | _ + 4 => contradiction
  have hall : settings.collectAll.truthy = true := rfl
  have hagree := validate_explain_agreement.2 store hnamed settings 1 2
  exact ⟨hnamed, hall, rfl, rfl, hagree.all hall⟩

end DataSchema
