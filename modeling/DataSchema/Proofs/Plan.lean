import DataSchema.Proofs.Lockstep

/-!
Rules as plans. What a rule does with a value is said without running anything: it answers at once,
it hands parts on under the steps that lead to them, or it asks for one alternative. An engine runs
plans level by level. The engine for values is one of these, so what is true of all engines is true
of it; the engine for objects will be another.
-/

namespace DataSchema

/-- One of the parts that all have to conform: one that is checked further, or a failure that shows
without a look into it. -/
inductive Item (D V : Type) where
  | part (d : D) (v : V) (step : Step)
  | blemish (reason : Reason)
  | stuck (e : Error)

/-- What a rule does with a value. A no is written down at the value or `below` it. -/
inductive Plan (D V : Type) where
  | answer (holds : Bool) (below : Path) (reason : Reason)
  | stuck (e : Error)
  | every (items : List (Item D V))
  | oneOf (alternatives : List D) (reason : Reason)

variable {D V : Type}

/-- How what is checked further is checked. -/
abbrev Further (D V : Type) := Recording → D → V → Path → Test

def Item.run (further : Further D V) (mode : Recording) (kind : Kind) (path : Path) :
    Item D V → Test
  | part d v step => further mode d v (path ++ [step])
  | blemish reason => .fail mode ⟨path, kind, reason⟩
  | stuck e => .raise e

/-- Runs a plan for a descriptor of a kind. Alternatives are tested silently. -/
def Plan.run (further : Further D V) (mode : Recording) (kind : Kind) (v : V) (path : Path) :
    Plan D V → Test
  | answer holds below reason => .demand mode holds ⟨path ++ below, kind, reason⟩
  | stuck e => .raise e
  | every items => .all mode (items.map (·.run further mode kind path))
  | oneOf alternatives reason =>
    (alternatives.map fun d => further .silent d v path).foldr .orElse
      (.fail mode ⟨path, kind, reason⟩)

/-- What an engine knows of descriptors: their kinds, the shapes that they derive, and their
rules. -/
structure Engine (D V : Type) where
  kind : D → Kind
  derived? : D → Option D
  plan : D → V → Plan D V

/-- Checks a value with so many levels left to enter: first against the derived shape, if there is
one, then by the rule. -/
def Engine.check (E : Engine D V) (limit : Limit) : (levels : Nat) → Further D V
  | 0, _, d, _, _ => .raise (limit.overrun (E.kind d))
  | levels + 1, mode, d, v, path =>
    let further := E.check limit levels
    let rule := (E.plan d v).run further mode (E.kind d) v path
    match E.derived? d with
    | none => rule
    | some shape => (further mode shape v path).andThen rule

namespace Engine

variable (E : Engine D V) (limit : Limit) (levels : Nat) (mode : Recording) {d : D} (v : V)
  (path : Path)

theorem check_of_none (h : E.derived? d = none) : E.check limit (levels + 1) mode d v path =
    (E.plan d v).run (E.check limit levels) mode (E.kind d) v path := by
  simp only [check, h]

theorem check_of_some {shape : D} (h : E.derived? d = some shape) :
    E.check limit (levels + 1) mode d v path = (E.check limit levels mode shape v path).andThen
      ((E.plan d v).run (E.check limit levels) mode (E.kind d) v path) := by
  simp only [check, h]

end Engine

/-! ### The engine for values -/

/-- The length of a file is read from an entry that has to be there. -/
def lengthPlan (v : Value) : Plan Descriptor Value :=
  match v.entries? with
  | none => .stuck .wrongOperand
  | some entries => match Value.lookup "length" entries with
    | none => .stuck (.missingKey "length")
    | some length => match length.number? with
      | none => .stuck .notComparable
      | some n => .answer (n != .nan && !n.below (.finite 0)) [.key "length"] .negativeLength

namespace Descriptor

/-- The plan of a variant's rule. -/
def plan (d : Descriptor) (v : Value) : Plan Descriptor Value :=
  match d with
  | null | void => .answer v.isAbsent [] (.notAbsent v)
  | boolean => .answer v.isBool [] (.notBool v)
  | number => match isNumber v with
    | .ok holds => .answer holds [] (.notNumber v)
    | .error e => .stuck e
  | string => .answer v.isText [] (.notText v)
  | any | image | optional _ => .every []
  | literal expected => .answer (isLiteral expected v) [] (.notLiteral expected.toValue v)
  | list item => match v.elements? with
    | none => .answer false [] (.notSequence v)
    | some items => .every (items.mapIdx fun i w => .part item w (.index i))
  | record item => match v.entries? with
    | none => .answer false [] (.notMapping v)
    | some entries => .every (entries.map fun (key, w) => match key with
      | .string name => .part item w (.key name)
      | _ => .blemish (.keyNotText key))
  | object fields => match v.entries? with
    | none => .answer false [] (.notMapping v)
    | some entries => .every (fields.map fun (name, d) =>
        .part d (Value.entryOrNull name entries) (.key name))
  | union alternatives => .oneOf alternatives (.noAlternative (alternatives.map (·.kind)))
  | type described => match v.descriptorKind? with
    | some kind => .answer (kind == described.kind) [] (.otherKind described.kind kind)
    | none => .answer false [] (.notDescriptor v)
  | file _ => lengthPlan v
  | outsider kind _ _ => .stuck (.noRule kind)

def engine : Engine Descriptor Value := ⟨kind, derived?, plan⟩

theorem plan_record (item : Descriptor) {v : Value} {entries : List (Value × Value)}
    (h : v.entries? = some entries) :
    plan (record item) v = .every (entries.map fun (key, w) => match key with
      | .string name => .part item w (.key name)
      | _ => .blemish (.keyNotText key)) := by
  simp only [plan, h]

end Descriptor

theorem lengthRule_eq_run (further : Further Descriptor Value) (mode : Recording) (v : Value)
    (path : Path) : lengthRule mode v path = (lengthPlan v).run further mode .file v path := by
  unfold lengthRule lengthPlan
  cases v.entries? with
  | none => rfl
  | some entries =>
    cases hl : Value.lookup "length" entries with
    | none => simp only [hl, Plan.run]
    | some length => cases hn : length.number? <;> simp only [hl, hn, Plan.run]

/-- A rule does what its plan says. -/
theorem rule_eq_run (part : PartCheck) (mode : Recording) (d : Descriptor) (v : Value)
    (path : Path) : rule part mode d v path = (d.plan v).run part mode d.kind v path := by
  cases d with
  | file tag => exact lengthRule_eq_run part mode v path
  | number => cases hn : isNumber v <;> simp [rule, Descriptor.plan, hn, Plan.run, Descriptor.kind]
  | list item =>
    cases hv : v.elements? with
    | none => simp [rule, Descriptor.plan, hv, Plan.run, Descriptor.kind, Test.demand]
    | some items =>
      simp only [rule, Descriptor.plan, hv, Plan.run, List.mapIdx_eq_zipIdx_map, List.map_map]
      rfl
  | record item =>
    cases hv : v.entries? with
    | none => simp [rule, Descriptor.plan, hv, Plan.run, Descriptor.kind, Test.demand]
    | some entries =>
      simp only [rule, Descriptor.plan, hv, Plan.run, List.map_map]
      congr 1
      apply List.map_congr_left
      rintro ⟨key, w⟩ _
      cases key <;> rfl
  | object fields =>
    cases hv : v.entries? <;>
      simp [rule, Descriptor.plan, hv, Plan.run, Item.run, Descriptor.kind, Test.demand,
        Function.comp_def]
  | type described =>
    cases hv : v.descriptorKind? <;>
      simp [rule, Descriptor.plan, hv, Plan.run, Descriptor.kind, Test.demand]
  | any | image | optional | union | outsider => rfl
  | null | void | boolean | string | literal =>
    simp [rule, Descriptor.plan, Plan.run, Descriptor.kind]

theorem check_eq (limit : Limit) (levels : Nat) :
    check limit levels = Descriptor.engine.check limit levels := by
  induction levels with
  | zero => rfl
  | succ levels ih =>
    funext mode d v path
    cases hd : d.derived? with
    | none =>
      rw [Descriptor.engine.check_of_none limit levels mode v path hd]
      simp only [check, hd, rule_eq_run, ih]
      rfl
    | some shape =>
      rw [Descriptor.engine.check_of_some limit levels mode v path hd]
      simp only [check, hd, rule_eq_run, ih]
      rfl

end DataSchema
