import DataSchema.Proofs.Test

/-!
What descriptors accept, said without levels and without derived shapes, by recursion on the
descriptor. When the engine answers, it answers whether the value is accepted.
-/

namespace DataSchema

/-- The exact value of a whole number, a finite float or a fraction. Truth values have none. -/
def Value.real? : Value → Option Rat
  | .int n => some n
  | .float (.finite x) => some x.toRat
  | .fraction q => some q
  | _ => none

/-- The entries of an uploaded file. A concrete tag fixes the category, and without one the category
may be left out. -/
structure IsFile (tag : Option String) (entries : List (Value × Value)) : Prop where
  name : ∃ s, Value.entryOrNull "name" entries = .string s
  length : ∃ q, (Value.entryOrNull "length" entries).real? = some q ∧ 0 ≤ q
  mimeType : ∃ s, Value.entryOrNull "mimeType" entries = .string s
  dataUrl : ∃ s, Value.entryOrNull "dataUrl" entries = .string s
  category : if admitsAnyCategory tag
    then Value.entryOrNull "type" entries = .null ∨
      ∃ s, Value.entryOrNull "type" entries = .string s
    else ∃ s, tag = some s ∧ Value.entryOrNull "type" entries = .string s

mutual

/-- The values that a descriptor accepts. -/
def Accepts : Descriptor → Value → Prop
  | .null, v | .void, v => v = .null
  | .boolean, v => ∃ b, v = .bool b
  | .number, v => ∃ q, v.real? = some q
  | .string, v => ∃ s, v = .string s
  | .any, _ => True
  | .literal expected, v => ∃ p, v.primitive? = some p ∧ expected.same p = true
  | .list item, v => ∃ items, v.elements? = some items ∧ ∀ w ∈ items, Accepts item w
  | .record item, v => ∃ entries, v.entries? = some entries ∧
      ∀ entry ∈ entries, (∃ s, entry.1 = .string s) ∧ Accepts item entry.2
  | .object fields, v => ∃ entries, v.entries? = some entries ∧ AcceptAll fields entries
  | .optional inner, v => v = .null ∨ Accepts inner v
  | .union alternatives, v => AcceptsSome alternatives v
  | .type described, v => v.descriptorKind? = some described.kind
  | .file tag, v => ∃ entries, v.entries? = some entries ∧ IsFile tag entries
  | .image, v => ∃ entries file, v.entries? = some entries ∧
      (Value.entryOrNull "file" entries).entries? = some file ∧
      IsFile (some Descriptor.imageTag) file
  | .outsider _ _ _, _ => False
termination_by structural d => d

/-- Every field accepts the entry under its name, and what is not there counts as absent. -/
def AcceptAll : List (String × Descriptor) → List (Value × Value) → Prop
  | [], _ => True
  | (name, d) :: fields, entries =>
    Accepts d (Value.entryOrNull name entries) ∧ AcceptAll fields entries
termination_by structural fields => fields

def AcceptsSome : List Descriptor → Value → Prop
  | [], _ => False
  | d :: ds, v => Accepts d v ∨ AcceptsSome ds v
termination_by structural ds => ds

end

theorem acceptAll_iff (fields : List (String × Descriptor)) (entries : List (Value × Value)) :
    AcceptAll fields entries ↔
      ∀ field ∈ fields, Accepts field.2 (Value.entryOrNull field.1 entries) := by
  induction fields with
  | nil => simp [AcceptAll]
  | cons field fields ih => simp [AcceptAll, ih]

theorem acceptsSome_iff (ds : List Descriptor) (v : Value) :
    AcceptsSome ds v ↔ ∃ d ∈ ds, Accepts d v := by
  induction ds with
  | nil => simp [AcceptsSome]
  | cons d ds ih => simp [AcceptsSome, ih]

/-- If there is an answer, it is whether `p` holds. -/
def Outcome.Decides (r : Outcome) (p : Prop) : Prop :=
  ∀ ok issues, r = .ok (ok, issues) → (ok = true ↔ p)

namespace Outcome.Decides

variable {r : Outcome} {t : Test} {p q : Prop} {e : Error} {issues : Array Issue}

theorem error : Outcome.Decides (.error e) p := by
  intro ok rest h
  contradiction

theorem ok_true (h : p) : Outcome.Decides (.ok (true, issues)) p := by
  intro ok rest hr
  have hok : true = ok := congrArg Prod.fst (Except.ok.inj hr)
  simp [← hok, h]

theorem ok_false (h : ¬p) : Outcome.Decides (.ok (false, issues)) p := by
  intro ok rest hr
  have hok : false = ok := congrArg Prod.fst (Except.ok.inj hr)
  simp [← hok, h]

theorem of_true (h : Outcome.Decides (.ok (true, issues)) p) : p := (h _ _ rfl).mp rfl

theorem of_false (h : Outcome.Decides (.ok (false, issues)) p) : ¬p :=
  fun hp => Bool.noConfusion ((h _ _ rfl).mpr hp)

theorem andThen (hr : r.Decides p) (ht : ∀ issues, Outcome.Decides (t issues) q) :
    (r.andThen t).Decides (p ∧ q) := by
  rcases r with e | ⟨ok, issues⟩
  · exact error
  · cases ok with
    | true =>
      have hp := hr.of_true
      rw [andThen_true, and_iff_right hp]
      exact ht issues
    | false =>
      have hp := hr.of_false
      exact ok_false fun h => hp h.1

theorem orElse (hr : r.Decides p) (ht : ∀ issues, Outcome.Decides (t issues) q) :
    (r.orElse t).Decides (p ∨ q) := by
  rcases r with e | ⟨ok, issues⟩
  · exact error
  · cases ok with
    | true => exact ok_true (.inl hr.of_true)
    | false =>
      have hp := hr.of_false
      rw [orElse_false, or_iff_right hp]
      exact ht issues

theorem also (mode : Recording) (hr : r.Decides p) (ht : ∀ issues, Outcome.Decides (t issues) q) :
    (r.also mode t).Decides (p ∧ q) := by
  rcases r with e | ⟨ok, issues⟩
  · exact error
  · cases ok with
    | true =>
      have hp := hr.of_true
      rw [also_true, and_iff_right hp]
      exact ht issues
    | false =>
      have hpq : ¬(p ∧ q) := fun h => hr.of_false h.1
      cases hmode : mode.stopsEarly with
      | true =>
        rw [also_false_early hmode]
        exact ok_false hpq
      | false =>
        rw [also_false_all hmode]
        cases t issues with
        | error e => exact error
        | ok later => exact ok_false hpq

end Outcome.Decides

/-- When the test answers, the answer is whether `p` holds. -/
def Test.Decides (t : Test) (p : Prop) : Prop := ∀ issues, Outcome.Decides (t issues) p

namespace Test.Decides

variable {s t : Test} {p q : Prop} {mode : Recording}

theorem congr (h : t.Decides p) (hpq : p ↔ q) : t.Decides q :=
  fun issues ok rest hr => (h issues ok rest hr).trans hpq

theorem pass : Test.pass.Decides True := fun _ => .ok_true trivial

theorem fail (issue : Issue) : (Test.fail mode issue).Decides False := fun _ => .ok_false id

theorem raise (e : Error) : (Test.raise e).Decides p := fun _ => .error

theorem demand {holds : Bool} {issue : Issue} (h : holds = true ↔ p) :
    (Test.demand mode holds issue).Decides p := by
  cases holds with
  | true => exact pass.congr (by simpa using h)
  | false => exact (fail issue).congr (by simpa using h)

theorem andThen (hs : s.Decides p) (ht : t.Decides q) : (s.andThen t).Decides (p ∧ q) :=
  fun issues => (hs issues).andThen ht

theorem orElse (hs : s.Decides p) (ht : t.Decides q) : (s.orElse t).Decides (p ∨ q) :=
  fun issues => (hs issues).orElse ht

theorem also (hs : s.Decides p) (ht : t.Decides q) : (Test.also mode s t).Decides (p ∧ q) :=
  fun issues => (hs issues).also mode ht

theorem all_map {α : Type} (xs : List α) {f : α → Test} {p : α → Prop}
    (h : ∀ x ∈ xs, (f x).Decides (p x)) :
    (Test.all mode (xs.map f)).Decides (∀ x ∈ xs, p x) := by
  induction xs with
  | nil => exact pass.congr (by simp)
  | cons x xs ih =>
    have hxs := ih fun y hy => h y (List.mem_cons_of_mem x hy)
    rw [List.map_cons, Test.all_cons]
    exact ((h x List.mem_cons_self).also hxs).congr (by simp)

theorem all_mapIdx {α : Type} (xs : List α) {f : Nat → α → Test} {p : α → Prop}
    (h : ∀ i, ∀ x ∈ xs, (f i x).Decides (p x)) :
    (Test.all mode (xs.mapIdx f)).Decides (∀ x ∈ xs, p x) := by
  rw [List.mapIdx_eq_zipIdx_map]
  have hmem : ∀ x ∈ xs.zipIdx, (f x.2 x.1).Decides (p x.1) := fun x hx =>
    h x.2 x.1 (List.fst_mem_of_mem_zipIdx hx)
  apply (all_map xs.zipIdx hmem).congr
  constructor
  · intro hp x hx
    obtain ⟨i, hi, rfl⟩ := List.getElem_of_mem hx
    exact hp (xs[i], i) (by simp [List.mem_zipIdx_iff_getElem?, hi])
  · intro hp x hx
    exact hp x.1 (List.fst_mem_of_mem_zipIdx hx)

theorem orElse_map {α : Type} (xs : List α) {f : α → Test} {p : α → Prop} {last : Test}
    (h : ∀ x ∈ xs, (f x).Decides (p x)) (hlast : last.Decides False) :
    ((xs.map f).foldr .orElse last).Decides (∃ x ∈ xs, p x) := by
  induction xs with
  | nil => exact hlast.congr (by simp)
  | cons x xs ih =>
    have hxs := ih fun y hy => h y (List.mem_cons_of_mem x hy)
    exact ((h x List.mem_cons_self).orElse hxs).congr (by simp)

end Test.Decides

theorem Value.number?_of_real? {v : Value} {q : Rat} (h : v.real? = some q) :
    v.number? = some (.finite q) := by
  cases v with
  | int n =>
    obtain rfl := Option.some.inj h
    rfl
  | fraction r =>
    obtain rfl := Option.some.inj h
    rfl
  | float x =>
    cases x with
    | finite y =>
      obtain rfl := Option.some.inj h
      rfl
    | _ => contradiction
  | _ => contradiction

theorem isNumber_iff {v : Value} {holds : Bool} (h : isNumber v = .ok holds) :
    holds = true ↔ ∃ q, v.real? = some q := by
  cases v with
  | int n => simp [← Except.ok.inj h, Value.real?]
  | float x => cases x <;> simp [← Except.ok.inj h, Value.real?, Binary64.isFinite]
  | fraction q =>
    simp only [isNumber] at h
    split at h
    · simp [← Except.ok.inj h, Value.real?]
    · contradiction
  | _ => simp [← Except.ok.inj h, Value.real?]

theorem isLiteral_iff (expected : Primitive) (v : Value) :
    isLiteral expected v = true ↔ ∃ p, v.primitive? = some p ∧ expected.same p = true := by
  cases v with
  | float x =>
    cases x with
    | finite y =>
      cases expected <;>
        simp [isLiteral, Value.primitive?, Primitive.same, Primitive.isBool, Primitive.content]
    | _ => cases expected <;> simp [isLiteral, Value.primitive?]
  | int n =>
    cases expected <;>
      simp [isLiteral, Value.primitive?, Primitive.same, Primitive.isBool, Primitive.content]
  | bool b =>
    cases expected <;> cases b <;>
      simp [isLiteral, Value.primitive?, Primitive.same, Primitive.isBool, Primitive.content]
  | string s =>
    cases expected <;>
      simp [isLiteral, Value.primitive?, Primitive.same, Primitive.isBool, Primitive.content]
  | _ => cases expected <;> simp [isLiteral, Value.primitive?]

/-- What the rule of files asks for by itself: a length that compares as not negative. -/
def LengthHolds (v : Value) : Prop :=
  ∃ entries length n, v.entries? = some entries ∧ Value.lookup "length" entries = some length ∧
    length.number? = some n ∧ n ≠ .nan ∧ n.below (.finite 0) = false

theorem lengthRule_decides (mode : Recording) (v : Value) (path : Path) :
    (lengthRule mode v path).Decides (LengthHolds v) := by
  unfold lengthRule
  cases hv : v.entries? with
  | none => exact .raise _
  | some entries =>
    cases hl : Value.lookup "length" entries with
    | none => simpa only [hl] using .raise _
    | some length =>
      cases hn : length.number? with
      | none => simpa only [hl, hn] using .raise _
      | some n =>
        simp only [hl, hn]
        apply Test.Decides.demand
        simp [LengthHolds, hv, hl, hn]

theorem same_string_iff (t : String) (v : Value) :
    (∃ p, v.primitive? = some p ∧ (Primitive.string t).same p = true) ↔ v = .string t := by
  rw [← isLiteral_iff]
  cases v with
  | string s =>
    simp only [isLiteral, beq_iff_eq, Value.string.injEq]
    exact eq_comm
  | _ => simp [isLiteral]

theorem accepts_orAbsent_string (v : Value) :
    Accepts (Descriptor.orAbsent .string) v ↔ v = .null ∨ ∃ s, v = .string s := by
  simp only [Descriptor.orAbsent, Accepts]

/-- The entries that the derived shape of a file accepts, before the length is compared. -/
theorem accepts_fileShape_iff (tag : Option String) (v : Value) :
    Accepts (Descriptor.fileShape tag) v ↔ ∃ entries, v.entries? = some entries ∧
      (∃ s, Value.entryOrNull "name" entries = .string s) ∧
      (∃ q, (Value.entryOrNull "length" entries).real? = some q) ∧
      (∃ s, Value.entryOrNull "mimeType" entries = .string s) ∧
      (∃ s, Value.entryOrNull "dataUrl" entries = .string s) ∧
      if admitsAnyCategory tag
        then Value.entryOrNull "type" entries = .null ∨
          ∃ s, Value.entryOrNull "type" entries = .string s
        else ∃ s, tag = some s ∧ Value.entryOrNull "type" entries = .string s := by
  cases tag with
  | none =>
    have hany : admitsAnyCategory none = true := rfl
    simp only [Descriptor.fileShape, Accepts, AcceptAll, accepts_orAbsent_string, hany, if_true,
      and_true]
  | some t =>
    cases hany : admitsAnyCategory (some t) with
    | true =>
      simp only [Descriptor.fileShape, Accepts, AcceptAll, accepts_orAbsent_string, hany, if_true,
        and_true]
    | false =>
      simp [Descriptor.fileShape, Accepts, AcceptAll, same_string_iff, hany]

theorem real?_entryOrNull {name : String} {entries : List (Value × Value)} {q : Rat}
    (h : (Value.entryOrNull name entries).real? = some q) :
    ∃ v, Value.lookup name entries = some v ∧ v.real? = some q := by
  unfold Value.entryOrNull at h
  cases hl : Value.lookup name entries with
  | none =>
    rw [hl] at h
    contradiction
  | some v =>
    rw [hl] at h
    exact ⟨v, rfl, h⟩

/-- A length that the derived shape accepts is there and is a number, so the rule of files compares
it as such. -/
theorem lengthHolds_iff {v : Value} {entries : List (Value × Value)} {q : Rat}
    (hv : v.entries? = some entries)
    (hq : (Value.entryOrNull "length" entries).real? = some q) : LengthHolds v ↔ 0 ≤ q := by
  obtain ⟨length, hl, hr⟩ := real?_entryOrNull hq
  have hn := Value.number?_of_real? hr
  rw [← Rat.not_lt]
  simp [LengthHolds, hv, hl, hn, Extended.below_finite]

theorem accepts_file_iff (tag : Option String) (v : Value) :
    Accepts (Descriptor.fileShape tag) v ∧ LengthHolds v ↔ Accepts (.file tag) v := by
  rw [accepts_fileShape_iff, Accepts]
  constructor
  · rintro ⟨⟨entries, hv, hname, ⟨q, hq⟩, hmime, hurl, htype⟩, hlength⟩
    exact ⟨entries, hv, hname, ⟨q, hq, (lengthHolds_iff hv hq).mp hlength⟩, hmime, hurl, htype⟩
  · rintro ⟨entries, hv, hname, ⟨q, hq, hnonneg⟩, hmime, hurl, htype⟩
    exact ⟨⟨entries, hv, hname, ⟨q, hq⟩, hmime, hurl, htype⟩, (lengthHolds_iff hv hq).mpr hnonneg⟩

/-- What the rule of a variant asks for by itself, after the derived shape if there is one. -/
def RuleAccepts : Descriptor → Value → Prop
  | .optional _, _ | .image, _ => True
  | .file _, v => LengthHolds v
  | d, v => Accepts d v

theorem ruleAccepts_iff {d : Descriptor} (v : Value) (h : d.derived? = none) :
    RuleAccepts d v ↔ Accepts d v := by
  cases d with
  | optional | image | file => contradiction
  | _ => rfl

theorem accepts_derived_iff {d shape : Descriptor} (v : Value) (h : d.derived? = some shape) :
    Accepts shape v ∧ RuleAccepts d v ↔ Accepts d v := by
  cases d with
  | optional inner =>
    obtain rfl := Option.some.inj h
    simp only [RuleAccepts, Accepts, AcceptsSome, or_false, and_true]
    exact or_comm
  | file tag =>
    obtain rfl := Option.some.inj h
    exact accepts_file_iff tag v
  | image =>
    obtain rfl := Option.some.inj h
    simp only [RuleAccepts, Descriptor.imageShape, Accepts, AcceptAll, and_true,
      exists_and_left]
  | _ => contradiction

/-- The rule of a variant decides its part of acceptance, if the parts are decided. -/
theorem rule_decides {part : PartCheck}
    (hpart : ∀ mode e w q, (part mode e w q).Decides (Accepts e w)) (mode : Recording)
    (d : Descriptor) (v : Value) (path : Path) :
    (rule part mode d v path).Decides (RuleAccepts d v) := by
  cases d with
  | null | void => exact .demand (by cases v <;> simp [RuleAccepts, Accepts, Value.isAbsent])
  | boolean => exact .demand (by cases v <;> simp [RuleAccepts, Accepts, Value.isBool])
  | string => exact .demand (by cases v <;> simp [RuleAccepts, Accepts, Value.isText])
  | literal expected => exact .demand (isLiteral_iff expected v)
  | any => exact .congr .pass (by simp [RuleAccepts, Accepts])
  | image | optional => exact .pass
  | file tag => exact lengthRule_decides mode v path
  | outsider => exact .raise _
  | number =>
    cases hn : isNumber v with
    | ok holds => simpa only [rule, hn] using .demand (isNumber_iff hn)
    | error e => simpa only [rule, hn] using .raise e
  | list item =>
    cases hv : v.elements? with
    | none =>
      simp only [rule, hv]
      exact .congr (.fail _) (by simp [RuleAccepts, Accepts, hv])
    | some items =>
      simp only [rule, hv]
      exact .congr (.all_mapIdx items fun i w _ => hpart mode item w _)
        (by simp [RuleAccepts, Accepts, hv])
  | record item =>
    cases hv : v.entries? with
    | none =>
      simp only [rule, hv]
      exact .congr (.fail _) (by simp [RuleAccepts, Accepts, hv])
    | some entries =>
      simp only [rule, hv]
      have hiff : (∀ entry ∈ entries, (∃ s, entry.1 = .string s) ∧ Accepts item entry.2) ↔
          RuleAccepts (.record item) v := by
        simp [RuleAccepts, Accepts, hv]
      refine .congr (.all_map entries ?_) hiff
      rintro ⟨key, w⟩ _
      cases key with
      | string name => exact .congr (hpart mode item w _) (by simp)
      | _ => exact .congr (.fail _) (by simp)
  | object fields =>
    cases hv : v.entries? with
    | none =>
      simp only [rule, hv]
      exact .congr (.fail _) (by simp [RuleAccepts, Accepts, hv])
    | some entries =>
      simp only [rule, hv]
      exact .congr (.all_map fields fun field _ => hpart mode field.2 _ _)
        (by simp [RuleAccepts, Accepts, hv, acceptAll_iff])
  | union alternatives =>
    exact .congr (.orElse_map alternatives (fun d _ => hpart .silent d v path) (.fail _))
      (acceptsSome_iff alternatives v).symm
  | type described =>
    cases hv : v.descriptorKind? with
    | none =>
      simp only [rule, hv]
      exact .congr (.fail _) (by simp [RuleAccepts, Accepts, hv])
    | some kind =>
      simp only [rule, hv]
      exact .demand (by simp [RuleAccepts, Accepts, hv])

/-- A check that answers says whether the value is accepted, with however many levels. -/
theorem check_decides (limit : Limit) (levels : Nat) (mode : Recording) (d : Descriptor)
    (v : Value) (path : Path) : (check limit levels mode d v path).Decides (Accepts d v) := by
  induction levels generalizing mode d v path with
  | zero => exact .raise _
  | succ levels ih =>
    have hrule := rule_decides ih mode d v path
    cases hd : d.derived? with
    | none =>
      simp only [check, hd]
      exact hrule.congr (ruleAccepts_iff v hd)
    | some shape =>
      simp only [check, hd]
      exact .congr (.andThen (ih mode shape v path) hrule) (accepts_derived_iff v hd)

theorem validate_decides {settings : Settings} {d : Descriptor} {v : Value} {ok : Bool}
    (h : validate settings d v = .ok ok) : ok = true ↔ Accepts d v := by
  unfold validate at h
  rcases hr : runCheck settings .silent d v with e | ⟨answer, issues⟩
  · rw [hr] at h
    contradiction
  · rw [hr] at h
    obtain rfl : answer = ok := Except.ok.inj h
    exact check_decides _ _ _ d v [] _ _ _ hr

end DataSchema
