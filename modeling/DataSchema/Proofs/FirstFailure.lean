import DataSchema.Proofs.Agreement
import DataSchema.Proofs.Store.Engine

/-!
The first failure. A report lists issues just if its answer is no. One that stops at its first
failure lists no more than that one, and it is the one that the report of all failures begins with.
So it is for values and for objects, whatever these hold.
-/

namespace DataSchema

/-- The same answer or the same failure, with nothing written down. -/
inductive Muted (before before' : Array Issue) : Outcome → Outcome → Prop where
  | error (e : Error) : Muted before before' (.error e) (.error e)
  | answer (ok : Bool) : Muted before before' (.ok (ok, before)) (.ok (ok, before'))

/-- The outcome of a run that stops at its first failure, and of one that goes on. The first issue
is written down by both; after it only the second run can fail to answer. -/
inductive Begun (before before' : Array Issue) : Outcome → Outcome → Prop where
  | error (e : Error) : Begun before before' (.error e) (.error e)
  | stopped (issue : Issue) (e : Error) :
    Begun before before' (.ok (false, before.push issue)) (.error e)
  | passed : Begun before before' (.ok (true, before)) (.ok (true, before'))
  | failed {issue : Issue} {rest : List Issue} {after' : Array Issue}
    (h : after'.toList = before'.toList ++ issue :: rest) :
    Begun before before' (.ok (false, before.push issue)) (.ok (false, after'))

namespace Test

def Mute (s t : Test) : Prop := ∀ before before', Muted before before' (s before) (t before')

def Begins (s t : Test) : Prop := ∀ before before', Begun before before' (s before) (t before')

end Test

namespace Muted

variable {before before' : Array Issue} {r r' : Outcome} {t t' : Test}

theorem andThen (hr : Muted before before' r r') (ht : t.Mute t') :
    Muted before before' (r.andThen t) (r'.andThen t') := by
  cases hr with
  | error e => exact .error e
  | answer ok =>
    cases ok with
    | true => exact ht before before'
    | false => exact .answer false

theorem orElse (hr : Muted before before' r r') (ht : t.Mute t') :
    Muted before before' (r.orElse t) (r'.orElse t') := by
  cases hr with
  | error e => exact .error e
  | answer ok =>
    cases ok with
    | true => exact .answer true
    | false => exact ht before before'

theorem also (hr : Muted before before' r r') (ht : t.Mute t') :
    Muted before before' (r.also .silent t) (r'.also .silent t') := by
  cases hr with
  | error e => exact .error e
  | answer ok =>
    cases ok with
    | true => exact ht before before'
    | false =>
      rw [Outcome.also_false_early rfl, Outcome.also_false_early rfl]
      exact .answer false

end Muted

namespace Begun

variable {before before' : Array Issue} {r r' : Outcome} {t t' : Test}

theorem andThen (hr : Begun before before' r r') (ht : t.Begins t') :
    Begun before before' (r.andThen t) (r'.andThen t') := by
  cases hr with
  | error e => exact .error e
  | stopped issue e => exact .stopped issue e
  | passed => exact ht before before'
  | failed h => exact .failed h

theorem orElse (hr : Muted before before' r r') (ht : t.Begins t') :
    Begun before before' (r.orElse t) (r'.orElse t') := by
  cases hr with
  | error e => exact .error e
  | answer ok =>
    cases ok with
    | true => exact .passed
    | false => exact ht before before'

/-- After a failure only the second run goes on, and what it writes down comes after the first
issue. -/
theorem also (hr : Begun before before' r r') (ht : t.Begins t') :
    Begun before before' (r.also .first t) (r'.also .all t') := by
  cases hr with
  | error e => exact .error e
  | stopped issue e =>
    rw [Outcome.also_false_early rfl]
    exact .stopped issue e
  | passed => exact ht before before'
  | @failed issue rest after' h =>
    rw [Outcome.also_false_early rfl, Outcome.also_false_all rfl]
    have hlater := ht before after'
    generalize t before = first, t' after' = later at hlater
    cases hlater with
    | error e | stopped _ e => exact .stopped issue e
    | passed => exact .failed h
    | @failed other others last hlast =>
      have hall : last.toList = before'.toList ++ issue :: (rest ++ other :: others) := by
        rw [hlast, h, List.append_assoc, List.cons_append]
      exact .failed hall

end Begun

theorem lockstep_mute : Lockstep .silent .silent [] Test.Mute Test.Mute where
  pass := fun _ _ => .answer true
  fail := fun _ _ _ _ _ => .answer false
  raise := fun _ _ _ => .error _
  andThen := fun hs ht before before' => (hs before before').andThen ht
  orElse := fun hs ht before before' => (hs before before').orElse ht
  also := fun hs ht before before' => (hs before before').also ht

theorem lockstep_begins : Lockstep .first .all [] Test.Mute Test.Begins where
  pass := fun _ _ => .passed
  fail := fun _ _ _ _ _ => .failed Array.toList_push
  raise := fun _ _ _ => .error _
  andThen := fun hs ht before before' => (hs before before').andThen ht
  orElse := fun hs ht before before' => Begun.orElse (hs before before') ht
  also := fun hs ht before before' => (hs before before').also ht

theorem check_mute (limit : Limit) (levels : Nat) (d : Descriptor) (v : Value) (path : Path) :
    Test.Mute (check limit levels .silent d v path) (check limit levels .silent d v path) := by
  induction levels generalizing d v path with
  | zero => exact fun _ _ => .error _
  | succ levels ih =>
    apply check_succ_related lockstep_mute
    · exact fun e _ w q => ih e w q
    · exact fun e _ w q => ih e w q

theorem check_begins (limit : Limit) (levels : Nat) (d : Descriptor) (v : Value) (path : Path) :
    Test.Begins (check limit levels .first d v path) (check limit levels .all d v path) := by
  induction levels generalizing d v path with
  | zero => exact fun _ _ => .error _
  | succ levels ih =>
    apply check_succ_related lockstep_begins
    · exact fun e _ w q => ih e w q
    · exact fun e _ w q => check_mute limit levels e w q

namespace Store

/-- What cannot be written down is no failure in either run, or the same. -/
theorem checkField_begins {part part' : SubjectCheck} {name : Value} {d : Subject} {v : Ref}
    (hpart : ∀ q, Test.Begins (part .first d v q) (part' .all d v q))
    (hfirst : ∀ q, part .first d v q = part' .first d v q) (path : Path) :
    Test.Begins (checkField part .first name d v path) (checkField part' .all name d v path) := by
  cases hstep : Step.ofValue? name with
  | some step =>
    rw [checkField_of_step hstep, checkField_of_step hstep]
    exact hpart _
  | none =>
    intro before before'
    simp only [checkField, hstep, hfirst]
    cases part' .first d v path #[] with
    | error e => exact .error e
    | ok outcome =>
      obtain ⟨ok, issues⟩ := outcome
      cases ok with
      | true => exact .passed
      | false => exact .error .stepNotPlain

theorem check_mute (store : Store) (limit : Limit) (levels : Nat) (d : Subject) (v : Ref)
    (path : Path) : Test.Mute (store.check limit levels .silent d v path)
      (store.check limit levels .silent d v path) := by
  induction levels generalizing d v path with
  | zero =>
    rw [check]
    cases store.kindOf? d <;> exact fun _ _ => .error _
  | succ levels ih =>
    apply check_succ_related store lockstep_mute
    · exact fun _ _ => .answer true
    · exact fun e _ w q => ih e w q
    · exact fun e _ w q => ih e w q
    · intro fields _ name e _ w
      cases hstep : Step.ofValue? name with
      | some step => exact checkField_related ih hstep e w path
      | none =>
        simp only [checkField, hstep]
        exact ih e w path

theorem check_begins (store : Store) (limit : Limit) (levels : Nat) (d : Subject) (v : Ref)
    (path : Path) : Test.Begins (store.check limit levels .first d v path)
      (store.check limit levels .all d v path) := by
  induction levels generalizing d v path with
  | zero =>
    rw [check, check]
    cases store.kindOf? d <;> exact fun _ _ => .error _
  | succ levels ih =>
    apply check_succ_related store lockstep_begins
    · exact fun _ _ => .answer true
    · exact fun e _ w q => ih e w q
    · exact fun e _ w q => store.check_mute limit levels e w q
    · exact fun fields _ name e _ w => checkField_begins (fun q => ih e w q) (fun _ => rfl) path

end Store

/-! ### Reports -/

/-- How the reports of one descriptor and value under all settings fit together. -/
structure FirstFailure (explained : Settings → Except Error Report) : Prop where
  /-- The answer is yes just if no issue is listed. -/
  empty_iff {settings : Settings} {report : Report} (h : explained settings = .ok report) :
    report.issues = [] ↔ report.ok = true
  atMostOne {settings : Settings} (hfirst : settings.collectAll.truthy = false) {report : Report}
    (h : explained settings = .ok report) : report.issues.length ≤ 1
  /-- With the same depth, only the first of all issues is listed, if there is one. -/
  first {one many : Settings} (hdepth : one.depth = many.depth)
    (hfirst : one.collectAll.truthy = false) (hall : many.collectAll.truthy = true)
    {brief full : Report} (h : explained one = .ok brief) (h' : explained many = .ok full) :
    brief.issues = full.issues.head?.toList

/-- What a run lists, depending on whether all failures are wanted. -/
def reportOf (kind : Kind) (run : Depth → Recording → Outcome) (settings : Settings) :
    Except Error Report :=
  (run settings.depth (if settings.collectAll.truthy then .all else .first)).report kind

theorem firstFailure_of_error (e : Error) : FirstFailure fun _ => .error e := by
  constructor <;> intros <;> contradiction

theorem exists_of_report {kind : Kind} {r : Outcome} {report : Report}
    (h : r.report kind = .ok report) :
    ∃ ok issues, r = .ok (ok, issues) ∧ report = ⟨kind, ok, issues.toList⟩ := by
  rcases r with e | ⟨ok, issues⟩
  · contradiction
  · exact ⟨ok, issues, rfl, (Except.ok.inj h).symm⟩

theorem Begun.of_first {ok : Bool} {issues : Array Issue} {r' : Outcome}
    (h : Begun #[] #[] (.ok (ok, issues)) r') :
    (issues.toList = [] ↔ ok = true) ∧ issues.toList.length ≤ 1 := by
  cases h <;> simp

theorem Begun.of_all {ok : Bool} {issues : Array Issue} {r : Outcome}
    (h : Begun #[] #[] r (.ok (ok, issues))) : issues.toList = [] ↔ ok = true := by
  cases h with
  | passed => simp
  | failed hlist => simp [hlist]

theorem Begun.of_both {ok ok' : Bool} {issues issues' : Array Issue}
    (h : Begun #[] #[] (.ok (ok, issues)) (.ok (ok', issues'))) :
    issues.toList = issues'.toList.head?.toList := by
  cases h with
  | passed => rfl
  | failed hlist => simp [hlist]

theorem firstFailure_of_begun (kind : Kind) (run : Depth → Recording → Outcome)
    (h : ∀ depth, Begun #[] #[] (run depth .first) (run depth .all)) :
    FirstFailure (reportOf kind run) where
  empty_iff := by
    intro settings report hreport
    obtain ⟨ok, issues, hrun, rfl⟩ := exists_of_report hreport
    have hbegun := h settings.depth
    split at hrun
    · rw [hrun] at hbegun
      exact hbegun.of_all
    · rw [hrun] at hbegun
      exact hbegun.of_first.1
  atMostOne := by
    intro settings hfirst report hreport
    obtain ⟨ok, issues, hrun, rfl⟩ := exists_of_report hreport
    have hbegun := h settings.depth
    rw [if_neg (by simp [hfirst])] at hrun
    rw [hrun] at hbegun
    exact hbegun.of_first.2
  first := by
    intro one many hdepth hfirst hall brief full hbrief hfull
    obtain ⟨ok, issues, hone, rfl⟩ := exists_of_report hbrief
    obtain ⟨ok', issues', hmany, rfl⟩ := exists_of_report hfull
    have hbegun := h many.depth
    rw [if_neg (by simp [hfirst]), hdepth] at hone
    rw [if_pos hall] at hmany
    rw [hone, hmany] at hbegun
    exact hbegun.of_both

theorem firstFailure_values (d : Descriptor) (v : Value) :
    FirstFailure fun settings => explain settings d v :=
  firstFailure_of_begun d.kind
    (fun depth mode => check depth.limit (depth.limit.bound + 1) mode d v [] #[])
    fun _ => check_begins _ _ d v [] _ _

theorem Store.firstFailure_objects (store : Store) (d v : Ref) :
    FirstFailure fun settings => store.explain settings d v := by
  unfold Store.explain
  cases store.trees? d v with
  | some pair => exact firstFailure_values pair.1 pair.2
  | none =>
    dsimp only
    cases hkind : store.kindOf? (.object d) with
    | error e =>
      simp only [Store.runCheck, store.check_of_kindOf?_error hkind]
      exact firstFailure_of_error e
    | ok kind =>
      have hreport := firstFailure_of_begun kind
        (fun depth mode =>
          store.check depth.limit (depth.limit.bound + 1) mode (.object d) v [] #[])
        fun _ => store.check_begins _ _ (.object d) v [] _ _
      convert hreport using 2 with settings
      simp only [reportOf, Store.runCheck]
      cases store.check settings.depth.limit _ _ (.object d) v [] #[] <;> rfl

/-- The reports of every descriptor and value fit together, and those of every two objects, whose
parts may be shared, may hold themselves, and may be what no builder admits. -/
theorem reports_share_first_failure :
    (∀ d v, FirstFailure fun settings => explain settings d v) ∧
      ∀ (store : Store) d v, FirstFailure fun settings => store.explain settings d v :=
  ⟨firstFailure_values, Store.firstFailure_objects⟩

/-- A record of lists of numbers with a key that is no text and two failures under another, and
lists of lists of numbers against a list that holds itself and a number. -/
theorem reports_share_first_failure_loop :
    let brief : Settings := ⟨.ofInt 256 (by decide), .bool false⟩
    let v := Value.dict [(.string "a", .list [.int 2, .null, .string "b"]), (.int 1, .null)]
    let first : Issue := ⟨[.key "a", .index 1], .number, .notNumber .null⟩
    let listed : List Issue := [first, ⟨[.key "a", .index 2], .number, .notNumber (.string "b")⟩,
      ⟨[], .record, .keyNotText (.int 1)⟩]
    let store := Store.looped
    let met : Issue := ⟨[.index 0, .index 0], .number, .notNumber (store.tree 4)⟩
    let told : List Issue := [met, ⟨[.index 1], .list, .notSequence (.int 5)⟩]
    explain .default (.record (.list .number)) v = .ok ⟨.record, false, listed⟩ ∧
      explain brief (.record (.list .number)) v = .ok ⟨.record, false, [first]⟩ ∧
      [first] = listed.head?.toList ∧
      store.explain .default 3 4 = .ok ⟨.list, false, told⟩ ∧
      store.explain brief 3 4 = .ok ⟨.list, false, [met]⟩ ∧
      [met] = told.head?.toList := by
  intro brief v first listed store met told
  obtain ⟨hvalues, hobjects⟩ := reports_share_first_failure
  have hfull : explain .default (.record (.list .number)) v = .ok ⟨.record, false, listed⟩ := rfl
  have hbrief : explain brief (.record (.list .number)) v = .ok ⟨.record, false, [first]⟩ := rfl
  have htold : store.explain .default 3 4 = .ok ⟨.list, false, told⟩ := rfl
  have hmet : store.explain brief 3 4 = .ok ⟨.list, false, [met]⟩ := rfl
  have hdepth : brief.depth = Settings.default.depth := rfl
  exact ⟨hfull, hbrief, (hvalues _ v).first hdepth rfl rfl hbrief hfull, htold, hmet,
    (hobjects store 3 4).first hdepth rfl rfl hmet htold⟩

end DataSchema
