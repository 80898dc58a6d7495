import DataSchema.Proofs.Correspondence
import DataSchema.Proofs.Engine

/-!
What a check finds. A check that writes failures down finds the same wherever it is made and
whatever was found before, so what it finds is told part by part: the parts that a plan hands on
find their failures one after the other, and each of them finds what it would find by itself, under
the step that leads to it.
-/

namespace DataSchema

variable {D V : Type} {E : Engine D V} {limit : Limit} {levels : Nat} {mode : Recording} {d : D}
  {v : V}

/-- The answer of a check at the root, and the issues that it writes down. -/
def Engine.Finds (E : Engine D V) (limit : Limit) (levels : Nat) (mode : Recording) (d : D) (v : V)
    (ok : Bool) (issues : List Issue) : Prop :=
  E.check limit levels mode d v [] #[] = .ok (ok, issues.toArray)

/-- The answer of one of many parts, and the issues that it writes down. -/
inductive Item.Finds (E : Engine D V) (limit : Limit) (levels : Nat) (mode : Recording)
    (kind : Kind) : Item D V → Bool → List Issue → Prop where
  | part {d : D} {v : V} {step : Step} {ok : Bool} {issues : List Issue}
    (h : E.Finds limit levels mode d v ok issues) :
    Finds E limit levels mode kind (.part d v step) ok (issues.map (·.under [step]))
  | blemish (reason : Reason) :
    Finds E limit levels mode kind (.blemish reason) false [⟨[], kind, reason⟩]

/-- What a plan says of a value as a whole. -/
def Plan.reason? : Plan D V → Option Reason
  | answer _ _ reason | oneOf _ reason => some reason
  | _ => none

/-- What tests in a row add, test by test. Tests are left out only after a failure, if no more
failures are wanted. -/
theorem Test.all_map_eq_ok {α : Type} {mode : Recording} {f : α → Test}
    {Adds : α → Bool → List Issue → Prop} {items : List α}
    (hf : ∀ item ∈ items, ∀ before ok after, f item before = .ok (ok, after) →
      ∃ new, after.toList = before.toList ++ new ∧ Adds item ok new)
    {before after : Array Issue} {ok : Bool}
    (h : Test.all mode (items.map f) before = .ok (ok, after)) :
    ∃ (taken rest : List α) (found : List (Bool × List Issue)), items = taken ++ rest ∧
      (mode.stopsEarly = false ∨ ok = true → rest = []) ∧
      List.Forall₂ (fun item answer => Adds item answer.1 answer.2) taken found ∧
      ok = found.all (·.1) ∧ after.toList = before.toList ++ (found.map (·.2)).flatten := by
  induction items generalizing before after ok with
  | nil =>
    obtain ⟨rfl, rfl⟩ : true = ok ∧ before = after := Prod.mk.inj (Except.ok.inj h)
    exact ⟨[], [], [], rfl, fun _ => rfl, .nil, rfl, by simp⟩
  | cons item items ih =>
    rw [List.map_cons, Test.all_cons] at h
    rcases Outcome.also_eq_ok h with ⟨first, middle, second, hfirst, hrest, rfl⟩ | ⟨hfirst, rfl, he⟩
    · obtain ⟨new, hnew, hadds⟩ := hf item List.mem_cons_self _ _ _ hfirst
      obtain ⟨taken, rest, found, rfl, hall, hfound, rfl, hafter⟩ :=
        ih (fun x hx => hf x (List.mem_cons_of_mem item hx)) hrest
      refine ⟨item :: taken, rest, (first, new) :: found, rfl, ?_, .cons hadds hfound, rfl, ?_⟩
      · rintro (hmode | hok)
        · exact hall (.inl hmode)
        · exact hall (.inr (Bool.and_eq_true_iff.mp hok).2)
      · rw [hafter, hnew]
        simp
    · obtain ⟨new, hnew, hadds⟩ := hf item List.mem_cons_self _ _ _ hfirst
      refine ⟨[item], items, [(false, new)], rfl, ?_, .cons hadds .nil, rfl, by simpa using hnew⟩
      rintro (hmode | hok)
      · rw [he] at hmode
        contradiction
      · contradiction

namespace Engine

/-- Wherever a check is made, it adds what it finds at the root, under that place. -/
theorem finds_of_check {base : Path} {before after : Array Issue} {ok : Bool}
    (h : E.check limit levels mode d v base before = .ok (ok, after)) :
    ∃ issues, after.toList = before.toList ++ issues.map (·.under base) ∧
      E.Finds limit levels mode d v ok issues := by
  have hself : E.Mirrors E Eq Eq fun d v d' v' => d = d' ∧ v = v' := E.mirrors_self
  have hover : ∀ kind, limit.overrun kind = limit.overrun kind := fun _ => rfl
  have hrecords := check_records hself hover levels mode (d := d) (v := v) ⟨rfl, rfl⟩ base [] before
    #[]
  rw [List.append_nil, h] at hrecords
  generalize hroot : E.check limit levels mode d v [] #[] = root at hrecords
  cases hrecords with
  | @answer _ _ written new issues hnew hissues hmatch =>
    refine ⟨issues, ?_, ?_⟩
    · rw [hnew]
      congr 1
      rw [← List.forall₂_eq_eq_eq, List.forall₂_map_right_iff]
      exact hmatch.imp fun i j hij => Issue.matches_eq_iff.mp hij
    · have hwritten : written = issues.toArray := Array.toList_inj.mp hissues
      rw [Finds, hroot, hwritten]

/-- With more levels a check finds the same. -/
theorem Finds.more {ok : Bool} {issues : List Issue}
    (h : E.Finds limit levels mode d v ok issues) {levels' : Nat} (hle : levels ≤ levels')
    (limit' : Limit) : E.Finds limit' levels' mode d v ok issues := by
  have hextends := E.check_extends limit limit' hle mode d v [] #[]
  unfold Finds at h ⊢
  rw [h] at hextends
  generalize E.check limit' levels' mode d v [] #[] = root at hextends ⊢
  cases hextends with
  | same => rfl

/-- What the derived shape finds is found if it rejects; else it is nothing, and the rule is
asked. -/
theorem finds_of_derived (hmode : mode ≠ .silent) {shape : D} (hd : E.derived? d = some shape)
    {ok : Bool} {issues : List Issue} (h : E.Finds limit (levels + 1) mode d v ok issues) :
    E.Finds limit levels mode shape v false issues ∧ ok = false ∨
      E.Finds limit levels mode shape v true [] ∧
        (E.plan d v).run (E.check limit levels) mode (E.kind d) v [] #[] =
          .ok (ok, issues.toArray) := by
  rw [Finds, E.check_of_some limit levels mode v [] hd] at h
  rcases Outcome.andThen_eq_ok h with ⟨middle, hshape, hrule⟩ | ⟨hshape, rfl⟩
  · obtain ⟨new, hnew, hiff⟩ := E.check_blames hmode levels shape v [] _ _ _ hshape
    obtain rfl := hiff.mp rfl
    obtain rfl : middle = #[] := by simpa using hnew
    exact .inr ⟨hshape, hrule⟩
  · exact .inl ⟨hshape, rfl⟩

/-- What parts find that a plan hands on: one after the other, each by itself. -/
theorem finds_of_every {items : List (Item D V)} {kind : Kind} (hmode : mode ≠ .silent) {ok : Bool}
    {issues : List Issue} (h : (Plan.every items).run (E.check limit levels) mode kind v [] #[] =
      .ok (ok, issues.toArray)) :
    ∃ (taken rest : List (Item D V)) (found : List (Bool × List Issue)), items = taken ++ rest ∧
      (mode.stopsEarly = false ∨ ok = true → rest = []) ∧
      List.Forall₂ (fun item answer => item.Finds E limit levels mode kind answer.1 answer.2)
        taken found ∧ ok = found.all (·.1) ∧ issues = (found.map (·.2)).flatten := by
  have hitem : ∀ item ∈ items, ∀ before ok after,
      Item.run (E.check limit levels) mode kind [] item before = .ok (ok, after) →
      ∃ new, after.toList = before.toList ++ new ∧ item.Finds E limit levels mode kind ok new := by
    intro item _ before ok after hrun
    cases item with
    | part e w step =>
      obtain ⟨found, hafter, hfound⟩ := finds_of_check hrun
      exact ⟨_, hafter, .part hfound⟩
    | blemish reason =>
      obtain ⟨rfl, rfl⟩ := Prod.mk.inj (Except.ok.inj hrun)
      refine ⟨_, ?_, .blemish reason⟩
      cases mode with
      | silent => contradiction
      | first | all => exact Array.toList_push
    | stuck e => contradiction
  obtain ⟨taken, rest, found, hitems, hrest, hfound, hok, hissues⟩ := Test.all_map_eq_ok hitem h
  exact ⟨taken, rest, found, hitems, hrest, hfound, hok, by simpa using hissues⟩

/-- What parts find one after the other is found in one of them. -/
theorem exists_finds_of_mem {items : List (Item D V)} {kind : Kind}
    {found : List (Bool × List Issue)}
    (h : List.Forall₂ (fun item answer => item.Finds E limit levels mode kind answer.1 answer.2)
      items found) {i : Issue} (hi : i ∈ (found.map (·.2)).flatten) :
    ∃ item ∈ items, ∃ ok new, item.Finds E limit levels mode kind ok new ∧ i ∈ new := by
  obtain ⟨new, hnew, hi⟩ := List.mem_flatten.mp hi
  obtain ⟨answer, hanswer, rfl⟩ := List.mem_map.mp hnew
  obtain ⟨item, hitem, hfinds⟩ := exists_of_mem_left h.flip hanswer
  exact ⟨item, hitem, _, _, hfinds, hi⟩

/-- Alternatives leave at most the one issue that none of them matched. -/
theorem finds_of_oneOf {alternatives : List D} {reason : Reason} {kind : Kind}
    (hmode : mode ≠ .silent) {ok : Bool} {issues : List Issue}
    (h : (Plan.oneOf alternatives reason).run (E.check limit levels) mode kind v [] #[] =
      .ok (ok, issues.toArray)) :
    ok = true ∧ issues = [] ∨ ok = false ∧ issues = [⟨[], kind, reason⟩] := by
  unfold Plan.run at h
  induction alternatives with
  | nil =>
    obtain ⟨rfl, hnote⟩ := Prod.mk.inj (Except.ok.inj h)
    refine .inr ⟨rfl, ?_⟩
    cases mode with
    | silent => contradiction
    | first | all => simpa [Recording.note] using hnote.symm
  | cons e alternatives ih =>
    rcases Outcome.orElse_eq_ok h with ⟨hfirst, rfl⟩ | ⟨middle, hfirst, hrest⟩
    · have hquiet := E.check_quiet levels e v [] _ _ _ hfirst
      exact .inl ⟨rfl, by simpa using hquiet⟩
    · rw [E.check_quiet levels e v [] _ _ _ hfirst] at hrest
      exact ih hrest

/-- An answer that is given at once leaves an issue if it is a no. -/
theorem finds_of_answer {holds : Bool} {below : Path} {reason : Reason} {kind : Kind}
    (hmode : mode ≠ .silent) {ok : Bool} {issues : List Issue}
    (h : (Plan.answer holds below reason).run (E.check limit levels) mode kind v [] #[] =
      .ok (ok, issues.toArray)) :
    ok = holds ∧ issues = if holds then [] else [⟨below, kind, reason⟩] := by
  cases holds with
  | true =>
    obtain ⟨rfl, hissues⟩ := Prod.mk.inj (Except.ok.inj h)
    exact ⟨rfl, by simpa using hissues.symm⟩
  | false =>
    obtain ⟨rfl, hnote⟩ := Prod.mk.inj (Except.ok.inj h)
    refine ⟨rfl, ?_⟩
    cases mode with
    | silent => contradiction
    | first | all => simpa [Recording.note] using hnote.symm

/-- What a rule finds is nothing, or one failure of the value as a whole, or what its parts find.
Only an answer that is given at once puts its failure below the value. -/
theorem own_or_every (hmode : mode ≠ .silent) {ok : Bool} {issues : List Issue}
    (h : (E.plan d v).run (E.check limit levels) mode (E.kind d) v [] #[] =
      .ok (ok, issues.toArray)) :
    issues = [] ∨
      (∃ below reason, issues = [⟨below, E.kind d, reason⟩] ∧ (E.plan d v).reason? = some reason ∧
        (below = [] ∨ E.plan d v = .answer false below reason)) ∨
      ∃ items, E.plan d v = .every items ∧
        (Plan.every items).run (E.check limit levels) mode (E.kind d) v [] #[] =
          .ok (ok, issues.toArray) := by
  cases hplan : E.plan d v with
  | answer holds below reason =>
    rw [hplan] at h
    obtain ⟨-, rfl⟩ := finds_of_answer hmode h
    cases holds with
    | true => exact .inl rfl
    | false => exact .inr (.inl ⟨below, reason, rfl, rfl, .inr rfl⟩)
  | stuck e =>
    rw [hplan] at h
    contradiction
  | oneOf alternatives reason =>
    rw [hplan] at h
    rcases finds_of_oneOf hmode h with ⟨-, rfl⟩ | ⟨-, rfl⟩
    · exact .inl rfl
    · exact .inr (.inl ⟨[], reason, rfl, rfl, .inl rfl⟩)
  | every items => exact .inr (.inr ⟨items, rfl, hplan ▸ h⟩)

/-! ### What passes -/

/-- Some check lets the value pass. -/
def Passes (E : Engine D V) (d : D) (v : V) : Prop :=
  ∃ limit levels found, E.Finds limit levels .first d v true found

/-- Whatever a check writes down, and wherever it is made: what it lets pass passes. -/
theorem passes_of_check {base : Path} {before after : Array Issue}
    (h : E.check limit levels mode d v base before = .ok (true, after)) : E.Passes d v := by
  obtain ⟨issues, -, hfinds⟩ := finds_of_check h
  have hsilent : ∃ after, E.check limit levels .silent d v [] #[] = .ok (true, after) := by
    cases hmode : mode.stopsEarly with
    | true =>
      have hquiet : Recording.silent.stopsEarly = true := rfl
      have hsame := E.check_sameAnswer limit levels hmode hquiet d v [] #[] #[]
      rw [hfinds] at hsame
      generalize E.check limit levels .silent d v [] #[] = silent at hsame
      cases hsame with
      | answer _ _ after => exact ⟨after, rfl⟩
    | false =>
      obtain rfl : mode = .all := by cases mode <;> simp_all [Recording.stopsEarly]
      have htold := E.check_foretells limit levels d v [] #[] #[]
      rw [hfinds] at htold
      generalize E.check limit levels .silent d v [] #[] = silent at htold
      cases htold with
      | answer _ after => exact ⟨after, rfl⟩
  obtain ⟨after, hsilent⟩ := hsilent
  have hearly : Recording.silent.stopsEarly = true ∧ Recording.first.stopsEarly = true :=
    ⟨rfl, rfl⟩
  have hsame := E.check_sameAnswer limit levels hearly.1 hearly.2 d v [] #[] #[]
  rw [hsilent] at hsame
  generalize hfirst : E.check limit levels .first d v [] #[] = first at hsame
  cases hsame with
  | answer _ _ after => exact ⟨limit, levels, after.toList, by rw [Finds, hfirst]⟩

/-- What is found is found by the derived shape, or by the rule after the shape let the value
pass. -/
theorem Finds.shape_or_rule {ok : Bool} {issues : List Issue} (hmode : mode ≠ .silent)
    (h : E.Finds limit (levels + 1) mode d v ok issues) :
    (∃ shape, E.derived? d = some shape ∧ E.Finds limit levels mode shape v ok issues) ∨
      (∀ shape, E.derived? d = some shape → E.Passes shape v) ∧
        (E.plan d v).run (E.check limit levels) mode (E.kind d) v [] #[] =
          .ok (ok, issues.toArray) := by
  cases hd : E.derived? d with
  | none =>
    rw [Finds, E.check_of_none limit levels mode v [] hd] at h
    exact .inr ⟨by simp, h⟩
  | some shape =>
    rcases finds_of_derived hmode hd h with ⟨hshape, rfl⟩ | ⟨hshape, hrule⟩
    · exact .inl ⟨shape, rfl, hshape⟩
    · refine .inr ⟨?_, hrule⟩
      rintro _ hsome
      obtain rfl := Option.some.inj hsome
      exact passes_of_check hshape

/-- What passes has all parts pass that its plan hands on. -/
theorem Passes.part (h : E.Passes d v) (hd : E.derived? d = none) {items : List (Item D V)}
    (hplan : E.plan d v = .every items) {e : D} {w : V} {step : Step}
    (hmem : .part e w step ∈ items) : E.Passes e w := by
  obtain ⟨limit, levels, issues, h⟩ := h
  cases levels with
  | zero => contradiction
  | succ levels =>
    rw [Finds, E.check_of_none limit levels .first v [] hd, hplan] at h
    obtain ⟨taken, rest, found, hitems, hrest, hfound, hok, -⟩ := finds_of_every (by decide) h
    obtain rfl := hrest (.inr rfl)
    rw [hitems, List.append_nil] at hmem
    obtain ⟨⟨ok, new⟩, hanswer, hfinds⟩ := exists_of_mem_left hfound hmem
    obtain rfl : ok = true := List.all_eq_true.mp hok.symm _ hanswer
    generalize new = new at hfinds
    cases hfinds with
    | part hpart => exact ⟨limit, levels, _, hpart⟩

theorem Passes.holds (h : E.Passes d v) (hd : E.derived? d = none) {holds : Bool} {below : Path}
    {reason : Reason} (hplan : E.plan d v = .answer holds below reason) : holds = true := by
  obtain ⟨limit, levels, issues, h⟩ := h
  cases levels with
  | zero => contradiction
  | succ levels =>
    rw [Finds, E.check_of_none limit levels .first v [] hd, hplan] at h
    exact (finds_of_answer (by decide) h).1.symm

theorem Passes.not_stuck (h : E.Passes d v) (hd : E.derived? d = none) (e : Error) :
    E.plan d v ≠ .stuck e := by
  obtain ⟨limit, levels, issues, h⟩ := h
  intro hplan
  cases levels with
  | zero => contradiction
  | succ levels =>
    rw [Finds, E.check_of_none limit levels .first v [] hd, hplan] at h
    contradiction

end Engine

end DataSchema
