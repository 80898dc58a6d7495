import DataSchema.Proofs.Accord

/-!
The laws of all engines. A check adds its issues to those from before, puts them under the place
where it is made, and depends on neither; alternatives add none; and a check in which failures are
written down passes exactly if it adds none. More levels keep an answer. From these laws the issues
of many parts are the issues of each, one after the other.
-/

namespace DataSchema

/-- The same issue under a base. -/
def Issue.under (base : Path) (i : Issue) : Issue := { i with path := base ++ i.path }

theorem Issue.matches_eq_iff {base : Path} {i j : Issue} :
    i.Matches base Eq j ↔ i = j.under base := by
  constructor
  · rintro ⟨hpath, hkind, hreason⟩
    obtain ⟨path, kind, reason⟩ := i
    simp only [under, Issue.mk.injEq]
    exact ⟨hpath, hkind, hreason⟩
  · rintro rfl
    exact ⟨rfl, rfl, rfl⟩

/-- The same answer with issues added that match one by one, or failures that correspond. -/
inductive Recorded (X : Error → Error → Prop) (Match : Issue → Issue → Prop)
    (before before' : Array Issue) : Outcome → Outcome → Prop where
  | error {e e' : Error} (h : X e e') : Recorded X Match before before' (.error e) (.error e')
  | answer (ok : Bool) {after after' : Array Issue} {new new' : List Issue}
    (h : after.toList = before.toList ++ new) (h' : after'.toList = before'.toList ++ new')
    (hmatch : List.Forall₂ Match new new') :
    Recorded X Match before before' (.ok (ok, after)) (.ok (ok, after'))

/-- Both tests add issues that match, whatever was written down before. -/
def Test.Records (X : Error → Error → Prop) (Match : Issue → Issue → Prop) (s t : Test) : Prop :=
  ∀ before before', Recorded X Match before before' (s before) (t before')

namespace Recorded

variable {X : Error → Error → Prop} {Match : Issue → Issue → Prop}
  {before before' after after' : Array Issue} {r r' : Outcome} {t t' : Test}

/-- What is added later comes after what was added first. -/
theorem prepend {new new' : List Issue} (h : after.toList = before.toList ++ new)
    (h' : after'.toList = before'.toList ++ new') (hmatch : List.Forall₂ Match new new')
    (hr : Recorded X Match after after' r r') : Recorded X Match before before' r r' := by
  cases hr with
  | error he => exact .error he
  | answer ok k k' hlater =>
    refine .answer ok ?_ ?_ (List.rel_append hmatch hlater)
    · rw [k, h, List.append_assoc]
    · rw [k', h', List.append_assoc]

theorem andThen (hr : Recorded X Match before before' r r') (ht : t.Records X Match t') :
    Recorded X Match before before' (r.andThen t) (r'.andThen t') := by
  cases hr with
  | error he => exact .error he
  | answer ok h h' hmatch =>
    cases ok with
    | true => exact (ht _ _).prepend h h' hmatch
    | false => exact .answer false h h' hmatch

theorem orElse (hr : Recorded X Match before before' r r') (ht : t.Records X Match t') :
    Recorded X Match before before' (r.orElse t) (r'.orElse t') := by
  cases hr with
  | error he => exact .error he
  | answer ok h h' hmatch =>
    cases ok with
    | true => exact .answer true h h' hmatch
    | false => exact (ht _ _).prepend h h' hmatch

theorem also (mode : Recording) (hr : Recorded X Match before before' r r')
    (ht : t.Records X Match t') :
    Recorded X Match before before' (r.also mode t) (r'.also mode t') := by
  cases hr with
  | error he => exact .error he
  | @answer ok after after' _ _ h h' hmatch =>
    have hrest := (ht after after').prepend h h' hmatch
    cases ok with
    | true => exact hrest
    | false =>
      cases hmode : mode.stopsEarly with
      | true =>
        rw [Outcome.also_false_early hmode, Outcome.also_false_early hmode]
        exact .answer false h h' hmatch
      | false =>
        rw [Outcome.also_false_all hmode, Outcome.also_false_all hmode]
        generalize t after = later, t' after' = later' at hrest ⊢
        cases hrest with
        | error he => exact .error he
        | answer _ k k' hlater => exact .answer false k k' hlater

end Recorded

theorem accord_records (mode : Recording) (base : Path) (X : Error → Error → Prop)
    (M : Reason → Reason → Prop) {Match : Issue → Issue → Prop}
    (hMatch : ∀ i j, i.Matches base M j → Match i j) :
    Accord mode mode base X M (Test.Records X Match) (Test.Records X Match) where
  pass := fun _ _ => .answer true (List.append_nil _).symm (List.append_nil _).symm .nil
  fail := by
    intro i j h before before'
    cases mode with
    | silent => exact .answer false (List.append_nil _).symm (List.append_nil _).symm .nil
    | first | all =>
      exact .answer false Array.toList_push Array.toList_push (.cons (hMatch i j h) .nil)
  raise := fun h _ _ => .error h
  andThen := fun hs ht before before' => (hs before before').andThen ht
  orElse := fun hs ht before before' => (hs before before').orElse ht
  also := fun hs ht before before' => (hs before before').also mode ht

/-- A test that writes nothing down. -/
def Test.Quiet (t : Test) : Prop := ∀ before ok after, t before = .ok (ok, after) → after = before

/-- A test that passes exactly if it writes nothing down. -/
def Test.Blames (t : Test) : Prop := ∀ before ok after, t before = .ok (ok, after) →
  ∃ new, after.toList = before.toList ++ new ∧ (ok = true ↔ new = [])

namespace Outcome

variable {r : Outcome} {t : Test} {mode : Recording} {ok : Bool} {issues : Array Issue}

theorem andThen_eq_ok (h : r.andThen t = .ok (ok, issues)) :
    (∃ middle, r = .ok (true, middle) ∧ t middle = .ok (ok, issues)) ∨
      r = .ok (false, issues) ∧ ok = false := by
  rcases r with e | ⟨first, middle⟩
  · contradiction
  · cases first with
    | true => exact .inl ⟨middle, rfl, h⟩
    | false =>
      obtain ⟨rfl, rfl⟩ : false = ok ∧ middle = issues := Prod.mk.inj (Except.ok.inj h)
      exact .inr ⟨rfl, rfl⟩

theorem orElse_eq_ok (h : r.orElse t = .ok (ok, issues)) :
    r = .ok (true, issues) ∧ ok = true ∨
      ∃ middle, r = .ok (false, middle) ∧ t middle = .ok (ok, issues) := by
  rcases r with e | ⟨first, middle⟩
  · contradiction
  · cases first with
    | false => exact .inr ⟨middle, rfl, h⟩
    | true =>
      obtain ⟨rfl, rfl⟩ : true = ok ∧ middle = issues := Prod.mk.inj (Except.ok.inj h)
      exact .inl ⟨rfl, rfl⟩

/-- The second of two tests in a row ran, or the first failed and no more failures were wanted. -/
theorem also_eq_ok (h : r.also mode t = .ok (ok, issues)) :
    (∃ first middle second, r = .ok (first, middle) ∧ t middle = .ok (second, issues) ∧
      ok = (first && second)) ∨
      r = .ok (false, issues) ∧ ok = false ∧ mode.stopsEarly = true := by
  rcases r with e | ⟨first, middle⟩
  · contradiction
  · cases first with
    | true => exact .inl ⟨true, middle, ok, rfl, h, rfl⟩
    | false =>
      cases hmode : mode.stopsEarly with
      | true =>
        rw [also_false_early hmode] at h
        obtain ⟨rfl, rfl⟩ : false = ok ∧ middle = issues := Prod.mk.inj (Except.ok.inj h)
        exact .inr ⟨rfl, rfl, rfl⟩
      | false =>
        rw [also_false_all hmode] at h
        rcases ht : t middle with e | ⟨second, after⟩
        · rw [ht] at h
          contradiction
        · rw [ht] at h
          obtain ⟨rfl, rfl⟩ : false = ok ∧ after = issues := Prod.mk.inj (Except.ok.inj h)
          exact .inl ⟨false, middle, second, rfl, ht, rfl⟩

end Outcome

theorem accord_quiet (base : Path) (X : Error → Error → Prop) (M : Reason → Reason → Prop) :
    Accord .silent .silent base X M (fun t _ => t.Quiet) (fun t _ => t.Quiet) where
  pass := fun _ _ _ h => (congrArg Prod.snd (Except.ok.inj h)).symm
  fail := fun _ _ _ _ h => (congrArg Prod.snd (Except.ok.inj h)).symm
  raise := fun _ _ _ _ h => by contradiction
  andThen := by
    intro s _ t _ hs ht before ok after h
    rcases Outcome.andThen_eq_ok h with ⟨middle, hmiddle, h⟩ | ⟨h, -⟩
    · rw [ht _ _ _ h, hs _ _ _ hmiddle]
    · exact hs _ _ _ h
  orElse := by
    intro s _ t _ hs ht before ok after h
    rcases Outcome.orElse_eq_ok h with ⟨h, -⟩ | ⟨middle, hmiddle, h⟩
    · exact hs _ _ _ h
    · rw [ht _ _ _ h, hs _ _ _ hmiddle]
  also := by
    intro s _ t _ hs ht before ok after h
    rcases Outcome.also_eq_ok h with ⟨_, middle, _, hmiddle, h, -⟩ | ⟨h, -⟩
    · rw [ht _ _ _ h, hs _ _ _ hmiddle]
    · exact hs _ _ _ h

theorem accord_blames {mode : Recording} (hmode : mode ≠ .silent) (base : Path)
    (X : Error → Error → Prop) (M : Reason → Reason → Prop) :
    Accord mode mode base X M (fun t _ => t.Quiet) (fun t _ => t.Blames) where
  pass := by
    intro before ok after h
    obtain ⟨rfl, rfl⟩ : true = ok ∧ before = after := Prod.mk.inj (Except.ok.inj h)
    exact ⟨[], (List.append_nil _).symm, by simp⟩
  fail := by
    intro i _ _ before ok after h
    obtain ⟨rfl, rfl⟩ : false = ok ∧ mode.note before i = after := Prod.mk.inj (Except.ok.inj h)
    refine ⟨[i], ?_, by simp⟩
    cases mode with
    | silent => contradiction
    | first | all => exact Array.toList_push
  raise := fun _ _ _ _ h => by contradiction
  andThen := by
    intro s _ t _ hs ht before ok after h
    rcases Outcome.andThen_eq_ok h with ⟨middle, hmiddle, hlast⟩ | ⟨hfirst, rfl⟩
    · obtain ⟨new, hnew, hiff⟩ := hs _ _ _ hmiddle
      obtain rfl := hiff.mp rfl
      obtain ⟨later, hlater, hok⟩ := ht _ _ _ hlast
      exact ⟨later, by rw [hlater, hnew, List.append_nil], hok⟩
    · exact hs _ _ _ hfirst
  orElse := by
    intro s _ t _ hs ht before ok after h
    rcases Outcome.orElse_eq_ok h with ⟨hfirst, rfl⟩ | ⟨middle, hmiddle, hlast⟩
    · exact ⟨[], by rw [hs _ _ _ hfirst, List.append_nil], by simp⟩
    · rw [hs _ _ _ hmiddle] at hlast
      exact ht _ _ _ hlast
  also := by
    intro s _ t _ hs ht before ok after h
    rcases Outcome.also_eq_ok h with ⟨first, middle, second, hmiddle, hlast, rfl⟩ | ⟨hfirst, rfl, -⟩
    · obtain ⟨new, hnew, hone⟩ := hs _ _ _ hmiddle
      obtain ⟨later, hlater, htwo⟩ := ht _ _ _ hlast
      refine ⟨new ++ later, by rw [hlater, hnew, List.append_assoc], ?_⟩
      rw [Bool.and_eq_true, hone, htwo, List.append_eq_nil_iff]
    · exact hs _ _ _ hfirst

namespace Engine

variable {D V D' V' : Type} {X : Error → Error → Prop} {M : Reason → Reason → Prop}
  {R : D → V → D' → V' → Prop} {limit limit' : Limit}

/-- The checks of engines that mirror each other answer alike, and add issues that match. -/
theorem check_records {E : Engine D V} {E' : Engine D' V'} (hE : E.Mirrors E' X M R)
    (hover : ∀ kind, X (limit.overrun kind) (limit'.overrun kind)) (levels : Nat)
    (mode : Recording) {d : D} {v : V} {d' : D'} {v' : V'} (h : R d v d' v') (base path : Path) :
    (E.check limit levels mode d v (base ++ path)).Records X (Issue.Matches base M)
      (E'.check limit' levels mode d' v' path) := by
  induction levels generalizing mode d v d' v' path with
  | zero =>
    intro before before'
    rw [check, check, hE.kind h]
    exact .error (hover _)
  | succ levels ih =>
    exact check_succ_related hE (accord_records mode base X M fun _ _ h => h)
      (fun _ _ _ _ q hd => ih mode hd q) (fun _ _ _ _ q hd => ih .silent hd q) h path

variable (E : Engine D V)

theorem check_quiet (levels : Nat) (d : D) (v : V) (path : Path) :
    (E.check limit levels .silent d v path).Quiet := by
  induction levels generalizing d v path with
  | zero => exact fun _ _ _ h => by contradiction
  | succ levels ih =>
    exact E.check_succ_keeps (accord_quiet [] _ _) (fun d w q => ih d w q) (fun d w q => ih d w q)
      d v path

theorem check_blames {mode : Recording} (hmode : mode ≠ .silent) (levels : Nat) (d : D) (v : V)
    (path : Path) : (E.check limit levels mode d v path).Blames := by
  induction levels generalizing d v path with
  | zero => exact fun _ _ _ h => by contradiction
  | succ levels ih =>
    exact E.check_succ_keeps (accord_blames hmode [] _ _) (fun d w q => ih d w q)
      (fun d w q => E.check_quiet levels d w q) d v path

theorem check_sameAnswer (limit : Limit) (levels : Nat) {one two : Recording}
    (hone : one.stopsEarly = true) (htwo : two.stopsEarly = true) (d : D) (v : V) (path : Path) :
    Test.SameAnswer (E.check limit levels one d v path) (E.check limit levels two d v path) := by
  induction levels generalizing one two d v path with
  | zero => exact fun _ _ => .error _
  | succ levels ih =>
    have haccord := (lockstep_sameAnswer hone htwo).accord fun e _ _ => .error e
    apply check_succ_related E.mirrors_self haccord _ _ ⟨rfl, rfl⟩ path
    · rintro d w _ _ q ⟨rfl, rfl⟩
      exact ih hone htwo d w q
    · rintro d w _ _ q ⟨rfl, rfl⟩
      exact ih rfl rfl d w q

theorem check_foretells (limit : Limit) (levels : Nat) (d : D) (v : V) (path : Path) :
    Test.Foretells (E.check limit levels .silent d v path)
      (E.check limit levels .all d v path) := by
  induction levels generalizing d v path with
  | zero => exact fun _ _ => .error _
  | succ levels ih =>
    have haccord := lockstep_foretells.accord fun e _ _ => .error e
    apply check_succ_related E.mirrors_self haccord _ _ ⟨rfl, rfl⟩ path
    · rintro d w _ _ q ⟨rfl, rfl⟩
      exact ih d w q
    · rintro d w _ _ q ⟨rfl, rfl⟩
      exact E.check_sameAnswer limit levels rfl rfl d w q

theorem check_extends (limit limit' : Limit) {levels levels' : Nat} (h : levels ≤ levels')
    (mode : Recording) (d : D) (v : V) (path : Path) :
    Test.Extends limit (E.check limit levels mode d v path)
      (E.check limit' levels' mode d v path) := by
  induction levels generalizing levels' mode d v path with
  | zero => exact fun _ => .short (E.kind d) _
  | succ levels ih =>
    obtain ⟨fewer, rfl⟩ : ∃ n, levels' = n + 1 := ⟨levels' - 1, by omega⟩
    have hle : levels ≤ fewer := by omega
    have haccord := (lockstep_extends limit mode).accord fun e _ => .same _
    apply check_succ_related E.mirrors_self haccord _ _ ⟨rfl, rfl⟩ path
    · rintro d w _ _ q ⟨rfl, rfl⟩
      exact ih hle mode d w q
    · rintro d w _ _ q ⟨rfl, rfl⟩
      exact ih hle .silent d w q

end Engine

end DataSchema
