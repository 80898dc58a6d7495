import DataSchema.Proofs.Engine
import DataSchema.Store.Identity

/-!
The first alternative that accepts a value. A presentation asks for it alternative by alternative,
each from the root; a union asks its alternatives one level further down, and stops at the same one.
So the two agree where the union is given one level more, and under the same settings the position
is known whenever the union has an answer.
-/

namespace DataSchema

/-- The position of the first element that passes a test that may fail. -/
def firstOf {α : Type} (test : α → Except Error Bool) : List α → Except Error (Option Nat)
  | [] => .ok none
  | a :: as => do
    if ← test a then return some 0
    return (← firstOf test as).map (· + 1)

/-- An element passes, and none of those before it does. -/
structure PassesFirst {α : Type} (test : α → Except Error Bool) (as : List α) (i : Nat) :
    Prop where
  passes : ∃ a, as[i]? = some a ∧ test a = .ok true
  before (j : Nat) (h : j < i) : ∃ a, as[j]? = some a ∧ test a = .ok false

/-- The same answer, or failures of one family. -/
inductive SameFamily {α : Type} : Except Error α → Except Error α → Prop where
  | ok (a : α) : SameFamily (.ok a) (.ok a)
  | error {e e' : Error} (h : e.family = e'.family) : SameFamily (.error e) (.error e')

/-- A position is found exactly if the answer is yes, none is found exactly if it is no, and both
fail in the same ways. -/
structure SameChoice (position : Except Error (Option Nat)) (answer : Except Error Bool) :
    Prop where
  some_iff : (∃ i, position = .ok (some i)) ↔ answer = .ok true
  none_iff : position = .ok none ↔ answer = .ok false
  error_iff (family : Error.Family) : (∃ e, position = .error e ∧ e.family = family) ↔
    ∃ e, answer = .error e ∧ e.family = family

section Lists

variable {α : Type} {f g : α → Except Error Bool} {as : List α}

theorem firstOf_cons_true {a : α} (h : f a = .ok true) : firstOf f (a :: as) = .ok (some 0) := by
  rw [firstOf, h]
  rfl

theorem firstOf_cons_false {a : α} (h : f a = .ok false) :
    firstOf f (a :: as) = (firstOf f as).map (Option.map (· + 1)) := by
  rw [firstOf, h]
  cases firstOf f as <;> rfl

theorem firstOf_cons_error {a : α} {e : Error} (h : f a = .error e) :
    firstOf f (a :: as) = .error e := by
  rw [firstOf, h]
  rfl

theorem anyOf_cons_true {a : α} (h : f a = .ok true) : Store.anyOf f (a :: as) = .ok true := by
  rw [Store.anyOf, h]
  rfl

theorem anyOf_cons_false {a : α} (h : f a = .ok false) :
    Store.anyOf f (a :: as) = Store.anyOf f as := by
  rw [Store.anyOf, h]
  rfl

theorem anyOf_cons_error {a : α} {e : Error} (h : f a = .error e) :
    Store.anyOf f (a :: as) = .error e := by
  rw [Store.anyOf, h]
  rfl

theorem anyOf_map {β : Type} {of : β → α} {bs : List β} :
    Store.anyOf f (bs.map of) = Store.anyOf (fun b => f (of b)) bs := by
  induction bs with
  | nil => rfl
  | cons b bs ih => rw [List.map_cons, Store.anyOf, Store.anyOf, ih]

theorem passesFirst_of_firstOf {i : Nat} (h : firstOf f as = .ok (some i)) :
    PassesFirst f as i := by
  induction as generalizing i with
  | nil => simp [firstOf] at h
  | cons a as ih =>
    cases ha : f a with
    | error e => simp [firstOf_cons_error ha] at h
    | ok holds =>
      cases holds with
      | true =>
        rw [firstOf_cons_true ha] at h
        obtain rfl := Option.some.inj (Except.ok.inj h)
        exact ⟨⟨a, rfl, ha⟩, fun j hj => absurd hj j.not_lt_zero⟩
      | false =>
        rw [firstOf_cons_false ha] at h
        obtain ⟨found, hfound, hnext⟩ : ∃ found, firstOf f as = .ok found ∧
            found.map (· + 1) = some i := by
          cases hrest : firstOf f as with
          | error e => simp [hrest, Except.map] at h
          | ok found => exact ⟨found, rfl, by simpa [hrest, Except.map] using h⟩
        obtain ⟨k, rfl, rfl⟩ := Option.map_eq_some_iff.mp hnext
        obtain ⟨hpasses, hbefore⟩ := ih hfound
        refine ⟨hpasses, fun j hj => ?_⟩
        cases j with
        | zero => exact ⟨a, rfl, ha⟩
        | succ j => exact hbefore j (Nat.lt_of_succ_lt_succ hj)

/-- Tests that come out alike are passed at some position exactly if they are passed at all. -/
theorem sameFamily_firstOf (h : ∀ a ∈ as, SameFamily (f a) (g a)) :
    SameFamily ((firstOf f as).map Option.isSome) (Store.anyOf g as) := by
  induction as with
  | nil => exact .ok false
  | cons a as ih =>
    have ha := h a List.mem_cons_self
    generalize hf : f a = one, hg : g a = two at ha
    cases ha with
    | error he =>
      rw [firstOf_cons_error hf, anyOf_cons_error hg]
      exact .error he
    | ok holds =>
      cases holds with
      | true =>
        rw [firstOf_cons_true hf, anyOf_cons_true hg]
        exact .ok true
      | false =>
        rw [firstOf_cons_false hf, anyOf_cons_false hg]
        have hrest := ih fun b hb => h b (List.mem_cons_of_mem a hb)
        generalize firstOf f as = rest at hrest ⊢
        cases rest with
        | error e => exact hrest
        | ok found => cases found <;> exact hrest

/-- A test that answers wherever another does finds a position if the other has an answer. -/
theorem firstOf_of_anyOf (h : ∀ a ∈ as, ∀ holds, g a = .ok holds → f a = .ok holds) {holds : Bool}
    (hany : Store.anyOf g as = .ok holds) : (firstOf f as).map Option.isSome = .ok holds := by
  induction as with
  | nil => exact hany
  | cons a as ih =>
    cases hg : g a with
    | error e => simp [anyOf_cons_error hg] at hany
    | ok first =>
      have hf := h a List.mem_cons_self first hg
      cases first with
      | true =>
        rw [anyOf_cons_true hg] at hany
        rw [firstOf_cons_true hf]
        exact hany
      | false =>
        rw [anyOf_cons_false hg] at hany
        rw [firstOf_cons_false hf]
        have hrest := ih (fun b hb => h b (List.mem_cons_of_mem a hb)) hany
        generalize firstOf f as = rest at hrest ⊢
        cases rest with
        | error e => exact hrest
        | ok found => cases found <;> exact hrest

end Lists

theorem SameFamily.choice {position : Except Error (Option Nat)} {answer : Except Error Bool}
    (h : SameFamily (position.map Option.isSome) answer) : SameChoice position answer := by
  cases position with
  | error e =>
    cases h with
    | error he => constructor <;> simp [he]
  | ok found =>
    cases h with
    | ok => cases found <;> constructor <;> simp

/-- What the choice of an alternative and the validation of the union owe each other, under all
settings: they agree where the union has one level more, the alternative that is chosen is the first
that accepts, and under the same settings there is a choice wherever the union has an answer. -/
structure AgreesWithUnion {α : Type} (position : Settings → Except Error (Option Nat))
    (answer : Settings → Except Error Bool) (accepts : Settings → α → Except Error Bool)
    (alternatives : List α) : Prop where
  deeper (depth : Int) (h : 1 ≤ depth) (hle : depth + 1 ≤ Depth.ceiling)
    (collects collects' : Value) : SameChoice (position ⟨.ofInt depth h, collects⟩)
      (answer ⟨.ofInt (depth + 1) (by omega), collects'⟩)
  first (settings : Settings) (i : Nat) (h : position settings = .ok (some i)) :
    PassesFirst (accepts settings) alternatives i
  settled (settings : Settings) (holds : Bool) (h : answer settings = .ok holds) :
    (position settings).map Option.isSome = .ok holds

/-! ### Engines -/

namespace Engine

variable {D V : Type} (E : Engine D V) {limit limit' : Limit} {d : D} {v : V}

/-- Whether a value passes a silent check. -/
def verdict (limit : Limit) (levels : Nat) (d : D) (v : V) : Except Error Bool :=
  (E.check limit levels .silent d v [] #[]).map (·.1)

variable {ds : List D} {reason : Reason}

/-- A plan for one of some alternatives asks them in order, one level further down. -/
theorem verdict_oneOf (levels : Nat) (hd : E.derived? d = none)
    (hplan : E.plan d v = .oneOf ds reason) : E.verdict limit (levels + 1) d v =
      Store.anyOf (fun e => E.verdict limit levels e v) ds := by
  unfold verdict
  rw [E.check_of_none limit levels .silent v [] hd, hplan, Plan.run]
  clear hplan
  induction ds with
  | nil => rfl
  | cons e ds ih =>
    simp only [List.map_cons, List.foldr_cons, Store.anyOf]
    change (Outcome.orElse (E.check limit levels .silent e v [] #[]) _).map (·.1) = _
    rcases hcheck : E.check limit levels .silent e v [] #[] with e' | ⟨ok, after⟩
    · rfl
    · -- a silent check leaves nothing behind that the next one could see
      obtain rfl := E.check_quiet levels e v [] #[] ok after hcheck
      cases ok with
      | true => rfl
      | false => exact ih

/-- Limits on the levels only show in what failures say. -/
theorem sameFamily_verdict (h : limit.levels.isSome = true) (h' : limit'.levels.isSome = true)
    (levels : Nat) (d : D) (v : V) :
    SameFamily (E.verdict limit levels d v) (E.verdict limit' levels d v) := by
  have hover (kind : Kind) : (limit.overrun kind).family = (limit'.overrun kind).family := by
    simp [Limit.overrun, h, h', Error.family]
  have hself := E.mirrors_refl (X := fun e e' => e.family = e'.family) (M := Eq) (fun _ => rfl)
    fun _ => rfl
  have hsame : d = d ∧ v = v := ⟨rfl, rfl⟩
  have hrecords := check_records hself hover levels .silent hsame [] [] #[] #[]
  unfold verdict
  rw [List.append_nil] at hrecords
  generalize E.check limit levels .silent d v [] #[] = r, E.check limit' levels .silent d v [] #[]
    = r' at hrecords
  cases hrecords with
  | error he => exact .error he
  | answer ok => exact .ok ok

/-- More levels keep an answer. -/
theorem verdict_of_verdict {levels levels' : Nat} (h : levels ≤ levels') {holds : Bool}
    (hv : E.verdict limit levels d v = .ok holds) : E.verdict limit' levels' d v = .ok holds := by
  have hextends := E.check_extends limit limit' h .silent d v [] #[]
  unfold verdict at hv ⊢
  generalize E.check limit levels .silent d v [] #[] = r, E.check limit' levels' .silent d v [] #[]
    = r' at hextends hv ⊢
  cases hextends with
  | short kind => contradiction
  | same => exact hv

end Engine

/-! ### Settings and values -/

/-- The choice agrees with the union wherever an engine says what is accepted and plans to ask for
one of the alternatives. -/
theorem Engine.agreesWithUnion {D V α : Type} (E : Engine D V) {d : D} {v : V} (of : α → D)
    {as : List α} {reason : Reason} (hd : E.derived? d = none)
    (hplan : E.plan d v = .oneOf (as.map of) reason)
    {position : Settings → Except Error (Option Nat)} {answer : Settings → Except Error Bool}
    {accepts : Settings → α → Except Error Bool}
    (hposition : ∀ settings, position settings = firstOf (accepts settings) as)
    (hanswer : ∀ settings, answer settings =
      E.verdict settings.depth.limit (settings.depth.limit.bound + 1) d v)
    (haccepts : ∀ settings, ∀ a ∈ as, accepts settings a =
      E.verdict settings.depth.limit (settings.depth.limit.bound + 1) (of a) v) :
    AgreesWithUnion position answer accepts as where
  deeper := by
    intro depth h hle collects collects'
    have hone := Depth.levels_ofInt h (by omega)
    have htwo := Depth.levels_ofInt (n := depth + 1) (by omega) hle
    have hlevels : (depth + 1).toNat = depth.toNat + 1 := by omega
    rw [hposition, hanswer, Limit.bound_eq htwo, hlevels, E.verdict_oneOf _ hd hplan, anyOf_map]
    refine (sameFamily_firstOf fun a ha => ?_).choice
    rw [haccepts _ a ha, Limit.bound_eq hone]
    exact E.sameFamily_verdict (by rw [hone]; rfl) (by rw [htwo]; rfl) _ (of a) v
  first := fun settings i h => passesFirst_of_firstOf ((hposition settings).symm.trans h)
  settled := by
    intro settings holds h
    rw [hanswer, E.verdict_oneOf _ hd hplan, anyOf_map] at h
    rw [hposition]
    refine firstOf_of_anyOf (fun a ha holds hv => ?_) h
    rw [haccepts _ a ha]
    exact E.verdict_of_verdict (Nat.le_succ _) hv

/-! ### Values -/

theorem validate_eq_verdict (settings : Settings) (d : Descriptor) (v : Value) :
    validate settings d v = Descriptor.engine.verdict settings.depth.limit
      (settings.depth.limit.bound + 1) d v := by
  rw [validate, runCheck, check_eq, Engine.verdict]

theorem matchAlternative_eq_firstOf (settings : Settings) (v : Value) (ds : List Descriptor) :
    matchAlternative settings v ds = firstOf (fun d => validate settings d v) ds := by
  induction ds with
  | nil => rfl
  | cons d ds ih => rw [matchAlternative, firstOf, ih]

theorem agreesWithUnion_values (ds : List Descriptor) (v : Value) :
    AgreesWithUnion (fun settings => matchAlternative settings v ds)
      (fun settings => validate settings (.union ds) v)
      (fun settings d => validate settings d v) ds :=
  Descriptor.engine.agreesWithUnion (fun d => d) rfl (by rw [List.map_id']; rfl)
    (fun settings => matchAlternative_eq_firstOf settings v ds)
    (fun settings => validate_eq_verdict settings (.union ds) v)
    (fun settings d _ => validate_eq_verdict settings d v)

end DataSchema
