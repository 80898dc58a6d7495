/-!
Properties of actions that are kept when actions are put one after the other. Such a property holds
of a walk over a list if it holds of the action for each element.
-/

namespace DataSchema

/-- A property that an action has which does nothing, and one after another if both have it. -/
structure Sequential {m : Type → Type} [Monad m] (P : (α : Type) → m α → Prop) : Prop where
  pure {α : Type} (a : α) : P α (Pure.pure a)
  bind {α β : Type} {action : m α} {next : α → m β} (h : P α action)
    (hnext : ∀ a, P β (next a)) : P β (action >>= next)

namespace Sequential

variable {m : Type → Type} [Monad m] {P : (α : Type) → m α → Prop} {α β : Type}

theorem foldlM (hP : Sequential P) {f : β → α → m β} {as : List α}
    (h : ∀ b, ∀ a ∈ as, P β (f b a)) (b : β) : P β (as.foldlM f b) := by
  induction as generalizing b with
  | nil => exact hP.pure b
  | cons a as ih =>
    rw [List.foldlM_cons]
    refine hP.bind (h b a List.mem_cons_self) fun c => ?_
    exact ih (fun b x hx => h b x (List.mem_cons_of_mem a hx)) c

theorem forM (hP : Sequential P) {f : α → m Unit} {as : List α} (h : ∀ a ∈ as, P Unit (f a)) :
    P Unit (as.forM f) := by
  induction as with
  | nil => exact hP.pure ()
  | cons a as ih =>
    have hrest : P Unit (as.forM f) := ih fun x hx => h x (List.mem_cons_of_mem a hx)
    exact hP.bind (h a List.mem_cons_self) fun _ => hrest

theorem mapM [LawfulMonad m] (hP : Sequential P) {f : α → m β} {as : List α}
    (h : ∀ a ∈ as, P β (f a)) : P (List β) (as.mapM f) := by
  induction as with
  | nil => exact hP.pure []
  | cons a as ih =>
    rw [List.mapM_cons]
    refine hP.bind (h a List.mem_cons_self) fun b => ?_
    refine hP.bind (ih fun x hx => h x (List.mem_cons_of_mem a hx)) fun bs => ?_
    exact hP.pure (b :: bs)

end Sequential

/-- All failures of a result are of one sort. -/
def FailsOnly {ε : Type} (sort : ε → Prop) (α : Type) (result : Except ε α) : Prop :=
  ∀ e, result = .error e → sort e

namespace FailsOnly

variable {ε α β : Type} {sort : ε → Prop} {result : Except ε α}

theorem ok (a : α) : FailsOnly sort α (.ok a) := fun _ he => nomatch he

theorem bind {next : α → Except ε β} (h : FailsOnly sort α result)
    (hnext : ∀ a, result = .ok a → FailsOnly sort β (next a)) :
    FailsOnly sort β (result >>= next) := by
  intro e he
  cases result with
  | error e' =>
    obtain rfl := Except.error.inj he
    exact h e' rfl
  | ok a => exact hnext a rfl e he

theorem map (f : α → β) (h : FailsOnly sort α result) : FailsOnly sort β (result.map f) :=
  h.bind fun a _ => ok (f a)

theorem sequential : Sequential (FailsOnly sort) where
  pure a := ok a
  bind h hnext := h.bind fun a _ => hnext a

end FailsOnly

/-- Where something comes of one step after another, something comes of each. -/
theorem exists_of_bind_eq_ok {ε α β : Type} {result : Except ε α} {next : α → Except ε β} {b : β}
    (h : result >>= next = .ok b) : ∃ a, result = .ok a ∧ next a = .ok b := by
  cases result with
  | error e => contradiction
  | ok a => exact ⟨a, rfl, h⟩

theorem exists_of_map_eq_ok {ε α β : Type} {result : Except ε α} {f : α → β} {b : β}
    (h : result.map f = .ok b) : ∃ a, result = .ok a ∧ f a = b := by
  cases result with
  | error e => contradiction
  | ok a => exact ⟨a, rfl, Except.ok.inj h⟩

end DataSchema
