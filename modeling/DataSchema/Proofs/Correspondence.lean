import DataSchema.Error
import DataSchema.Proofs.Sequence
import Mathlib.Data.List.Forall2

/-!
Lists that correspond to each other, element by element.
-/

namespace DataSchema

theorem forall₂_with {α β : Type} {R : α → β → Prop} {P : α → Prop} {Q : β → Prop} {as : List α}
    {bs : List β} (h : List.Forall₂ R as bs) (ha : ∀ a ∈ as, P a) (hb : ∀ b ∈ bs, Q b) :
    List.Forall₂ (fun a b => P a ∧ Q b ∧ R a b) as bs := by
  induction h with
  | nil => exact .nil
  | @cons a b _ _ hab _ ih =>
    obtain ⟨ha, has⟩ := List.forall_mem_cons.mp ha
    obtain ⟨hb, hbs⟩ := List.forall_mem_cons.mp hb
    exact .cons ⟨ha, hb, hab⟩ (ih has hbs)

theorem forall₂_trans {α β γ : Type} {R : α → β → Prop} {S : β → γ → Prop} {as : List α}
    {bs : List β} {cs : List γ} (h : List.Forall₂ R as bs) (h' : List.Forall₂ S bs cs) :
    List.Forall₂ (fun a c => ∃ b, R a b ∧ S b c) as cs := by
  induction h generalizing cs with
  | nil =>
    cases h'
    exact .nil
  | cons hab _ ih =>
    cases h' with
    | cons hbc hrest => exact .cons ⟨_, hab, hbc⟩ (ih hrest)

theorem exists_forall₂ {α β γ : Type} {R : α → β → Prop} {S : β → γ → Prop} {T : α → γ → Prop}
    {as : List α} {bs : List β} (h : List.Forall₂ R as bs)
    (hex : ∀ a b, R a b → ∃ c, S b c ∧ T a c) :
    ∃ cs, List.Forall₂ S bs cs ∧ List.Forall₂ T as cs := by
  induction h with
  | nil => exact ⟨[], .nil, .nil⟩
  | cons hab _ ih =>
    obtain ⟨c, hbc, hac⟩ := hex _ _ hab
    obtain ⟨cs, hbs, has⟩ := ih
    exact ⟨c :: cs, .cons hbc hbs, .cons hac has⟩

theorem exists_forall₂_of_mem {α β : Type} {R : α → β → Prop} {as : List α}
    (h : ∀ a ∈ as, ∃ b, R a b) : ∃ bs, List.Forall₂ R as bs := by
  induction as with
  | nil => exact ⟨[], .nil⟩
  | cons a as ih =>
    obtain ⟨⟨b, hab⟩, has⟩ := List.forall_mem_cons.mp h
    obtain ⟨bs, hbs⟩ := ih has
    exact ⟨b :: bs, .cons hab hbs⟩

theorem exists_of_mem_left {α β : Type} {R : α → β → Prop} {as : List α} {bs : List β}
    (h : List.Forall₂ R as bs) {a : α} (ha : a ∈ as) : ∃ b ∈ bs, R a b := by
  induction h with
  | nil => simp at ha
  | @cons x b _ _ hxb _ ih =>
    rcases List.mem_cons.mp ha with rfl | ha
    · exact ⟨b, List.mem_cons_self, hxb⟩
    · obtain ⟨y, hy, hay⟩ := ih ha
      exact ⟨y, List.mem_cons_of_mem b hy, hay⟩

theorem forall_mem_of_forall₂ {α β : Type} {R : α → β → Prop} {Q : β → Prop} {as : List α}
    {bs : List β} (h : List.Forall₂ R as bs) (hQ : ∀ a b, R a b → Q b) : ∀ b ∈ bs, Q b := by
  intro b hb
  obtain ⟨a, -, hab⟩ := exists_of_mem_left h.flip hb
  exact hQ a b hab

theorem pairwise_of_forall₂ {α β : Type} {R : α → β → Prop} {S : α → α → Prop} {T : β → β → Prop}
    {as : List α} {bs : List β} (h : List.Forall₂ R as bs) (has : as.Pairwise S)
    (hST : ∀ a a' b b', S a a' → R a b → R a' b' → T b b') : bs.Pairwise T := by
  induction h with
  | nil => exact .nil
  | cons hab hrest ih =>
    obtain ⟨hfirst, hlater⟩ := List.pairwise_cons.mp has
    refine List.pairwise_cons.mpr ⟨fun b' hb' => ?_, ih hlater⟩
    obtain ⟨a', ha', hab'⟩ := exists_of_mem_left hrest.flip hb'
    exact hST _ _ _ _ (hfirst a' ha') hab hab'

theorem map_eq_of_forall₂ {α β γ : Type} {R : α → β → Prop} {f : α → γ} {g : β → γ} {as : List α}
    {bs : List β} (h : List.Forall₂ R as bs) (hfg : ∀ a b, R a b → f a = g b) :
    as.map f = bs.map g := by
  induction h with
  | nil => rfl
  | cons hab _ ih => rw [List.map_cons, List.map_cons, hfg _ _ hab, ih]

theorem forall₂_mapIdx {α β γ δ : Type} {R : α → β → Prop} {S : γ → δ → Prop} {f : Nat → α → γ}
    {g : Nat → β → δ} {as : List α} {bs : List β} (h : List.Forall₂ R as bs)
    (hfg : ∀ i a b, R a b → S (f i a) (g i b)) :
    List.Forall₂ S (as.mapIdx f) (bs.mapIdx g) := by
  induction h generalizing f g with
  | nil => exact .nil
  | cons hab _ ih =>
    rw [List.mapIdx_cons, List.mapIdx_cons]
    exact .cons (hfg 0 _ _ hab) (ih fun i => hfg (i + 1))

/-- Lists of pairs correspond just if the first parts are the same and the second ones
correspond. -/
theorem forall₂_pairs_iff {α β γ : Type} {R : β → γ → Prop} {as : List (α × β)}
    {bs : List (α × γ)} : List.Forall₂ (fun a b => a.1 = b.1 ∧ R a.2 b.2) as bs ↔
      as.map (·.1) = bs.map (·.1) ∧ List.Forall₂ R (as.map (·.2)) (bs.map (·.2)) := by
  induction as generalizing bs with
  | nil => cases bs <;> simp
  | cons a as ih =>
    cases bs with
    | nil => simp
    | cons b bs => simp [ih, and_assoc, and_left_comm]

theorem mapIdx_eq_of_forall₂ {α β γ : Type} {R : α → β → Prop} {f : Nat → α → γ}
    {g : Nat → β → γ} {as : List α} {bs : List β} (h : List.Forall₂ R as bs)
    (hfg : ∀ i a b, R a b → f i a = g i b) : as.mapIdx f = bs.mapIdx g :=
  List.forall₂_eq_eq_eq ▸ forall₂_mapIdx h hfg

/-- Where something is made of all parts, it is made of each. -/
theorem forall₂_of_mapM {ε α β : Type} {f : α → Except ε β} {as : List α} {bs : List β}
    (h : as.mapM f = .ok bs) : List.Forall₂ (fun a b => f a = .ok b) as bs := by
  induction as generalizing bs with
  | nil =>
    obtain rfl := Except.ok.inj h
    exact .nil
  | cons a as ih =>
    rw [List.mapM_cons] at h
    obtain ⟨b, ha, h⟩ := exists_of_bind_eq_ok h
    obtain ⟨rest, has, h⟩ := exists_of_bind_eq_ok h
    obtain rfl := Except.ok.inj h
    exact .cons ha (ih has)

theorem mapM_of_forall₂ {ε α β : Type} {f : α → Except ε β} {as : List α} {bs : List β}
    (h : List.Forall₂ (fun a b => f a = .ok b) as bs) : as.mapM f = .ok bs := by
  induction h with
  | nil => rfl
  | cons hab _ ih =>
    rw [List.mapM_cons, hab, ih]
    rfl

theorem isEmpty_of_mapM {ε α β : Type} {f : α → Except ε β} {as : List α} {bs : List β}
    (h : as.mapM f = .ok bs) : bs.isEmpty = as.isEmpty := by
  cases forall₂_of_mapM h <;> rfl

/-- Two ways to make parts make the same of all of them, unless one fails for a part. -/
theorem mapM_eq_or_error {ε α β : Type} {e : ε} {P : α → Prop} {f g : α → Except ε β} {as : List α}
    (h : ∀ a ∈ as, f a = g a ∨ f a = .error e ∧ P a) :
    as.mapM f = as.mapM g ∨ as.mapM f = .error e ∧ ∃ a ∈ as, P a := by
  induction as with
  | nil => exact .inl rfl
  | cons a as ih =>
    obtain ⟨ha, has⟩ := List.forall_mem_cons.mp h
    rw [List.mapM_cons, List.mapM_cons]
    rcases ha with ha | ⟨ha, hP⟩
    · rw [ha]
      cases hone : g a with
      | error e' => exact .inl rfl
      | ok b =>
        rcases ih has with hrest | ⟨hrest, x, hx, hP⟩
        · rw [hrest]
          exact .inl rfl
        · rw [hrest]
          exact .inr ⟨rfl, x, List.mem_cons_of_mem a hx, hP⟩
    · rw [ha]
      exact .inr ⟨rfl, a, List.mem_cons_self, hP⟩

/-- What is made of parts that can be made or not, whatever part fails, fails in one way. -/
theorem mapM_eq_ite {α β γ : Type} {e : Error} {f : α → Except Error γ} {g : β → γ} {p : β → Prop}
    [DecidablePred p] {as : List α} {bs : List β}
    (h : List.Forall₂ (fun a b => f a = if p b then .ok (g b) else .error e) as bs) :
    as.mapM f = if ∀ b ∈ bs, p b then .ok (bs.map g) else .error e := by
  induction h with
  | nil => rfl
  | @cons a b as bs hab _ ih =>
    rw [List.mapM_cons, hab, ih]
    by_cases hb : p b
    · by_cases hbs : ∀ b ∈ bs, p b
      · rw [if_pos hb, if_pos hbs, if_pos (List.forall_mem_cons.mpr ⟨hb, hbs⟩)]
        rfl
      · rw [if_pos hb, if_neg hbs, if_neg fun hall => hbs (List.forall_mem_cons.mp hall).2]
        rfl
    · rw [if_neg hb, if_neg fun hall => hb (List.forall_mem_cons.mp hall).1]
      rfl

end DataSchema
