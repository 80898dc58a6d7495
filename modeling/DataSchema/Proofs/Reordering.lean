import DataSchema.Proofs.Correspondence
import DataSchema.Proofs.Engine
import Mathlib.Data.List.Find
import Mathlib.Data.List.Pairwise

/-!
Parts in another order. Which of many failing parts is come to first depends on their order, and so
do failures that are no answers; but answers do not. Two tests concur if they never give different
answers, and checks of engines that hand on related parts concur, in whatever order these stand.
-/

namespace DataSchema

/-- Whether the entries of a mapping stay where they are. -/
inductive Arrangement where
  | kept
  | free

namespace Arrangement

def Allows {α : Type} : Arrangement → List α → List α → Prop
  | kept, xs, ys => xs = ys
  | free, xs, ys => xs.Perm ys

variable {α β : Type} {order : Arrangement} {xs ys : List α}

theorem allows_refl (order : Arrangement) (xs : List α) : order.Allows xs xs := by
  cases order with
  | kept => exact Eq.refl xs
  | free => exact List.Perm.refl xs

theorem Allows.perm (h : order.Allows xs ys) : xs.Perm ys := by
  cases order with
  | kept => exact (show xs = ys from h) ▸ List.Perm.refl xs
  | free => exact h

theorem Allows.map (h : order.Allows xs ys) (f : α → β) :
    order.Allows (xs.map f) (ys.map f) := by
  cases order with
  | kept => exact congrArg (List.map f) h
  | free => exact List.Perm.map f h

end Arrangement

/-- Lists that correspond part by part, once the second is put into an order that is allowed. -/
def Arranged {α β : Type} (order : Arrangement) (R : α → β → Prop) (xs : List α) (ys : List β) :
    Prop :=
  ∃ middle, List.Forall₂ R xs middle ∧ order.Allows middle ys

namespace Arranged

variable {α β γ δ : Type} {order : Arrangement} {R : α → β → Prop} {xs : List α} {ys : List β}

theorem of_forall₂ (order : Arrangement) (h : List.Forall₂ R xs ys) : Arranged order R xs ys :=
  ⟨ys, h, order.allows_refl ys⟩

theorem forall₂ (h : Arranged .kept R xs ys) : List.Forall₂ R xs ys := by
  obtain ⟨middle, hall, rfl⟩ := h
  exact hall

theorem map (h : Arranged order R xs ys) {S : γ → δ → Prop} {f : α → γ} {g : β → δ}
    (hfg : ∀ x y, R x y → S (f x) (g y)) : Arranged order S (xs.map f) (ys.map g) := by
  obtain ⟨middle, hall, hallows⟩ := h
  refine ⟨middle.map g, ?_, hallows.map g⟩
  rw [List.forall₂_map_left_iff, List.forall₂_map_right_iff]
  exact hall.imp hfg

theorem exists_right (h : Arranged order R xs ys) {x : α} (hx : x ∈ xs) : ∃ y ∈ ys, R x y := by
  obtain ⟨middle, hall, hallows⟩ := h
  obtain ⟨y, hy, hxy⟩ := exists_of_mem_left hall hx
  exact ⟨y, hallows.perm.mem_iff.mp hy, hxy⟩

theorem exists_left (h : Arranged order R xs ys) {y : β} (hy : y ∈ ys) : ∃ x ∈ xs, R x y := by
  obtain ⟨middle, hall, hallows⟩ := h
  exact exists_of_mem_left hall.flip (hallows.perm.mem_iff.mpr hy)

end Arranged

/-- What has a mark that nothing else has is found in whatever order one looks. -/
theorem find?_eq_of_perm {α β : Type} {mark : α → Option β} {xs ys : List α} (h : xs.Perm ys)
    (honce : (xs.filterMap mark).Nodup) {p : α → Bool} {b : β}
    (hp : ∀ x, p x = true → mark x = some b) : xs.find? p = ys.find? p := by
  have hpairs : xs.Pairwise fun x y => ¬(p x = true ∧ p y = true) :=
    (List.pairwise_filterMap.mp honce).imp fun hne hboth =>
      hne b (hp _ hboth.1) b (hp _ hboth.2) rfl
  have hsymm : Std.Symm fun x y => ¬(p x = true ∧ p y = true) :=
    ⟨fun _ _ hnot hboth => hnot hboth.symm⟩
  refine List.find?_eq_find?_of_perm h ?_
  rintro x ⟨hx, hpx⟩ y ⟨hy, hpy⟩
  by_contra hne
  exact hpairs.forall hx hy hne ⟨hpx, hpy⟩

/-! ### Tests -/

namespace Test

/-- An answer that a test may give, whatever was written down before. -/
def Gives (t : Test) (ok : Bool) : Prop := ∃ before after, t before = .ok (ok, after)

/-- Two tests that never give different answers. -/
def Concurs (s t : Test) : Prop := ∀ ok ok', s.Gives ok → t.Gives ok' → ok = ok'

variable {s s' t t' : Test} {ok : Bool} {mode mode' : Recording} {ss ts : List Test}

theorem Concurs.symm (h : s.Concurs t) : t.Concurs s := fun _ _ ht hs => (h _ _ hs ht).symm

theorem not_gives_raise (e : Error) (ok : Bool) : ¬(raise e).Gives ok := by
  rintro ⟨_, _, h⟩
  contradiction

theorem concurs_raise (e : Error) (t : Test) : (raise e).Concurs t :=
  fun _ _ h => absurd h (not_gives_raise e _)

theorem eq_of_gives_demand {holds : Bool} {issue : Issue}
    (h : (demand mode holds issue).Gives ok) : ok = holds := by
  obtain ⟨_, _, h⟩ := h
  cases holds <;> exact (Prod.mk.inj (Except.ok.inj h)).1.symm

theorem concurs_demand (holds : Bool) (i j : Issue) :
    (demand mode holds i).Concurs (demand mode' holds j) :=
  fun _ _ hs ht => (eq_of_gives_demand hs).trans (eq_of_gives_demand ht).symm

theorem gives_andThen (h : (s.andThen t).Gives ok) :
    s.Gives true ∧ t.Gives ok ∨ s.Gives false ∧ ok = false := by
  obtain ⟨before, after, h⟩ := h
  rcases Outcome.andThen_eq_ok h with ⟨middle, hs, ht⟩ | ⟨hs, rfl⟩
  · exact .inl ⟨⟨_, _, hs⟩, _, _, ht⟩
  · exact .inr ⟨⟨_, _, hs⟩, rfl⟩

theorem Concurs.andThen (hs : s.Concurs s') (ht : t.Concurs t') :
    (s.andThen t).Concurs (s'.andThen t') := by
  intro ok ok' h h'
  rcases gives_andThen h with ⟨hone, htwo⟩ | ⟨hone, rfl⟩ <;>
    rcases gives_andThen h' with ⟨hone', htwo'⟩ | ⟨hone', rfl⟩
  · exact ht _ _ htwo htwo'
  · exact absurd (hs _ _ hone hone') (by decide)
  · exact absurd (hs _ _ hone hone') (by decide)
  · rfl

/-- A row of tests that gives an answer gives a yes if each does, and a no only if one does. -/
theorem gives_all (h : (all mode ts).Gives ok) :
    ok = true ∧ (∀ t ∈ ts, t.Gives true) ∨ ok = false ∧ ∃ t ∈ ts, t.Gives false := by
  induction ts generalizing ok with
  | nil =>
    obtain ⟨_, _, h⟩ := h
    exact .inl ⟨(Prod.mk.inj (Except.ok.inj h)).1.symm, by simp⟩
  | cons t ts ih =>
    obtain ⟨before, after, h⟩ := h
    rw [all_cons] at h
    rcases Outcome.also_eq_ok h with ⟨first, middle, second, ht, hts, rfl⟩ | ⟨ht, rfl, -⟩
    · cases first with
      | false => exact .inr ⟨rfl, t, List.mem_cons_self, _, _, ht⟩
      | true =>
        rcases ih ⟨_, _, hts⟩ with ⟨rfl, hall⟩ | ⟨rfl, u, hu, hno⟩
        · exact .inl ⟨rfl, List.forall_mem_cons.mpr ⟨⟨_, _, ht⟩, hall⟩⟩
        · exact .inr ⟨rfl, u, List.mem_cons_of_mem t hu, hno⟩
    · exact .inr ⟨rfl, t, List.mem_cons_self, _, _, ht⟩

/-- What rows of tests have to agree on is whether some test says no, wherever it stands. -/
theorem concurs_all (h : ∀ s ∈ ss, ∃ t ∈ ts, s.Concurs t) (h' : ∀ t ∈ ts, ∃ s ∈ ss, s.Concurs t) :
    (all mode ss).Concurs (all mode' ts) := by
  intro ok ok' hs ht
  rcases gives_all hs with ⟨rfl, hyes⟩ | ⟨rfl, s, hmem, hno⟩ <;>
    rcases gives_all ht with ⟨rfl, hyes'⟩ | ⟨rfl, t, hmem', hno'⟩
  · rfl
  · obtain ⟨s, hs, hst⟩ := h' t hmem'
    exact hst _ _ (hyes s hs) hno'
  · obtain ⟨t, ht, hst⟩ := h s hmem
    exact hst _ _ hno (hyes' t ht)
  · rfl

/-- Of alternatives that give an answer one says yes, or all say no. -/
theorem gives_oneOf {issue : Issue} (h : (ts.foldr orElse (fail mode issue)).Gives ok) :
    ok = true ∧ (∃ t ∈ ts, t.Gives true) ∨ ok = false ∧ ∀ t ∈ ts, t.Gives false := by
  induction ts generalizing ok with
  | nil =>
    obtain ⟨_, _, h⟩ := h
    exact .inr ⟨(Prod.mk.inj (Except.ok.inj h)).1.symm, by simp⟩
  | cons t ts ih =>
    obtain ⟨before, after, h⟩ := h
    rcases Outcome.orElse_eq_ok h with ⟨ht, rfl⟩ | ⟨middle, ht, hts⟩
    · exact .inl ⟨rfl, t, List.mem_cons_self, _, _, ht⟩
    · rcases ih ⟨_, _, hts⟩ with ⟨rfl, u, hu, hyes⟩ | ⟨rfl, hall⟩
      · exact .inl ⟨rfl, u, List.mem_cons_of_mem t hu, hyes⟩
      · exact .inr ⟨rfl, List.forall_mem_cons.mpr ⟨⟨_, _, ht⟩, hall⟩⟩

theorem concurs_oneOf {i j : Issue} (h : ∀ s ∈ ss, ∃ t ∈ ts, s.Concurs t)
    (h' : ∀ t ∈ ts, ∃ s ∈ ss, s.Concurs t) :
    (ss.foldr orElse (fail mode i)).Concurs (ts.foldr orElse (fail mode' j)) := by
  intro ok ok' hs ht
  rcases gives_oneOf hs with ⟨rfl, s, hmem, hyes⟩ | ⟨rfl, hno⟩ <;>
    rcases gives_oneOf ht with ⟨rfl, t, hmem', hyes'⟩ | ⟨rfl, hno'⟩
  · rfl
  · obtain ⟨t, ht, hst⟩ := h s hmem
    exact hst _ _ hyes (hno' t ht)
  · obtain ⟨s, hs, hst⟩ := h' t hmem'
    exact hst _ _ (hno s hs) hyes'
  · rfl

end Test

/-! ### Plans and engines -/

variable {D V D' V' : Type} {X : Error → Error → Prop} {M : Reason → Reason → Prop}
  {R : D → V → D' → V' → Prop} {order : Arrangement}

/-- Two plans that do the same with related parts, once these are put into an order that is
allowed. -/
inductive Plan.Similar (order : Arrangement) (X : Error → Error → Prop)
    (M : Reason → Reason → Prop) (R : D → V → D' → V' → Prop) (v : V) (v' : V') :
    Plan D V → Plan D' V' → Prop where
  | rel {plan : Plan D V} {plan' : Plan D' V'} (h : Plan.Rel X M R v v' plan plan') :
    Similar order X M R v v' plan plan'
  | every {items : List (Item D V)} {items' : List (Item D' V')}
    (h : Arranged order (Item.Rel X M R) items items') :
    Similar order X M R v v' (.every items) (.every items')

theorem Plan.Similar.related {v : V} {v' : V'} {plan : Plan D V} {plan' : Plan D' V'}
    (h : Plan.Similar .kept X M R v v' plan plan') : Plan.Rel X M R v v' plan plan' := by
  cases h with
  | rel h => exact h
  | every h => exact .every h.forall₂

section Run

variable {further : Further D V} {further' : Further D' V'}
  (hpart : ∀ mode mode' d v d' v' q q', R d v d' v' →
    (further mode d v q).Concurs (further' mode' d' v' q'))
  (mode mode' : Recording) (kind kind' : Kind) (path path' : Path)
include hpart

theorem Item.run_concurs {item : Item D V} {item' : Item D' V'} (h : Item.Rel X M R item item') :
    (item.run further mode kind path).Concurs (item'.run further' mode' kind' path') := by
  cases h with
  | part step hd => exact hpart _ _ _ _ _ _ _ _ hd
  | blemish => exact Test.concurs_demand false _ _
  | @stuck e => exact Test.concurs_raise e _

/-- Similar plans concur if their parts do. -/
theorem Plan.run_concurs {v : V} {v' : V'} {plan : Plan D V} {plan' : Plan D' V'}
    (h : Plan.Similar order X M R v v' plan plan') :
    (plan.run further mode kind v path).Concurs (plan'.run further' mode' kind' v' path') := by
  have hevery {items : List (Item D V)} {items' : List (Item D' V')}
      (hitems : Arranged order (Item.Rel X M R) items items') :
      ((Plan.every items).run further mode kind v path).Concurs
        ((Plan.every items').run further' mode' kind' v' path') := by
    have hruns := hitems.map fun _ _ hitem =>
      Item.run_concurs hpart mode mode' kind kind' path path' hitem
    exact Test.concurs_all (fun _ => hruns.exists_right) fun _ => hruns.exists_left
  cases h with
  | every hitems => exact hevery hitems
  | rel h =>
    cases h with
    | answer holds below => exact Test.concurs_demand holds _ _
    | @stuck e => exact Test.concurs_raise e _
    | every hitems => exact hevery (.of_forall₂ order hitems)
    | oneOf hds =>
      have hruns := (Arranged.of_forall₂ .kept hds).map fun _ _ hd =>
        hpart .silent .silent _ _ _ _ path path' hd
      exact Test.concurs_oneOf (fun _ => hruns.exists_right) fun _ => hruns.exists_left

end Run

namespace Engine

/-- What one engine says of a descriptor and a value is similar to what another says of those that
they are related to. -/
structure Resembles (E : Engine D V) (E' : Engine D' V') (order : Arrangement)
    (X : Error → Error → Prop) (M : Reason → Reason → Prop) (R : D → V → D' → V' → Prop) :
    Prop where
  kind {d : D} {v : V} {d' : D'} {v' : V'} (h : R d v d' v') : E.kind d = E'.kind d'
  derived? {d : D} {v : V} {d' : D'} {v' : V'} (h : R d v d' v') :
    Option.Rel (fun s s' => R s v s' v') (E.derived? d) (E'.derived? d')
  plan {d : D} {v : V} {d' : D'} {v' : V'} (h : R d v d' v') :
    Plan.Similar order X M R v v' (E.plan d v) (E'.plan d' v')

variable {E : Engine D V} {E' : Engine D' V'}

theorem Resembles.mirrors (h : E.Resembles E' .kept X M R) : E.Mirrors E' X M R where
  kind := h.kind
  derived? := h.derived?
  plan := fun hd => (h.plan hd).related

/-- Checks of engines that resemble each other concur, with whatever levels either has. -/
theorem check_concurs (hE : E.Resembles E' order X M R) (limit limit' : Limit)
    (levels levels' : Nat) (mode mode' : Recording) {d : D} {v : V} {d' : D'} {v' : V'}
    (h : R d v d' v') (path path' : Path) :
    (E.check limit levels mode d v path).Concurs (E'.check limit' levels' mode' d' v' path') := by
  induction levels generalizing levels' mode mode' d v d' v' path path' with
  | zero => exact Test.concurs_raise _ _
  | succ levels ih =>
    cases levels' with
    | zero => exact (Test.concurs_raise _ _).symm
    | succ levels' =>
      have hpart : ∀ mode mode' e w e' w' q q', R e w e' w' →
          (E.check limit levels mode e w q).Concurs (E'.check limit' levels' mode' e' w' q') :=
        fun mode mode' _ _ _ _ q q' he => ih levels' mode mode' he q q'
      have hrule := Plan.run_concurs hpart mode mode' (E.kind d) (E'.kind d') path path' (hE.plan h)
      have hderived := hE.derived? h
      generalize hs : E.derived? d = shape, hs' : E'.derived? d' = shape' at hderived
      cases hderived with
      | none =>
        rw [E.check_of_none _ _ _ _ _ hs, E'.check_of_none _ _ _ _ _ hs']
        exact hrule
      | some hshape =>
        rw [E.check_of_some _ _ _ _ _ hs, E'.check_of_some _ _ _ _ _ hs']
        exact (hpart mode mode' _ _ _ _ path path' hshape).andThen hrule

end Engine

end DataSchema
