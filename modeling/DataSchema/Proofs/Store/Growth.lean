import DataSchema.Proofs.Store.Sketch

/-!
Stores that grow. Objects stay what they are when others are put next to them, and what an operation
makes of them can be told from what is shown of them.
-/

namespace DataSchema

namespace Store

variable {store : Store}

theorem cell_ne_of_kind? {x : Ref} (hx : (store.kind? x).isSome = true) :
    store.cell x ≠ .plain .null := by
  intro hnull
  simp [kind?, face, hnull, Cell.face, Value.descriptorKind?] at hx

/-- A store that has the objects of another as they were. -/
structure Precedes (store store' : Store) : Prop where
  size : store.cells.size ≤ store'.cells.size
  cell {x : Ref} (h : x < store.cells.size) : store'.cell x = store.cell x

namespace Precedes

variable {store' store'' : Store}

theorem refl (store : Store) : store.Precedes store := ⟨Nat.le_refl _, fun _ => rfl⟩

theorem trans (h : store.Precedes store') (h' : store'.Precedes store'') :
    store.Precedes store'' where
  size := Nat.le_trans h.size h'.size
  cell hx := (h'.cell (Nat.lt_of_lt_of_le hx h.size)).trans (h.cell hx)

theorem add (store : Store) (cell : Cell) : store.Precedes (store.add cell).2 where
  size := Nat.le_of_lt (size_lt_add cell)
  cell hx := by rw [cell_add, if_neg (Nat.ne_of_lt hx)]

/-- What is not the absent value stays what it is. -/
theorem cell_of_ne (h : store.Precedes store') {x : Ref} (hx : store.cell x ≠ .plain .null) :
    store'.cell x = store.cell x := h.cell (lt_size_of_cell hx)

theorem string (h : store.Precedes store') {x : Ref} {s : String}
    (hx : store.cell x = .plain (.string s)) : store'.cell x = .plain (.string s) := by
  rw [h.cell_of_ne (by simp [hx]), hx]

theorem kind? (h : store.Precedes store') {x : Ref} (hx : (store.kind? x).isSome = true) :
    (store'.kind? x).isSome = true := by
  rwa [Store.kind?, face, h.cell_of_ne (cell_ne_of_kind? hx)]

theorem resembles (h : store.Precedes store') {x : Ref} {v : Value}
    (hx : store.Resembles x v) : store'.Resembles x v where
  text hv := h.string (hx.text hv)
  descriptor hv := h.kind? (hx.descriptor hv)

theorem partResembles (h : store.Precedes store') {part : Part} {v : Value}
    (hpart : part.Resembles store v) : part.Resembles store' v := by
  cases part with
  | held x => exact h.resembles hpart
  | loose u => exact hpart

theorem follows (h : store.Precedes store') {entry : Ref × Ref} {shown : Value × Value}
    (hentry : store.Follows entry shown) : store'.Follows entry shown :=
  ⟨h.resembles hentry.1, h.resembles hentry.2⟩

theorem entries? (h : store.Precedes store') {x : Ref} {entries : List (Ref × Ref)}
    (hx : store.entries? x = some entries) : store'.entries? x = some entries := by
  have hcell : store'.cell x = store.cell x := by
    refine h.cell_of_ne fun hnull => ?_
    simp [Store.entries?, hnull] at hx
  rwa [Store.entries?, hcell]

theorem cell_of_parts? (h : store.Precedes store') {x : Ref} {parts : List Part}
    (hx : store.parts? x = some parts) : store'.cell x = store.cell x := by
  refine h.cell_of_ne fun hnull => ?_
  simp [Store.parts?, hnull, Value.parts?] at hx

theorem pair? (h : store.Precedes store') {part p q : Part}
    (hpart : store.pair? part = .ok (p, q)) : store'.pair? part = .ok (p, q) := by
  cases part with
  | loose v => exact hpart
  | held x =>
    cases hparts : store.parts? x with
    | none =>
      simp only [Store.pair?, partsOf?, hparts] at hpart
      contradiction
    | some parts => rwa [Store.pair?, partsOf?, Store.parts?, h.cell_of_parts? hparts]

theorem offers (h : store.Precedes store') {r : Ref} {shown : List (Value × Value)}
    (hr : store.Offers r shown) : store'.Offers r shown := by
  cases hr with
  | entries hentries hshown =>
    exact .entries (h.entries? hentries) (hshown.imp fun _ _ => h.follows)
  | @parts parts hnone hparts hshown =>
    have hcell := h.cell_of_parts? hparts
    refine .parts (by rwa [Store.entries?, hcell]) (by rwa [Store.parts?, hcell]) ?_
    refine hshown.imp fun part entry => ?_
    rintro ⟨p, q, hpair, hp, hq⟩
    exact ⟨p, q, h.pair? hpair, h.partResembles hp, h.partResembles hq⟩

end Precedes

end Store

namespace Build

variable {α β : Type} {store : Store}

/-- If the operation succeeds, what it returns is so in the store that it leaves. -/
def Ensures (action : Build α) (store : Store) (Post : α → Store → Prop) : Prop :=
  ∀ a store', action.run store = .ok (a, store') → Post a store'

theorem Ensures.bind {action : Build α} {next : α → Build β} {Mid : α → Store → Prop}
    {Post : β → Store → Prop} (h : action.Ensures store Mid)
    (hnext : ∀ a store', Mid a store' → (next a).Ensures store' Post) :
    (action >>= next).Ensures store Post := by
  intro b store'' hrun
  rw [StateT.run_bind] at hrun
  obtain ⟨⟨a, store'⟩, hfirst, hrest⟩ := exists_of_bind_eq_ok hrun
  exact hnext a store' (h a store' hfirst) b store'' hrest

theorem Ensures.mono {action : Build α} {Post Post' : α → Store → Prop}
    (h : action.Ensures store Post) (hpost : ∀ a store', Post a store' → Post' a store') :
    action.Ensures store Post' := fun a store' hrun => hpost a store' (h a store' hrun)

theorem ensures_pure {a : α} {Post : α → Store → Prop} (h : Post a store) :
    (pure a : Build α).Ensures store Post := by
  intro b store' hrun
  obtain ⟨rfl, rfl⟩ := Prod.mk.inj (Except.ok.inj hrun)
  exact h

theorem ensures_get {next : Store → Build α} {Post : α → Store → Prop}
    (h : (next store).Ensures store Post) : (get >>= next).Ensures store Post := h

theorem ensures_throw {e : Error} {Post : α → Store → Prop} :
    (throw e : Build α).Ensures store Post := fun _ _ hrun => by contradiction

theorem ofExcept_ensures (r : Except Error α) :
    (ofExcept r : Build α).Ensures store fun a store' => store' = store ∧ r = .ok a := by
  cases r with
  | ok a => exact ensures_pure ⟨rfl, rfl⟩
  | error e => exact ensures_throw

theorem ofExcept_bind_ensures {r : Except Error α} {a : α} {next : α → Build β}
    {Post : β → Store → Prop} (hr : r = .ok a) (h : (next a).Ensures store Post) :
    (ofExcept r >>= next).Ensures store Post := by
  rw [hr]
  exact h

/-- What an operation keeps holds of the store that it leaves. -/
theorem Keeps.ensures {action : Build α} (h : Keeps action) (hproper : store.Proper) :
    action.Ensures store fun _ store' => store'.Proper :=
  fun a store' hrun => h store hproper (a, store') hrun

theorem add_ensures {cell : Cell} {Post : Ref → Store → Prop}
    (h : Post store.cells.size (store.add cell).2) : (add cell).Ensures store Post := by
  intro r store' hrun
  obtain ⟨rfl, rfl⟩ := Prod.mk.inj (Except.ok.inj hrun)
  exact h

/-- A relation that still holds when the store has grown. -/
def Lasting {α β : Type} (R : Store → α → β → Prop) : Prop :=
  ∀ store store' : Store, store.Precedes store' → ∀ a b, R store a b → R store' a b

theorem lasting_follows : Lasting Store.Follows := fun _ _ hgrown _ _ h => hgrown.follows h

theorem lasting_opens (store : Store) : Lasting store.Opens := by
  rintro store' store'' hgrown part shown ⟨p, q, hpair, hp, hq⟩
  exact ⟨p, q, hpair, hgrown.partResembles hp, hgrown.partResembles hq⟩

/-- What is made of one element after the other stays what it is. -/
theorem mapM_ensures {α β γ : Type} {R : Store → α → γ → Prop} {S : Store → β → γ → Prop}
    {f : α → Build β} (hR : Lasting R) (hS : Lasting S)
    (hf : ∀ store a c, R store a c →
      (f a).Ensures store fun b store' => store.Precedes store' ∧ S store' b c)
    {as : List α} {cs : List γ} (h : List.Forall₂ (R store) as cs) :
    (as.mapM f).Ensures store fun bs store' =>
      store.Precedes store' ∧ List.Forall₂ (S store') bs cs := by
  induction as generalizing store cs with
  | nil =>
    cases h
    exact ensures_pure ⟨.refl store, .nil⟩
  | cons a as ih =>
    cases h with
    | cons hac h =>
      rw [List.mapM_cons]
      refine (hf store _ _ hac).bind ?_
      rintro b store' ⟨hgrown, hb⟩
      refine (ih (h.imp (hR store store' hgrown))).bind ?_
      rintro bs store'' ⟨hgrown', hbs⟩
      exact ensures_pure ⟨hgrown.trans hgrown', .cons (hS store' store'' hgrown' b _ hb) hbs⟩

end Build

end DataSchema
