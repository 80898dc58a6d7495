import DataSchema.Store.Tree
import Mathlib.Algebra.BigOperators.Fin

/-!
The tree of an object is assembled from the trees of those it holds. The search finds an order in
which objects come after those they hold whenever there is one, so what is below a tree is a tree;
and what is known of an object does not depend on the order that it was found in.
-/

namespace DataSchema.Store

variable {store : Store}

/-- In a list from the last object to the first, all that an object holds was left before it. -/
def Ordered (store : Store) : List Ref → Prop
  | [] => True
  | r :: done =>
    (∀ c ∈ (store.cell r).refs, c < store.cells.size → c ∈ done) ∧ Ordered store done

namespace Ordered

theorem closed {done : List Ref} (h : store.Ordered done) {r c : Ref} (hr : r ∈ done)
    (hc : c ∈ (store.cell r).refs) (hlt : c < store.cells.size) : c ∈ done := by
  induction done with
  | nil => simp at hr
  | cons x done ih =>
    obtain ⟨hx, hdone⟩ := h
    rcases List.mem_cons.mp hr with rfl | hr
    · exact List.mem_cons_of_mem _ (hx c hc hlt)
    · exact List.mem_cons_of_mem _ (ih hdone hr)

/-- What an object holds has an earlier place in the order. -/
theorem idxOf_lt {done : List Ref} (h : store.Ordered done) {r c : Ref} (hr : r ∈ done)
    (hc : c ∈ (store.cell r).refs) (hlt : c < store.cells.size) :
    done.reverse.idxOf c < done.reverse.idxOf r := by
  induction done with
  | nil => simp at hr
  | cons x done ih =>
    obtain ⟨hx, hdone⟩ := h
    rw [List.reverse_cons]
    by_cases hmem : r ∈ done
    · have hcmem := hdone.closed hmem hc hlt
      rw [List.idxOf_append_of_mem (List.mem_reverse.mpr hcmem),
        List.idxOf_append_of_mem (List.mem_reverse.mpr hmem)]
      exact ih hdone hmem
    · obtain rfl : r = x := (List.mem_cons.mp hr).resolve_right hmem
      have hcmem := List.mem_reverse.mpr (hx c hc hlt)
      rw [List.idxOf_append_of_mem hcmem, List.idxOf_append_of_notMem (by simpa using hmem)]
      have hidx := List.idxOf_lt_length_of_mem hcmem
      omega

end Ordered

theorem cell_of_size_le {r : Ref} (h : store.cells.size ≤ r) : store.cell r = .plain .null := by
  simp [cell, h]

/-! ### What the search finds is an order -/

def Visit.ref : Visit → Ref
  | enter r | leave r => r

/-- Each object that is to be left holds only what was left or is to be visited before. -/
def Supported (store : Store) : List Ref → List Visit → Prop
  | _, [] => True
  | done, .enter r :: visits => Supported store (r :: done) visits
  | done, .leave r :: visits =>
    (∀ c ∈ (store.cell r).refs, c < store.cells.size → c ∈ done) ∧
      Supported store (r :: done) visits

theorem Supported.mono {done done' : List Ref} {visits : List Visit}
    (h : store.Supported done visits)
    (hsub : ∀ r ∈ done, r < store.cells.size → r ∈ done') : store.Supported done' visits := by
  induction visits generalizing done done' with
  | nil => trivial
  | cons visit visits ih =>
    have hcons : ∀ x, ∀ r ∈ x :: done, r < store.cells.size → r ∈ x :: done' := by
      intro x r hr hlt
      rcases List.mem_cons.mp hr with rfl | hr
      · exact List.mem_cons_self
      · exact List.mem_cons_of_mem _ (hsub r hr hlt)
    cases visit with
    | enter x => exact ih h (hcons x)
    | leave x => exact ⟨fun c hc hlt => hsub c (h.1 c hc hlt) hlt, ih h.2 (hcons x)⟩

theorem Supported.enter_all {refs done : List Ref} {visits : List Visit}
    (h : store.Supported (refs.reverse ++ done) visits) :
    store.Supported done (refs.map .enter ++ visits) := by
  induction refs generalizing done with
  | nil => exact h
  | cons c refs ih =>
    apply ih
    simpa using h

/-- What holds of the objects that were left, from the last to the first, and of the visits to
come. -/
structure Searching (store : Store) (left : Array Bool) (done : List Ref) (visits : List Visit) :
    Prop where
  size : left.size = store.cells.size
  isDone : ∀ r < store.cells.size, left.getD r true = true → r ∈ done
  ordered : store.Ordered done
  supported : store.Supported done visits

namespace Searching

variable {left : Array Bool} {done : List Ref} {visits : List Visit} {r : Ref}

theorem leave (h : store.Searching left done (.leave r :: visits)) :
    store.Searching (left.setIfInBounds r true) (r :: done) visits where
  size := by simpa using h.size
  isDone := by
    intro x hlt hx
    by_cases hxr : x = r
    · exact hxr ▸ List.mem_cons_self
    · refine List.mem_cons_of_mem _ (h.isDone x hlt ?_)
      simpa [Array.getElem?_setIfInBounds_ne (Ne.symm hxr)] using hx
  ordered := ⟨h.supported.1, h.ordered⟩
  supported := h.supported.2

theorem skip (h : store.Searching left done (.enter r :: visits))
    (hr : left.getD r true = true) : store.Searching left done visits where
  size := h.size
  isDone := h.isDone
  ordered := h.ordered
  supported := by
    have hsup : store.Supported (r :: done) visits := h.supported
    apply hsup.mono
    intro x hx hlt
    rcases List.mem_cons.mp hx with rfl | hx
    · exact h.isDone x hlt hr
    · exact hx

theorem enter (h : store.Searching left done (.enter r :: visits)) :
    store.Searching left done ((store.cell r).refs.map .enter ++ .leave r :: visits) where
  size := h.size
  isDone := h.isDone
  ordered := h.ordered
  supported := by
    have hsup : store.Supported (r :: done) visits := h.supported
    apply Supported.enter_all
    refine ⟨fun c hc _ => by simp [hc], hsup.mono ?_⟩
    intro x hx _
    simp only [List.mem_cons, List.mem_append] at hx ⊢
    rcases hx with hx | hx
    · exact .inl hx
    · exact .inr (.inr hx)

end Searching

/-- The search keeps the order, and all that is to be visited gets a place in it. -/
theorem orderFrom_ordered {steps : Nat} {entered left : Array Bool} {order result : Array Ref}
    {visits : List Visit} (hrun : store.orderFrom steps entered left order visits = some result)
    (h : store.Searching left order.toList.reverse visits) :
    store.Ordered result.toList.reverse ∧
      (∀ r ∈ order.toList.reverse, r ∈ result.toList.reverse) ∧
      ∀ visit ∈ visits, visit.ref < store.cells.size → visit.ref ∈ result.toList.reverse := by
  fun_induction orderFrom store steps entered left order visits with
  | case1 =>
    obtain rfl := Option.some.inj hrun
    exact ⟨h.ordered, fun _ hr => hr, by simp⟩
  | case2 | case5 => contradiction
  | case3 _ entered left order r visits ih =>
    have hpush : (order.push r).toList.reverse = r :: order.toList.reverse := by simp
    rw [hpush] at ih
    obtain ⟨hresult, hdone, hvisits⟩ := ih hrun h.leave
    refine ⟨hresult, fun x hx => hdone x (List.mem_cons_of_mem _ hx), ?_⟩
    intro visit hvisit hlt
    rcases List.mem_cons.mp hvisit with rfl | hvisit
    · exact hdone r List.mem_cons_self
    · exact hvisits visit hvisit hlt
  | case4 _ entered left order r visits hr ih =>
    obtain ⟨hresult, hdone, hvisits⟩ := ih hrun (h.skip hr)
    refine ⟨hresult, hdone, ?_⟩
    intro visit hvisit hlt
    rcases List.mem_cons.mp hvisit with rfl | hvisit
    · exact hdone r (h.isDone r hlt hr)
    · exact hvisits visit hvisit hlt
  | case6 _ entered left order r visits _ _ ih =>
    obtain ⟨hresult, hdone, hvisits⟩ := ih hrun h.enter
    refine ⟨hresult, hdone, ?_⟩
    intro visit hvisit hlt
    rcases List.mem_cons.mp hvisit with rfl | hvisit
    · exact hvisits (.leave r) (by simp) hlt
    · exact hvisits visit (by simp [hvisit]) hlt

/-- The order of the objects below one, if there is one: it ends with the object itself. -/
theorem order?_ordered {r : Ref} {order : Array Ref} (h : store.order? r = some order) :
    store.Ordered order.toList.reverse ∧ (r < store.cells.size → r ∈ order.toList.reverse) := by
  have hstart : store.Searching (Array.replicate store.cells.size false)
      (#[] : Array Ref).toList.reverse [.enter r] :=
    { size := by simp
      isDone := by
        intro x hlt hx
        simp [hlt] at hx
      ordered := trivial
      supported := trivial }
  obtain ⟨hordered, -, hvisits⟩ := orderFrom_ordered h hstart
  exact ⟨hordered, hvisits (.enter r) (by simp)⟩

/-! ### What is known of an object does not depend on the order -/

section Sweep

variable {α : Type} {blank : α} {know : (Ref → α) → Cell → α}

/-- What is known of an object depends only on what is known of those it holds. -/
def Local (know : (Ref → α) → Cell → α) : Prop :=
  ∀ (f g : Ref → α) (cell : Cell), (∀ c ∈ cell.refs, f c = g c) → know f cell = know g cell

/-- What is known of each object after those in a list, from the last to the first. -/
def swept (store : Store) (blank : α) (know : (Ref → α) → Cell → α) : List Ref → Array α
  | [] => Array.replicate store.cells.size blank
  | r :: done =>
    let known := swept store blank know done
    known.setIfInBounds r (know (known.getD · blank) (store.cell r))

theorem sweep_eq_swept (order : Array Ref) :
    store.sweep blank know order = store.swept blank know order.toList.reverse := by
  have hfoldr : ∀ done : List Ref, store.swept blank know done =
      done.foldr (fun r known =>
        known.setIfInBounds r (know (known.getD · blank) (store.cell r)))
        (Array.replicate store.cells.size blank) := by
    intro done
    induction done with
    | nil => rfl
    | cons r done ih => rw [swept, List.foldr_cons, ih]
  rw [sweep, hfoldr, List.foldr_reverse, Array.foldl_toList]

theorem size_swept (done : List Ref) : (store.swept blank know done).size = store.cells.size := by
  induction done with
  | nil => simp [swept]
  | cons r done ih => simpa [swept] using ih

theorem getD_set_ne {known : Array α} {x c : Ref} (h : c ≠ x) (a : α) :
    (known.setIfInBounds x a).getD c blank = known.getD c blank := by
  simp [Array.getElem?_setIfInBounds_ne (Ne.symm h)]

theorem getD_set_self {known : Array α} {x : Ref} (h : x < known.size) (a : α) :
    (known.setIfInBounds x a).getD x blank = a := by
  simp [Array.getElem?_setIfInBounds_self_of_lt h]

theorem swept_of_size_le (done : List Ref) {r : Ref} (h : store.cells.size ≤ r) :
    (store.swept blank know done).getD r blank = blank := by
  have hsize : (store.swept blank know done).size = store.cells.size := size_swept done
  simp [hsize, h]

/-- What is known of an object follows from what is known of those it holds. -/
theorem swept_eq (hlocal : Local know) {done : List Ref} (h : store.Ordered done) {r : Ref}
    (hr : r ∈ done) (hlt : r < store.cells.size) :
    (store.swept blank know done).getD r blank =
      know ((store.swept blank know done).getD · blank) (store.cell r) := by
  induction done generalizing r with
  | nil => simp at hr
  | cons x done ih =>
    obtain ⟨hx, hdone⟩ := h
    have hsize : (store.swept blank know done).size = store.cells.size := size_swept done
    -- An object that comes again is known as before, and a new one is none of those before it.
    have hkeep : ∀ c, (c < store.cells.size → c ∈ done) →
        (store.swept blank know (x :: done)).getD c blank =
          (store.swept blank know done).getD c blank := by
      intro c hc
      by_cases hcx : c = x
      · subst hcx
        by_cases hclt : c < store.cells.size
        · have hin : c < (store.swept blank know done).size := by omega
          rw [swept, getD_set_self hin]
          exact (ih hdone (hc hclt) hclt).symm
        · rw [swept_of_size_le _ (by omega), swept_of_size_le _ (by omega)]
      · exact getD_set_ne hcx _
    have hrefs : know ((store.swept blank know (x :: done)).getD · blank) (store.cell r) =
        know ((store.swept blank know done).getD · blank) (store.cell r) := by
      apply hlocal
      intro c hc
      apply hkeep
      intro hclt
      rcases List.mem_cons.mp hr with rfl | hr
      · exact hx c hc hclt
      · exact hdone.closed hr hc hclt
    rw [hrefs]
    by_cases hmem : r ∈ done
    · rw [hkeep r fun _ => hmem]
      exact ih hdone hmem hlt
    · obtain rfl : r = x := (List.mem_cons.mp hr).resolve_right hmem
      have hin : r < (store.swept blank know done).size := hsize ▸ hlt
      exact getD_set_self hin _

/-- Two orders agree on the objects that are in both. -/
theorem swept_agree (hlocal : Local know) {done done' : List Ref} (h : store.Ordered done)
    (h' : store.Ordered done') {r : Ref} (hr : r < store.cells.size → r ∈ done)
    (hr' : r < store.cells.size → r ∈ done') :
    (store.swept blank know done).getD r blank = (store.swept blank know done').getD r blank := by
  have hmem : ∀ rest : List Ref, store.Ordered rest → (∀ x ∈ rest, x ∈ done) →
      ∀ x ∈ rest, x < store.cells.size → x ∈ done' →
        (store.swept blank know done).getD x blank =
          (store.swept blank know done').getD x blank := by
    intro rest hrest hsub
    induction rest with
    | nil => simp
    | cons y rest ih =>
      obtain ⟨hy, hordered⟩ := hrest
      have hbelow := ih hordered fun x hx => hsub x (List.mem_cons_of_mem y hx)
      intro x hx hlt hx'
      rcases List.mem_cons.mp hx with rfl | hx
      · rw [swept_eq hlocal h (hsub x List.mem_cons_self) hlt, swept_eq hlocal h' hx' hlt]
        apply hlocal
        intro c hc
        by_cases hclt : c < store.cells.size
        · exact hbelow c (hy c hc hclt) hclt (h'.closed hx' hc hclt)
        · have hle := Nat.le_of_not_lt hclt
          rw [swept_of_size_le _ hle, swept_of_size_le _ hle]
      · exact hbelow x hx hlt hx'
  by_cases hlt : r < store.cells.size
  · exact hmem done h (fun _ hx => hx) r (hr hlt) hlt (hr' hlt)
  · have hle := Nat.le_of_not_lt hlt
    rw [swept_of_size_le _ hle, swept_of_size_le _ hle]

end Sweep

/-! ### An order is found if there is one -/

/-- An object is left only after all that is visited before. -/
def Visit.Above (store : Store) (rank : Ref → Nat) (a b : Visit) : Prop :=
  ∀ r, b = .leave r → a.ref < store.cells.size → rank a.ref < rank r

/-- What holds of the visits to come where there is an order. -/
structure Sorted (store : Store) (done : List Ref) (entered left : Array Bool)
    (visits : List Visit) : Prop where
  entered_size : entered.size = store.cells.size
  left_size : left.size = store.cells.size
  within : ∀ visit ∈ visits, visit.ref < store.cells.size → visit.ref ∈ done
  returns : ∀ r < store.cells.size, entered.getD r true = true → ¬left.getD r true = true →
    .leave r ∈ visits
  above : visits.Pairwise (Visit.Above store done.reverse.idxOf)

namespace Sorted

variable {done : List Ref} {entered left : Array Bool} {visits : List Visit} {r : Ref}

theorem leave (h : store.Sorted done entered left (.leave r :: visits)) :
    store.Sorted done entered (left.setIfInBounds r true) visits where
  entered_size := h.entered_size
  left_size := by simpa using h.left_size
  within := fun visit hvisit => h.within visit (List.mem_cons_of_mem _ hvisit)
  returns := by
    intro x hlt hentered hleft
    by_cases hxr : x = r
    · subst hxr
      exact absurd (getD_set_self (h.left_size.symm ▸ hlt) true) hleft
    · rw [getD_set_ne hxr] at hleft
      have hmem := h.returns x hlt hentered hleft
      simpa [hxr] using hmem
  above := (List.pairwise_cons.mp h.above).2

theorem skip (h : store.Sorted done entered left (.enter r :: visits)) :
    store.Sorted done entered left visits where
  entered_size := h.entered_size
  left_size := h.left_size
  within := fun visit hvisit => h.within visit (List.mem_cons_of_mem _ hvisit)
  returns := by
    intro x hlt hentered hleft
    have hmem := h.returns x hlt hentered hleft
    simpa using hmem
  above := (List.pairwise_cons.mp h.above).2

/-- No object is come to again before it is left. -/
theorem not_entered (h : store.Sorted done entered left (.enter r :: visits))
    (hlt : r < store.cells.size) (hleft : ¬left.getD r true = true) :
    ¬entered.getD r true = true := by
  intro hentered
  have hmem : .leave r ∈ visits := by simpa using h.returns r hlt hentered hleft
  have habove := (List.pairwise_cons.mp h.above).1 (.leave r) hmem r rfl hlt
  exact absurd habove (Nat.lt_irrefl _)

theorem enter (hdone : store.Ordered done)
    (h : store.Sorted done entered left (.enter r :: visits)) (hlt : r < store.cells.size) :
    store.Sorted done (entered.setIfInBounds r true) left
      ((store.cell r).refs.map .enter ++ .leave r :: visits) where
  entered_size := by simpa using h.entered_size
  left_size := h.left_size
  within := by
    intro visit hvisit hvlt
    have hr : r ∈ done := h.within (.enter r) List.mem_cons_self hlt
    simp only [List.mem_append, List.mem_map, List.mem_cons] at hvisit
    rcases hvisit with ⟨c, hc, rfl⟩ | rfl | hvisit
    · exact hdone.closed hr hc hvlt
    · exact hr
    · exact h.within visit (List.mem_cons_of_mem _ hvisit) hvlt
  returns := by
    intro x hxlt hentered hleft
    by_cases hxr : x = r
    · simp [hxr]
    · rw [getD_set_ne hxr] at hentered
      have hmem : .leave x ∈ visits := by simpa using h.returns x hxlt hentered hleft
      simp [hmem]
  above := by
    have hr : r ∈ done := h.within (.enter r) List.mem_cons_self hlt
    obtain ⟨hfirst, hrest⟩ := List.pairwise_cons.mp h.above
    have hleave : ∀ visit ∈ visits, Visit.Above store done.reverse.idxOf (.leave r) visit :=
      fun visit hvisit x hx _ => hfirst visit hvisit x hx hlt
    refine List.pairwise_append.mpr ⟨?_, List.pairwise_cons.mpr ⟨hleave, hrest⟩, ?_⟩
    · refine List.pairwise_map.mpr (List.pairwise_of_forall ?_)
      intro a b x hx
      contradiction
    · intro visit hvisit later hlater x hx hclt
      obtain ⟨c, hc, rfl⟩ := List.mem_map.mp hvisit
      have hbelow := hdone.idxOf_lt hr hc hclt
      rcases List.mem_cons.mp hlater with rfl | hlater
      · obtain rfl : r = x := by simpa using hx
        exact hbelow
      · exact hbelow.trans (hfirst later hlater x hx hlt)

end Sorted

/-- The steps that entering the objects takes that were not entered. -/
def stepsLeft (store : Store) (entered : Array Bool) : Nat :=
  ∑ r ∈ Finset.range store.cells.size,
    if entered.getD r true then 0 else (store.cell r).refs.length + 1

theorem stepsLeft_enter {entered : Array Bool} {r : Ref} (hsize : entered.size = store.cells.size)
    (hlt : r < store.cells.size) (hr : ¬entered.getD r true = true) :
    store.stepsLeft (entered.setIfInBounds r true) + ((store.cell r).refs.length + 1) =
      store.stepsLeft entered := by
  have hmem : r ∈ Finset.range store.cells.size := Finset.mem_range.mpr hlt
  have hset : (entered.setIfInBounds r true).getD r true = true :=
    getD_set_self (hsize.symm ▸ hlt) true
  unfold stepsLeft
  rw [← Finset.add_sum_erase _ _ hmem, ← Finset.add_sum_erase _ _ hmem, if_pos hset, if_neg hr,
    Nat.zero_add, Nat.add_comm]
  congr 1
  apply Finset.sum_congr rfl
  intro x hx
  rw [getD_set_ne (Finset.ne_of_mem_erase hx)]

theorem sum_range_getD {α : Type} (f : α → Nat) (a : α) (xs : List α) :
    ∑ i ∈ Finset.range xs.length, f (xs.getD i a) = (xs.map f).sum := by
  induction xs with
  | nil => rfl
  | cons x xs ih =>
    rw [List.length_cons, Finset.sum_range_succ', List.map_cons, List.sum_cons, ← ih,
      Nat.add_comm]
    rfl

theorem foldl_steps (cells : List Cell) (n : Nat) :
    cells.foldl (fun n cell => n + cell.refs.length + 1) n =
      n + (cells.map fun cell => cell.refs.length + 1).sum := by
  induction cells generalizing n with
  | nil => rfl
  | cons cell cells ih =>
    rw [List.foldl_cons, ih, List.map_cons, List.sum_cons]
    omega

/-- The steps that a search is given are enough for all objects and the first visit. -/
theorem stepsLeft_start (store : Store) :
    store.cells.foldl (fun n cell => n + cell.refs.length + 1) 1 =
      store.stepsLeft (Array.replicate store.cells.size false) + 1 := by
  have hsum := sum_range_getD (fun cell => cell.refs.length + 1) (.plain .null) store.cells.toList
  rw [← Array.foldl_toList, foldl_steps, ← hsum, Nat.add_comm, stepsLeft]
  congr 1
  rw [Array.length_toList]
  apply Finset.sum_congr rfl
  intro r hr
  have hlt := Finset.mem_range.mp hr
  simp [hlt, cell]

theorem lt_size_of_not_getD {known : Array Bool} {r : Ref} (h : ¬known.getD r true = true) :
    r < known.size := by
  by_contra hge
  exact h (by simp [Nat.le_of_not_lt hge])

/-- The search does not fail where there is an order: it never comes back to an object that it has
not left, and the steps are enough. -/
theorem orderFrom_isSome {done : List Ref} (hdone : store.Ordered done) {steps : Nat}
    {entered left : Array Bool} {order : Array Ref} {visits : List Visit}
    (h : store.Sorted done entered left visits)
    (hsteps : visits.length + store.stepsLeft entered ≤ steps) :
    (store.orderFrom steps entered left order visits).isSome := by
  fun_induction orderFrom store steps entered left order visits with
  | case1 => rfl
  | case2 entered left order visits hne =>
    have hlen := List.length_pos_iff.mpr hne
    omega
  | case3 steps entered left order r visits ih =>
    simp only [List.length_cons] at hsteps
    exact ih h.leave (by omega)
  | case4 steps entered left order r visits _ ih =>
    simp only [List.length_cons] at hsteps
    exact ih h.skip (by omega)
  | case5 steps entered left order r visits hleft hentered =>
    have hlt : r < store.cells.size := h.left_size ▸ lt_size_of_not_getD hleft
    exact absurd hentered (h.not_entered hlt hleft)
  | case6 steps entered left order r visits hleft hentered ih =>
    have hlt : r < store.cells.size := h.left_size ▸ lt_size_of_not_getD hleft
    have henter := stepsLeft_enter h.entered_size hlt hentered
    apply ih (h.enter hdone hlt)
    simp only [List.length_append, List.length_map, List.length_cons] at hsteps ⊢
    omega

/-- An object with a place in an order is a tree. -/
theorem isTree_of_ordered {done : List Ref} (h : store.Ordered done) {r : Ref}
    (hr : r < store.cells.size → r ∈ done) : store.isTree r = true := by
  have hstart : store.Sorted done (Array.replicate store.cells.size false)
      (Array.replicate store.cells.size false) [.enter r] :=
    { entered_size := by simp
      left_size := by simp
      within := by simpa [Visit.ref] using hr
      returns := by
        intro x hlt hx
        simp [hlt] at hx
      above := List.pairwise_singleton _ _ }
  apply orderFrom_isSome h hstart
  rw [stepsLeft_start, List.length_singleton, Nat.add_comm]

/-- What an object holds is a tree if the object is one. -/
theorem isTree_of_mem_refs {r c : Ref} (h : store.isTree r = true)
    (hc : c ∈ (store.cell r).refs) : store.isTree c = true := by
  obtain ⟨order, horder⟩ := Option.isSome_iff_exists.mp h
  obtain ⟨hordered, hmem⟩ := order?_ordered horder
  have hlt : r < store.cells.size := by
    by_contra hge
    rw [cell_of_size_le (Nat.le_of_not_lt hge)] at hc
    simp [Cell.refs] at hc
  exact isTree_of_ordered hordered fun hclt => hordered.closed (hmem hlt) hc hclt

theorem Ordered.append {done done' : List Ref} (h : store.Ordered done)
    (h' : store.Ordered done') : store.Ordered (done ++ done') := by
  induction done with
  | nil => exact h'
  | cons r done ih =>
    exact ⟨fun c hc hlt => List.mem_append_left _ (h.1 c hc hlt), ih h.2⟩

/-- Objects that are trees have places in one order. -/
theorem exists_ordered {refs : List Ref} (h : ∀ c ∈ refs, store.isTree c = true) :
    ∃ done, store.Ordered done ∧ ∀ c ∈ refs, c < store.cells.size → c ∈ done := by
  induction refs with
  | nil => exact ⟨[], trivial, by simp⟩
  | cons c refs ih =>
    obtain ⟨hc, hrefs⟩ := List.forall_mem_cons.mp h
    obtain ⟨order, horder⟩ := Option.isSome_iff_exists.mp hc
    obtain ⟨hordered, hmem⟩ := order?_ordered horder
    obtain ⟨done, hdone, hall⟩ := ih hrefs
    refine ⟨order.toList.reverse ++ done, hordered.append hdone, ?_⟩
    refine List.forall_mem_cons.mpr ⟨fun hlt => ?_, fun d hd hlt => ?_⟩
    · exact List.mem_append_left _ (hmem hlt)
    · exact List.mem_append_right _ (hall d hd hlt)

/-- An object is a tree if all that it holds are. -/
theorem isTree_of_refs {r : Ref} (h : ∀ c ∈ (store.cell r).refs, store.isTree c = true) :
    store.isTree r = true := by
  obtain ⟨done, hdone, hall⟩ := exists_ordered h
  have hordered : store.Ordered (r :: done) := ⟨hall, hdone⟩
  exact isTree_of_ordered hordered fun _ => List.mem_cons_self

theorem isTree_of_plain {r : Ref} {v : Value} (h : store.cell r = .plain v) :
    store.isTree r = true :=
  isTree_of_refs (by simp [h, Cell.refs])

/-! ### What is known of a tree -/

section Known

variable {α : Type} {blank : α} {know : (Ref → α) → Cell → α}

/-- What is known of an object that is a tree. -/
def known (store : Store) (blank : α) (know : (Ref → α) → Cell → α) (r : Ref) : α :=
  match store.order? r with
  | some order => (store.sweep blank know order).getD r blank
  | none => blank

/-- It is known after any order that the object has a place in. -/
theorem known_eq_swept (hlocal : Local know) {done : List Ref} (h : store.Ordered done) {r : Ref}
    (hr : r < store.cells.size → r ∈ done) :
    store.known blank know r = (store.swept blank know done).getD r blank := by
  obtain ⟨order, horder⟩ := Option.isSome_iff_exists.mp (isTree_of_ordered h hr)
  obtain ⟨hordered, hmem⟩ := order?_ordered horder
  simp only [known, horder, sweep_eq_swept]
  exact swept_agree hlocal hordered h hmem hr

/-- What is known of an object that is a tree follows from what is known of those that it holds. -/
theorem known_eq (hlocal : Local know) (hblank : ∀ f, know f (.plain .null) = blank) {r : Ref}
    (h : store.isTree r = true) :
    store.known blank know r = know (store.known blank know) (store.cell r) := by
  obtain ⟨order, horder⟩ := Option.isSome_iff_exists.mp h
  obtain ⟨hordered, hmem⟩ := order?_ordered horder
  by_cases hlt : r < store.cells.size
  · rw [known_eq_swept hlocal hordered hmem, swept_eq hlocal hordered (hmem hlt) hlt]
    apply hlocal
    intro c hc
    exact (known_eq_swept hlocal hordered fun hclt => hordered.closed (hmem hlt) hc hclt).symm
  · have hle := Nat.le_of_not_lt hlt
    rw [known_eq_swept hlocal hordered hmem, swept_of_size_le _ hle, cell_of_size_le hle, hblank]

end Known

/-! ### The tree of an object -/

theorem local_assemble : Local Cell.assemble := by
  intro f g cell h
  cases cell with
  | plain v => rfl
  | list items | tuple items | set members =>
    simp only [Cell.assemble, Cell.refs] at h ⊢
    rw [List.map_congr_left h]
  | dict entries | view entries =>
    simp only [Cell.assemble]
    congr 1
    apply List.map_congr_left
    intro entry hentry
    have hrefs : ∀ c ∈ [entry.1, entry.2], f c = g c :=
      fun c hc => h c (List.mem_flatMap.mpr ⟨entry, hentry, hc⟩)
    rw [hrefs entry.1 (by simp), hrefs entry.2 (by simp)]
  | descriptor kind held =>
    rw [Cell.assemble, Cell.assemble, h held (by simp [Cell.refs])]

theorem tree_eq_known {r : Ref} (h : store.isTree r = true) :
    store.tree r = store.known .null Cell.assemble r := by
  obtain ⟨order, horder⟩ := Option.isSome_iff_exists.mp h
  unfold tree
  split
  · next v hv =>
    rw [known_eq local_assemble (fun _ => rfl) h, hv]
    rfl
  · simp only [known, horder]

/-- The tree of an object is assembled from the trees of those that it holds. -/
theorem tree_eq_assemble {r : Ref} (h : store.isTree r = true) :
    store.tree r = (store.cell r).assemble store.tree := by
  rw [tree_eq_known h, known_eq local_assemble (fun _ => rfl) h]
  apply local_assemble
  exact fun c hc => (tree_eq_known (isTree_of_mem_refs h hc)).symm

end DataSchema.Store
