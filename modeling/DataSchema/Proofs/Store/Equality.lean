import DataSchema.Proofs.Equality
import DataSchema.Proofs.Store.Description
import DataSchema.Workspace

/-!
Equality of objects that are descriptors. Objects are compared by identity first, and then part by
part; where two descriptors are trees, they are found to be equal only if they are so as schemas.
-/

namespace DataSchema

theorem Value.eq_of_isShared {v w : Value} (h : v.isShared w = true) : v = w := by
  cases v <;> cases w <;> simp_all [Value.isShared]

/-- Values of literals that are equal are equal as literals, if both are truth values or none is. -/
theorem Primitive.same_of_equal {p q : Primitive} (hbool : p.isBool = q.isBool)
    (h : p.toValue.equal q.toValue = true) : p.same q = true := by
  rw [Primitive.same, decide_eq_true_eq]
  refine ⟨hbool, ?_⟩
  have hnumber : ∀ m n : Rat, (Extended.finite m).same (.finite n) = true →
      (.inl m : Rat ⊕ String) = .inl n := by
    intro m n hmn
    rw [Extended.same_finite, decide_eq_true_eq] at hmn
    rw [hmn]
  cases p with
  | string s =>
    cases q with
    | string t => exact congrArg Sum.inr (beq_iff_eq.mp h)
    | _ => contradiction
  | _ =>
    cases q with
    | string t => contradiction
    | _ => exact hnumber _ _ h

theorem tag_eq_of_equal {s t : Option String}
    (h : Value.equal ((s.map .string).getD .null) ((t.map .string).getD .null) = true) : s = t := by
  cases s with
  | none =>
    cases t with
    | none => rfl
    | some t => exact (Bool.false_ne_true h).elim
  | some s =>
    cases t with
    | none => exact (Bool.false_ne_true h).elim
    | some t => exact congrArg some (beq_iff_eq.mp h)

namespace Store

variable {store : Store} {x y : Ref}

/-- What one is told to be equal, at once or by a comparison that had room enough. -/
def Compared (store : Store) (x y : Ref) : Prop :=
  store.isSame x y = true ∨ ∃ depth room, store.equalWithin depth room x y = .ok true

theorem compared_refl (x : Ref) : store.Compared x x := .inl (by simp [isSame])

/-- What is one object to everybody has one content. -/
theorem cell_eq_of_isSame (h : store.isSame x y = true) : store.cell x = store.cell y := by
  unfold isSame at h
  rcases Bool.or_eq_true_iff.mp h with heq | hshared
  · rw [beq_iff_eq.mp heq]
  · split at hshared
    · next v w hx hy => rw [hx, hy, Value.eq_of_isShared hshared]
    · next hx hy => rw [hx, hy]
    · contradiction

/-- Objects that are found to be equal are one, or their parts are found to be equal. -/
theorem Compared.equalBy (h : store.Compared x y) :
    store.cell x = store.cell y ∨ ∃ compare : Compare,
      (∀ u w, compare u w = .ok true → store.Compared u w) ∧
        store.equalBy compare x y = .ok true := by
  rcases h with hsame | ⟨depth, room, hequal⟩
  · exact .inl (cell_eq_of_isSame hsame)
  · cases depth with
    | zero => contradiction
    | succ depth =>
      rw [equalWithin] at hequal
      split at hequal
      · contradiction
      · next room' _ =>
        refine .inr ⟨_, ?_, hequal⟩
        intro u w huw
        split at huw
        · next hsame => exact .inl hsame
        · exact .inr ⟨depth, room', huw⟩

theorem forall₂_of_equalAll {compare : Compare} {xs ys : List Ref}
    (h : equalAll compare xs ys = .ok true) :
    List.Forall₂ (fun x y => compare x y = .ok true) xs ys := by
  induction xs generalizing ys with
  | nil =>
    cases ys with
    | nil => exact .nil
    | cons => simp [equalAll] at h
  | cons x xs ih =>
    cases ys with
    | nil => simp [equalAll] at h
    | cons y ys =>
      rw [equalAll] at h
      cases hxy : compare x y with
      | error e => simp [hxy, bind, Except.bind] at h
      | ok holds =>
        cases holds with
        | false => simp [hxy, bind, Except.bind, pure, Except.pure] at h
        | true => exact .cons hxy (ih (by simpa [hxy, bind, Except.bind] using h))

theorem Compared.tuple (h : store.Compared x y) {xs ys : List Ref}
    (hx : store.cell x = .tuple xs) (hy : store.cell y = .tuple ys) :
    List.Forall₂ store.Compared xs ys := by
  rcases h.equalBy with heq | ⟨compare, hparts, hequal⟩
  · obtain rfl : xs = ys := Cell.tuple.inj (hx.symm.trans (heq.trans hy))
    exact List.forall₂_same.mpr fun x _ => compared_refl x
  · simp only [Store.equalBy, hx, hy] at hequal
    exact (forall₂_of_equalAll hequal).imp hparts

theorem Compared.plain (h : store.Compared x y) {v : Value} (hx : store.cell x = .plain v) :
    ∃ w, store.cell y = .plain w ∧ (v = w ∨ v.equal w = true) := by
  rcases h.equalBy with heq | ⟨compare, -, hequal⟩
  · exact ⟨v, heq ▸ hx, .inl rfl⟩
  · cases hy : store.cell y with
    | plain w =>
      simp only [Store.equalBy, hx, hy, Value.plainEqual?] at hequal
      split at hequal
      · contradiction
      · exact ⟨w, rfl, .inr (Except.ok.inj hequal)⟩
    | _ => simp [Store.equalBy, hx, hy] at hequal

theorem Compared.descriptor (h : store.Compared x y) {kind : Kind} {u : Ref}
    (hx : store.cell x = .descriptor kind u) :
    ∃ w, store.cell y = .descriptor kind w ∧ store.Compared u w ∧
      (kind = .literal → (store.face u).isBool = (store.face w).isBool) := by
  rcases h.equalBy with heq | ⟨compare, hparts, hequal⟩
  · exact ⟨u, heq ▸ hx, compared_refl u, fun _ => rfl⟩
  · cases hy : store.cell y with
    | descriptor kind' w =>
      simp only [Store.equalBy, hx, hy] at hequal
      split at hequal
      · simp at hequal
      · next hkind =>
        obtain rfl : kind = kind' := not_not.mp hkind
        split at hequal
        · simp at hequal
        · next hbool => exact ⟨w, rfl, hparts u w hequal, by simpa using hbool⟩
    | _ => simp [Store.equalBy, hx, hy] at hequal

/-- Objects whose trees hold nothing are found to be equal only if the trees are. -/
theorem Compared.trees (h : store.Compared x y) {v w : Value}
    (hx : store.isTree x = true ∧ store.tree x = v) (hy : store.isTree y = true ∧ store.tree y = w)
    (hv : v.holds = false) (hw : w.holds = false) : v = w ∨ v.equal w = true := by
  obtain ⟨u, hu, hequal⟩ := h.plain (cell_of_tree_plain hx.1 hx.2 hv)
  rwa [← Cell.plain.inj ((cell_of_tree_plain hy.1 hy.2 hw).symm.trans hu)] at hequal

/-- What is true of two objects in one place that are found to be equal is true of what the tuples
are the trees of, place by place. -/
theorem Compared.tuples {α β : Type} {f : α → Value} {g : β → Value} {U : α → β → Prop}
    {as : List α} {bs : List β} (hproper : store.Proper) (h : store.Compared x y)
    (hx : store.isTree x = true ∧ store.tree x = .tuple (as.map f))
    (hy : store.isTree y = true ∧ store.tree y = .tuple (bs.map g))
    (hU : ∀ u w a b, a ∈ as → store.Compared u w → (store.isTree u = true ∧ store.tree u = f a) →
      (store.isTree w = true ∧ store.tree w = g b) → U a b) : List.Forall₂ U as bs := by
  obtain ⟨xs, hxs, -⟩ := hproper.cell_of_tree_tuple hx.1 hx.2
  obtain ⟨ys, hys, -⟩ := hproper.cell_of_tree_tuple hy.1 hy.2
  have hall := h.tuple hxs hys
  have hxas := forall₂_of_tree_tuple hxs hx.1 hx.2
  have hybs := forall₂_of_tree_tuple hys hy.1 hy.2
  clear hxs hys hx hy h
  induction hall generalizing as bs with
  | nil =>
    cases hxas
    cases hybs
    exact .nil
  | cons hxy _ ih =>
    cases hxas with
    | cons hxa hxas =>
      cases hybs with
      | cons hyb hybs =>
        refine .cons (hU _ _ _ _ List.mem_cons_self hxy hxa hyb) (ih ?_ hxas hybs)
        exact fun u w a b ha => hU u w a b (List.mem_cons_of_mem _ ha)

/-- Two pairs of names and descriptors that are found to be equal have equal names, and the
descriptors are found to be equal. -/
theorem compared_fields (hproper : store.Proper) {f g : String × Descriptor}
    (h : store.Compared x y) (hx : store.isTree x = true ∧ store.tree x = Descriptor.heldField f)
    (hy : store.isTree y = true ∧ store.tree y = Descriptor.heldField g) :
    f.1 = g.1 ∧ ∃ u w, store.descriptorTree? u = some f.2 ∧ store.descriptorTree? w = some g.2 ∧
      store.Compared u w := by
  obtain ⟨key, u, hcell, hkey, hu⟩ := cell_of_tree_field hproper hx.1 hx.2
  obtain ⟨key', w, hcell', hkey', hw⟩ := cell_of_tree_field hproper hy.1 hy.2
  cases h.tuple hcell hcell' with
  | cons hkeys hrest =>
    refine ⟨?_, u, w, hu, hw, (List.forall₂_cons.mp hrest).1⟩
    obtain ⟨v, hv, hequal⟩ := hkeys.plain hkey
    obtain rfl := Cell.plain.inj (hkey'.symm.trans hv)
    rcases hequal with heq | hequal
    · exact Value.string.inj heq
    · exact beq_iff_eq.mp hequal

/-- Descriptors that are trees and are found to be equal are so as schemas. -/
theorem same_of_compared (hproper : store.Proper) {a b : Descriptor}
    (ha : store.descriptorTree? x = some a) (hb : store.descriptorTree? y = some b)
    (h : store.Compared x y) : a.same b = true := by
  -- The parts of a descriptor lie several comparisons below it, so the induction is on its depth.
  induction hn : a.depth using Nat.strong_induction_on generalizing x y a b with
  | _ n ih =>
    subst hn
    rcases cell_of_descriptorTree? ha with hcell | ⟨kind, u, hcell, -⟩
    · obtain ⟨w, hcell', hequal⟩ := h.plain hcell
      have hw : w = .descriptor b := by
        have htree := (descriptorTree?_eq_some.mp hb).2
        simpa only [tree, hcell'] using htree
      rcases hequal with heq | hequal
      · rw [Value.descriptor.inj (heq.trans hw)]
        exact b.same_refl
      · exact (hw ▸ hequal :)
    · obtain ⟨w, hcell', hparts, hbool⟩ := h.descriptor hcell
      obtain ⟨hu, v, hv, hholds⟩ := holds_of_tree hcell (hproper.field hcell) ha
      obtain ⟨hw, v', hv', hholds'⟩ := holds_of_tree hcell' (hproper.field hcell) hb
      cases hholds with
      | literal p =>
        cases hholds' with | literal q => ?_
        have hp := cell_of_tree_plain hu hv (by cases p <;> rfl)
        have hq := cell_of_tree_plain hw hv' (by cases q <;> rfl)
        rcases hparts.trees ⟨hu, hv⟩ ⟨hw, hv'⟩ (by cases p <;> rfl) (by cases q <;> rfl) with
          heq | hequal
        · rw [Primitive.toValue_injective heq]
          exact q.same_refl
        · refine Primitive.same_of_equal ?_ hequal
          have hfaces := hbool rfl
          simp only [face, hp, hq] at hfaces
          cases p <;> cases q <;> exact hfaces
      | file s =>
        cases hholds' with | file t => ?_
        refine beq_iff_eq.mpr ?_
        rcases hparts.trees ⟨hu, hv⟩ ⟨hw, hv'⟩ (by cases s <;> rfl) (by cases t <;> rfl) with
          heq | hequal
        · cases s <;> cases t <;> simp_all
        · exact tag_eq_of_equal hequal
      | list c | record c | optional c | type c =>
        cases hholds'
        have hc := descriptorTree?_eq_some.mpr ⟨hu, hv⟩
        have hc' := descriptorTree?_eq_some.mpr ⟨hw, hv'⟩
        have hsame := ih c.depth (Descriptor.depth_lt_of_only rfl) hc hc' hparts rfl
        exact hsame
      | object fs =>
        cases hholds' with | object gs => ?_
        refine (Descriptor.sameFields_iff fs gs).mpr
          (hparts.tuples hproper ⟨hu, hv⟩ ⟨hw, hv'⟩ fun x y f g hf hxy hx hy => ?_)
        obtain ⟨hname, u, w, hfield, hfield', hcompared⟩ := compared_fields hproper hxy hx hy
        exact ⟨hname, ih _ (Descriptor.depth_lt_of_field hf) hfield hfield' hcompared rfl⟩
      | union ds =>
        cases hholds' with | union es => ?_
        refine (Descriptor.sameAll_iff ds es).mpr
          (hparts.tuples hproper ⟨hu, hv⟩ ⟨hw, hv'⟩ fun x y d e hd hxy hx hy => ?_)
        exact ih _ (Descriptor.depth_lt_of_alternative hd)
          (descriptorTree?_eq_some.mpr hx) (descriptorTree?_eq_some.mpr hy) hxy rfl

theorem descriptorTree?_of_schema? {r : Ref} {d : Descriptor}
    (h : Workspace.schema? store r = some d) : store.descriptorTree? r = some d :=
  (Option.filter_eq_some_iff.mp h).1

/-- Schemas that are found to be equal are so as trees, whichever way they were compared. -/
theorem same_of_equal? (hproper : store.Proper) {a b : Descriptor}
    (ha : store.descriptorTree? x = some a) (hb : store.descriptorTree? y = some b)
    (h : Workspace.equal? store x y = .ok true) : a.same b = true := by
  unfold Workspace.equal? at h
  split at h
  · next d e hd he =>
    obtain rfl := Option.some.inj ((descriptorTree?_of_schema? hd).symm.trans ha)
    obtain rfl := Option.some.inj ((descriptorTree?_of_schema? he).symm.trans hb)
    exact Except.ok.inj h
  · exact same_of_compared hproper ha hb (.inr ⟨_, _, h⟩)

/-- The number one as a float. -/
def oneFloat : Finite64 := ⟨false, ⟨1023, by decide⟩, ⟨0, by decide⟩⟩

end Store

end DataSchema
