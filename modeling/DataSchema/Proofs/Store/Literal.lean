import DataSchema.Proofs.Interchange
import DataSchema.Proofs.Store.Equality
import Mathlib.Tactic.TFAE

/-!
Literals. A literal accepts what equals its primitive, and answers about everything. Main statement:
two literals are equal exactly if each accepts the primitive of the other, and exactly if no value
tells them apart.
-/

namespace DataSchema

namespace Descriptor

theorem literal?_toValue (p : Primitive) : literal? p.toValue = .ok (.literal p) := by
  cases p <;> rfl

/-- A literal can be made of truth values, whole numbers, finite floats and texts. -/
theorem exists_literal?_iff (v : Value) :
    (∃ d, literal? v = .ok d) ↔ ∃ p : Primitive, v = p.toValue := by
  constructor
  · rintro ⟨d, h⟩
    obtain ⟨p, rfl, -⟩ := eq_toValue_of_literal? h
    exact ⟨p, rfl⟩
  · rintro ⟨p, rfl⟩
    exact ⟨_, literal?_toValue p⟩

end Descriptor

theorem isLiteral_toValue (p q : Primitive) : isLiteral p q.toValue = p.same q := by
  rw [isLiteral_eq_any, Value.primitive?_toValue, Option.any_some]

theorem validate_literal (settings : Settings) (p : Primitive) (v : Value) :
    validate settings (.literal p) v = .ok (isLiteral p v) := by
  have hrun : runCheck settings .silent (.literal p) v =
      Test.demand .silent (isLiteral p v) ⟨[], .literal, .notLiteral p.toValue v⟩ #[] := rfl
  rw [validate, hrun]
  cases isLiteral p v <;> rfl

/-- Two literals that are asked about the same things, of which some are looked at as their
primitives. -/
theorem tfae_of_answers {V : Type} {p q : Primitive} (look : V → Value)
    {answer answer' : V → Except Error Bool} (h : ∀ v, answer v = .ok (isLiteral p (look v)))
    (h' : ∀ v, answer' v = .ok (isLiteral q (look v))) {v w : V} (hv : look v = p.toValue)
    (hw : look w = q.toValue) :
    [p.same q = true, answer w = .ok true, answer' v = .ok true,
      ∀ u, answer u = answer' u].TFAE := by
  have hone : answer w = .ok (p.same q) := by rw [h, hw, isLiteral_toValue]
  have htwo : answer' v = .ok (q.same p) := by rw [h', hv, isLiteral_toValue]
  tfae_have 1 ↔ 2 := by rw [hone, Except.ok.injEq]
  tfae_have 1 ↔ 3 := by
    rw [htwo, Except.ok.injEq]
    exact ⟨Primitive.same_symm, Primitive.same_symm⟩
  tfae_have 1 → 4 := by
    intro hsame u
    rw [h, h', isLiteral_of_same hsame]
  tfae_have 4 → 2 := by
    intro hall
    rw [hall w, h', hw, isLiteral_toValue, q.same_refl]
  tfae_finish

namespace Store

/-- An object that is a literal, and the object that it expects. -/
structure IsLiteral (store : Store) (x held : Ref) (p : Primitive) : Prop where
  cell : store.cell x = .descriptor .literal held
  held : store.cell held = .plain p.toValue

namespace IsLiteral

variable {store : Store} {x y u w : Ref} {p q : Primitive}

theorem descriptorTree? (h : store.IsLiteral x u p) :
    store.descriptorTree? x = some (.literal p) := by
  have htree : store.isTree x = true :=
    isTree_of_refs (by simpa [h.cell, Cell.refs] using isTree_of_plain h.held)
  have hheld : store.tree u = p.toValue := by simp only [tree, h.held]
  refine descriptorTree?_eq_some.mpr ⟨htree, ?_⟩
  rw [tree_eq_assemble htree, h.cell, Cell.assemble, Cell.assembleDescriptor, hheld]
  cases p <;> rfl

theorem face (h : store.IsLiteral x u p) : store.face u = p.toValue := by
  rw [Store.face, h.held, Cell.face]

theorem validate_eq (hproper : store.Proper) (h : store.IsLiteral x u p) (settings : Settings)
    (v : Ref) : store.validate settings x v = .ok (isLiteral p (store.face v)) := by
  have hshows := shows_unroll hproper (settings.depth.limit.bound + 2) v
  rw [Store.validate_eq hproper settings h.descriptorTree? hshows, validate_literal,
    hshows.1.isLiteral]

theorem equal? (hx : store.IsLiteral x u p) (hy : store.IsLiteral y w q) :
    Workspace.equal? store x y = .ok (p.same q) := by
  have hschema {z held : Ref} {r : Primitive} (hz : store.IsLiteral z held r) :
      Workspace.schema? store z = some (.literal r) := by
    rw [Workspace.schema?, hz.descriptorTree?]
    rfl
  simp only [Workspace.equal?, hschema hx, hschema hy]
  rfl

end IsLiteral

/-- Literals of zero and of the negative zero, and a list that holds itself. -/
def zeros : Store := ⟨#[.plain .null, .plain (.int 0), .descriptor .literal 1,
  .plain (.float (.finite (.zero true))), .descriptor .literal 3, .list [5]]⟩

theorem zeros_proper : zeros.Proper := .of_mem rfl (by decide)

end Store

open Descriptor in
/-- A literal can be made of what a literal may expect and of nothing else, and of two of them it is
the same to say that they are equal, that either accepts what the other expects, and that they
answer alike about all values. So it is for objects. -/
theorem literals_equal_iff_interchangeable (settings : Settings) :
    (∀ v, (∃ d, literal? v = .ok d) ↔ ∃ p : Primitive, v = p.toValue) ∧
    (∀ v w d e, literal? v = .ok d → literal? w = .ok e →
      [d.same e = true, validate settings d w = .ok true, validate settings e v = .ok true,
        ∀ u, validate settings d u = validate settings e u].TFAE) ∧
    ∀ store : Store, store.Proper → ∀ x y v w p q, store.IsLiteral x v p → store.IsLiteral y w q →
      [Workspace.equal? store x y = .ok true, store.validate settings x w = .ok true,
        store.validate settings y v = .ok true,
        ∀ u, store.validate settings x u = store.validate settings y u].TFAE := by
  refine ⟨exists_literal?_iff, ?_, ?_⟩
  · intro v w d e hd he
    obtain ⟨p, rfl, rfl⟩ := eq_toValue_of_literal? hd
    obtain ⟨q, rfl, rfl⟩ := eq_toValue_of_literal? he
    exact tfae_of_answers id (validate_literal settings p) (validate_literal settings q) rfl rfl
  · intro store hproper x y v w p q hx hy
    rw [hx.equal? hy, Except.ok.injEq]
    exact tfae_of_answers store.face (hx.validate_eq hproper settings)
      (hy.validate_eq hproper settings) hx.face hy.face

open Descriptor in
/-- The last whole number before floats have gaps, and one behind it; a truth value and zero; and
the two zeros as objects. -/
theorem literals_equal_iff_interchangeable_zeros :
    let last : Value := .int (2 ^ 53)
    let asFloat : Finite64 := ⟨false, ⟨1076, by decide⟩, 0⟩
    let d := Descriptor.literal (.int (2 ^ 53))
    let e := Descriptor.literal (.float asFloat)
    let behind := Descriptor.literal (.int (2 ^ 53 + 1))
    let no := Descriptor.literal (.bool false)
    let zero := Descriptor.literal (.int 0)
    let store := Store.zeros
    literal? last = .ok d ∧ literal? (.float (.finite asFloat)) = .ok e ∧ d.same e = true ∧
      validate .default e last = .ok true ∧
      (∀ u, validate .default d u = validate .default e u) ∧
      literal? (.int (2 ^ 53 + 1)) = .ok behind ∧
      validate .default behind (.float (.finite asFloat)) ≠ .ok true ∧
      literal? (.bool false) = .ok no ∧ literal? (.int 0) = .ok zero ∧
      ¬(∀ u, validate .default no u = validate .default zero u) ∧ store.Proper ∧
      store.IsLiteral 2 1 (.int 0) ∧ store.IsLiteral 4 3 (.float (.zero true)) ∧
      Workspace.equal? store 2 4 = .ok true ∧ store.validate .default 2 3 = .ok true ∧
      store.validate .default 2 5 = store.validate .default 4 5 := by
  intro last asFloat d e behind no zero store
  obtain ⟨-, hvalues, hobjects⟩ := literals_equal_iff_interchangeable .default
  have hlast := hvalues last (.float (.finite asFloat)) d e rfl rfl
  have hbehind := hvalues (.int (2 ^ 53 + 1)) (.float (.finite asFloat)) behind e rfl rfl
  have hzero := hvalues (.bool false) (.int 0) no zero rfl rfl
  have hone : store.IsLiteral 2 1 (.int 0) := ⟨rfl, rfl⟩
  have htwo : store.IsLiteral 4 3 (.float (.zero true)) := ⟨rfl, rfl⟩
  have hstore := hobjects store Store.zeros_proper 2 4 1 3 _ _ hone htwo
  have hsame : d.same e = true := by decide +kernel
  have hother : ¬behind.same e = true := by decide +kernel
  have hequal : Workspace.equal? store 2 4 = .ok true := by
    rw [hone.equal? htwo]
    exact congrArg Except.ok (by decide +kernel)
  have halike : ∀ u, store.validate .default 2 u = store.validate .default 4 u :=
    (hstore.out 0 3).mp hequal
  exact ⟨rfl, rfl, hsame, (hlast.out 0 2).mp hsame, (hlast.out 0 3).mp hsame, rfl,
    fun haccepts => hother ((hbehind.out 0 1).mpr haccepts), rfl, rfl,
    fun hall => absurd ((hzero.out 0 3).mpr hall) (by decide +kernel), Store.zeros_proper, hone,
    htwo, hequal, (hstore.out 0 1).mp hequal, halike 5⟩

end DataSchema
