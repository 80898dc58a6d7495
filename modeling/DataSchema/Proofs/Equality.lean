import DataSchema.Proofs.Description
import Mathlib.Data.List.Forall2

/-!
Equal schemas and how they are told. Schemas are equal whatever numbers their literals are written
as, whole or with a point, and whatever the sign of a zero is; descriptions keep both. Main
statement: two equal schemas have one description exactly if their literals are of the same forms.
-/

namespace DataSchema

namespace Finite64

theorem units_of_pos {x : Finite64} (h : 0 < x.exponent.val) :
    x.units = (fractionCount + x.fraction.val) <<< (x.exponent.val - 1) :=
  if_neg (Nat.ne_of_gt h)

/-- Numbers with a larger exponent field are of larger magnitude. -/
theorem units_lt_of_exponent_lt {x y : Finite64} (h : x.exponent.val < y.exponent.val) :
    x.units < y.units := by
  have hx := x.fraction.isLt
  have hy : fractionCount * 2 ^ (y.exponent.val - 1) ≤ y.units := by
    rw [units_of_pos (by omega), Nat.shiftLeft_eq]
    exact Nat.mul_le_mul_right _ (Nat.le_add_right _ _)
  refine Nat.lt_of_lt_of_le ?_ hy
  rcases Nat.eq_zero_or_pos x.exponent.val with hzero | hpos
  · rw [units, if_pos hzero]
    exact Nat.lt_of_lt_of_le hx (Nat.le_mul_of_pos_right _ (Nat.two_pow_pos _))
  · obtain ⟨e, he⟩ := Nat.exists_eq_add_one.mpr hpos
    calc x.units = (fractionCount + x.fraction.val) * 2 ^ e := by
          rw [units_of_pos hpos, he, Nat.add_sub_cancel, Nat.shiftLeft_eq]
      _ < (fractionCount + fractionCount) * 2 ^ e :=
          Nat.mul_lt_mul_of_pos_right (Nat.add_lt_add_left hx _) (Nat.two_pow_pos e)
      _ = fractionCount * 2 ^ (e + 1) := by
          rw [← Nat.two_mul, Nat.mul_comm 2, Nat.mul_assoc, Nat.pow_succ']
      _ ≤ fractionCount * 2 ^ (y.exponent.val - 1) :=
          Nat.mul_le_mul_left _ (Nat.pow_le_pow_right Nat.two_pos (by omega))

theorem eq_of_units_eq {x y : Finite64} (hsign : x.negative = y.negative)
    (h : x.units = y.units) : x = y := by
  have hexponent : x.exponent = y.exponent := by
    rcases Nat.lt_trichotomy x.exponent.val y.exponent.val with hlt | heq | hgt
    · exact absurd h (Nat.ne_of_lt (units_lt_of_exponent_lt hlt))
    · exact Fin.ext heq
    · exact absurd h (Nat.ne_of_gt (units_lt_of_exponent_lt hgt))
  have hfraction : x.fraction.val = y.fraction.val := by
    rcases Nat.eq_zero_or_pos x.exponent.val with hzero | hpos
    · rwa [units, units, ← hexponent, if_pos hzero, if_pos hzero] at h
    · rw [units_of_pos hpos, units_of_pos (hexponent ▸ hpos), ← hexponent, Nat.shiftLeft_eq,
        Nat.shiftLeft_eq] at h
      exact Nat.add_left_cancel (Nat.eq_of_mul_eq_mul_right (Nat.two_pow_pos _) h)
  cases x
  cases y
  simp_all [Fin.ext_iff]

theorem unitsPerOne_ne_zero : unitsPerOne ≠ 0 := by decide +kernel

/-- A float is known by its value and its sign. -/
theorem eq_of_toRat_eq {x y : Finite64} (hsign : x.negative = y.negative)
    (h : x.toRat = y.toRat) : x = y := by
  apply eq_of_units_eq hsign
  rw [toRat, toRat, hsign, Rat.mkRat_eq_iff unitsPerOne_ne_zero unitsPerOne_ne_zero] at h
  have hunits := Int.eq_of_mul_eq_mul_right (Int.natCast_ne_zero.mpr unitsPerOne_ne_zero) h
  split at hunits <;> omega

end Finite64

/-! ### Literals -/

/-- What a literal is written as apart from its value: of which class it is, and with which sign if
it is a float. -/
inductive Primitive.Form where
  | bool
  | int
  | float (negative : Bool)
  | string
  deriving DecidableEq

namespace Primitive

def form : Primitive → Form
  | bool _ => .bool
  | int _ => .int
  | float x => .float x.negative
  | string _ => .string

/-- Equal literals of one form are one. -/
theorem eq_of_same {p q : Primitive} (h : p.same q = true) (hform : p.form = q.form) : p = q := by
  simp only [same, decide_eq_true_eq] at h
  obtain ⟨-, hcontent⟩ := h
  cases p with
  | bool b =>
    cases q with
    | bool c => cases b <;> cases c <;> simp_all [content]
    | _ => contradiction
  | int m =>
    cases q with
    | int n => exact congrArg int (Rat.intCast_inj.mp (Sum.inl.inj hcontent))
    | _ => contradiction
  | float x =>
    cases q with
    | float y =>
      exact congrArg float (Finite64.eq_of_toRat_eq (Form.float.inj hform) (Sum.inl.inj hcontent))
    | _ => contradiction
  | string s =>
    cases q with
    | string t => exact congrArg string (Sum.inr.inj hcontent)
    | _ => contradiction

theorem toValue_injective {p q : Primitive} (h : p.toValue = q.toValue) : p = q := by
  cases p <;> cases q <;> simp_all [toValue]

end Primitive

namespace Descriptor

theorem sameFields_iff (fs gs : List (String × Descriptor)) :
    sameFields fs gs = true ↔
      List.Forall₂ (fun f g => f.1 = g.1 ∧ f.2.same g.2 = true) fs gs := by
  induction fs generalizing gs with
  | nil => cases gs <;> simp [sameFields]
  | cons f fs ih => cases gs <;> simp [sameFields, ih]

theorem sameAll_iff (ds es : List Descriptor) :
    sameAll ds es = true ↔ List.Forall₂ (fun d e => d.same e = true) ds es := by
  induction ds generalizing es with
  | nil => cases es <;> simp [sameAll]
  | cons d ds ih => cases es <;> simp [sameAll, ih]

mutual

theorem same_refl (d : Descriptor) : d.same d = true := by
  cases d with
  | literal p => exact p.same_refl
  | list d | record d | optional d | type d => exact same_refl d
  | object fields => exact sameFields_refl fields
  | union ds => exact sameAll_refl ds
  | file | outsider => simp [same]
  | _ => rfl

theorem sameFields_refl (fields : List (String × Descriptor)) :
    sameFields fields fields = true := by
  cases fields with
  | nil => rfl
  | cons field fields => simp [sameFields, same_refl field.2, sameFields_refl fields]

theorem sameAll_refl (ds : List Descriptor) : sameAll ds ds = true := by
  cases ds with
  | nil => rfl
  | cons d ds => simp [sameAll, same_refl d, sameAll_refl ds]

end

mutual

/-- The literals in a descriptor, in order. -/
def literals : Descriptor → List Primitive
  | literal p => [p]
  | list d | record d | optional d | type d => literals d
  | object fields => literalsOfFields fields
  | union ds => literalsOfAll ds
  | _ => []
termination_by structural d => d

def literalsOfFields : List (String × Descriptor) → List Primitive
  | [] => []
  | (_, d) :: fields => literals d ++ literalsOfFields fields
termination_by structural fields => fields

def literalsOfAll : List Descriptor → List Primitive
  | [] => []
  | d :: ds => literals d ++ literalsOfAll ds
termination_by structural ds => ds

end

/-- The forms of the literals in a descriptor, in order. -/
def forms (d : Descriptor) : List Primitive.Form := d.literals.map Primitive.form

mutual

theorem length_literals_eq (d e : Descriptor) (h : d.same e = true) :
    d.literals.length = e.literals.length := by
  cases d <;> cases e <;> simp only [same, Bool.false_eq_true, Bool.and_eq_true] at h
  case list d e | record d e | optional d e | type d e => exact length_literals_eq d e h
  case object fs gs => exact length_literalsOfFields_eq fs gs h
  case union ds es => exact length_literalsOfAll_eq ds es h
  all_goals rfl

theorem length_literalsOfFields_eq (fs gs : List (String × Descriptor))
    (h : sameFields fs gs = true) :
    (literalsOfFields fs).length = (literalsOfFields gs).length := by
  cases fs <;> cases gs <;> simp only [sameFields, Bool.false_eq_true, Bool.and_eq_true] at h
  case nil => rfl
  case cons f fs g gs =>
    rw [literalsOfFields, literalsOfFields, List.length_append, List.length_append,
      length_literals_eq f.2 g.2 h.1.2, length_literalsOfFields_eq fs gs h.2]

theorem length_literalsOfAll_eq (ds es : List Descriptor) (h : sameAll ds es = true) :
    (literalsOfAll ds).length = (literalsOfAll es).length := by
  cases ds <;> cases es <;> simp only [sameAll, Bool.false_eq_true, Bool.and_eq_true] at h
  case nil => rfl
  case cons d ds e es =>
    rw [literalsOfAll, literalsOfAll, List.length_append, List.length_append,
      length_literals_eq d e h.1, length_literalsOfAll_eq ds es h.2]

end

theorem append_forms_eq_iff {ps qs ps' qs' : List Primitive} (h : ps.length = qs.length) :
    (ps ++ ps').map Primitive.form = (qs ++ qs').map Primitive.form ↔
      ps.map Primitive.form = qs.map Primitive.form ∧
        ps'.map Primitive.form = qs'.map Primitive.form := by
  rw [List.map_append, List.map_append]
  constructor
  · exact fun heq => List.append_inj heq (by rw [List.length_map, List.length_map, h])
  · rintro ⟨hfirst, hrest⟩
    rw [hfirst, hrest]

theorem describeWith_eq_iff {d e : Descriptor} (hkind : d.kind = e.kind)
    {children children' : List (Step × Description)}
    (hempty : children = [] → children' = [] → d.configuration = e.configuration) :
    d.describeWith children = e.describeWith children' ↔ children = children' := by
  constructor
  · intro h
    exact (Description.mk.inj h).2.2
  · rintro rfl
    rw [describeWith, describeWith, hkind]
    by_cases hnil : children = []
    · rw [hempty hnil hnil]
    · simp [hnil]

mutual

/-- Two equal schemas have one description exactly if their literals are of the same forms. -/
theorem describe_eq_iff (d e : Descriptor) (h : d.same e = true) :
    d.describe = e.describe ↔ d.forms = e.forms := by
  cases d <;> cases e <;> simp only [same, Bool.false_eq_true, Bool.and_eq_true] at h
  case literal p q =>
    constructor
    · intro heq
      have hvalue : p.toValue = q.toValue := (Description.mk.inj heq).2.1
      rw [Primitive.toValue_injective hvalue]
    · intro hforms
      have hform : [p.form] = [q.form] := hforms
      rw [Primitive.eq_of_same h (List.cons.inj hform).1]
  case list d e | record d e | optional d e | type d e =>
    simpa [describe, forms, literals] using describe_eq_iff d e h
  case object fs gs =>
    refine (describeWith_eq_iff (d := .object fs) (e := .object gs) rfl ?_).trans
      (describeFields_eq_iff fs gs h)
    intro hfs hgs
    cases fs <;> cases gs <;> simp_all [describeFields]
  case union ds es =>
    refine (describeWith_eq_iff (d := .union ds) (e := .union es) rfl ?_).trans
      (describeAll_eq_iff 0 ds es h)
    intro hds hes
    cases ds <;> cases es <;> simp_all [describeAll]
  case file s t =>
    rw [beq_iff_eq] at h
    rw [h]
    exact iff_of_true rfl rfl
  case outsider j c s k d t =>
    obtain ⟨hkind, -⟩ := h
    obtain rfl : j = k := beq_iff_eq.mp hkind
    exact iff_of_true rfl rfl
  all_goals exact iff_of_true rfl rfl

theorem describeFields_eq_iff (fs gs : List (String × Descriptor))
    (h : sameFields fs gs = true) :
    describeFields fs = describeFields gs ↔
      (literalsOfFields fs).map Primitive.form = (literalsOfFields gs).map Primitive.form := by
  cases fs <;> cases gs <;>
    simp only [sameFields, Bool.false_eq_true, Bool.and_eq_true, beq_iff_eq] at h
  case nil => exact iff_of_true rfl rfl
  case cons f fs g gs =>
    rw [describeFields, describeFields, literalsOfFields, literalsOfFields,
      append_forms_eq_iff (length_literals_eq f.2 g.2 h.1.2),
      ← describeFields_eq_iff fs gs h.2, ← forms, ← forms, ← describe_eq_iff f.2 g.2 h.1.2, h.1.1]
    simp

theorem describeAll_eq_iff (position : Nat) (ds es : List Descriptor)
    (h : sameAll ds es = true) :
    describeAll position ds = describeAll position es ↔
      (literalsOfAll ds).map Primitive.form = (literalsOfAll es).map Primitive.form := by
  cases ds <;> cases es <;> simp only [sameAll, Bool.false_eq_true, Bool.and_eq_true] at h
  case nil => exact iff_of_true rfl rfl
  case cons d ds e es =>
    rw [describeAll, describeAll, literalsOfAll, literalsOfAll,
      append_forms_eq_iff (length_literals_eq d e h.1),
      ← describeAll_eq_iff (position + 1) ds es h.2, ← forms, ← forms, ← describe_eq_iff d e h.1]
    simp

end

end Descriptor

end DataSchema
