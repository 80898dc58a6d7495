import DataSchema.Proofs.Build
import DataSchema.Proofs.Interchange

/-!
Equal descriptors as they are compared: one can be built where the other can, both have room in the
same places and are made of equally many, and what they hold is compared like them.
-/

namespace DataSchema

namespace Descriptor

theorem field?_heldField (seen : List String) (field : String × Descriptor) :
    field? seen (heldField field) =
      if seen.contains field.1 then .error (.fieldRepeated field.1) else .ok field := rfl

/-- Whether fields can be built depends on their names. -/
theorem fields?_of_names {fs gs : List (String × Descriptor)}
    (hnames : List.Forall₂ (fun f g : String × Descriptor => f.1 = g.1) fs gs)
    {seen : List String} (h : fields? seen (fs.map heldField) = .ok fs) :
    fields? seen (gs.map heldField) = .ok gs := by
  induction hnames generalizing seen with
  | nil => rfl
  | @cons f g fs gs hname _ ih =>
    simp only [List.map_cons, fields?, field?_heldField, ← hname, bind, Except.bind] at h ⊢
    by_cases hnew : seen.contains f.1 = true
    · rw [if_pos hnew] at h
      contradiction
    · rw [if_neg hnew] at h ⊢
      dsimp only at h ⊢
      cases hrest : fields? (f.1 :: seen) (fs.map heldField) with
      | error e => simp [hrest] at h
      | ok rest =>
        obtain rfl : rest = fs := by simpa [hrest, pure, Except.pure] using h
        rw [← hname, ih hrest, hname]
        rfl

theorem ofHeld?_object {fields : List (String × Descriptor)} :
    ofHeld? .object (.tuple (fields.map heldField)) = some (.object fields) ↔
      fields? [] (fields.map heldField) = .ok fields := by
  have htuples : (fields.map heldField).all (·.isTuple) = true := by
    simp [heldField, Value.isTuple]
  rw [ofHeld?, if_pos htuples, object?_tuple]
  cases fields? [] (fields.map heldField) <;> simp [Except.map, Except.toOption]

theorem alternatives?_map (ds : List Descriptor) (position : Nat) :
    alternatives? position (ds.map .descriptor) = .ok ds := by
  induction ds generalizing position with
  | nil => rfl
  | cons d ds ih => simp [alternatives?, child?, ih, bind, Except.bind, pure, Except.pure]

/-- What equals a descriptor that can be built from what it holds can be built so as well. -/
theorem ofHeld?_of_same {d e : Descriptor} (h : d.same e = true) {v w : Value}
    (hv : d.held? = some v) (hw : e.held? = some w) (hd : ofHeld? d.kind v = some d) :
    ofHeld? e.kind w = some e := by
  cases d <;> cases e <;> simp only [same, Bool.false_eq_true, Bool.and_eq_true, beq_iff_eq] at h
  case literal p q =>
    obtain rfl := Option.some.inj hw
    cases q <;> rfl
  case list | record | optional | type =>
    obtain rfl := Option.some.inj hw
    rfl
  case file s t =>
    obtain rfl := Option.some.inj hw
    cases t <;> rfl
  case union ds es =>
    obtain rfl := Option.some.inj hv
    obtain rfl := Option.some.inj hw
    cases (sameAll_iff ds es).mp h with
    | nil => contradiction
    | @cons _ e _ es =>
      have halternatives := alternatives?_map (e :: es) 0
      simp only [List.map_cons] at halternatives
      simp [kind, ofHeld?, union?, Value.parts?, halternatives, Except.map, Except.toOption]
  case object fs gs =>
    obtain rfl := Option.some.inj hv
    obtain rfl := Option.some.inj hw
    have hnames := ((sameFields_iff fs gs).mp h).imp fun _ _ hfg => hfg.1
    have hfields := ofHeld?_object.mp hd
    exact ofHeld?_object.mpr (fields?_of_names hnames hfields)
  all_goals simp [held?] at hw

mutual

/-- Equal descriptors have room in the same places. -/
theorem fitsIn_of_same (toll : Toll) (room : Room) (d e : Descriptor) (h : d.same e = true) :
    d.fitsIn toll room = e.fitsIn toll room := by
  cases d <;> cases e <;> simp only [same, Bool.false_eq_true, Bool.and_eq_true, beq_iff_eq] at h
  case list d e | record d e | optional d e | type d e =>
    simp only [fitsIn, fun room => fitsIn_of_same toll room d e h]
  case object fs gs => simp only [fitsIn, fun room => fieldsFit_of_same toll room fs gs h]
  case union ds es => simp only [fitsIn, fun room => allFit_of_same toll room ds es h]
  all_goals rfl
termination_by structural d

theorem fieldsFit_of_same (toll : Toll) (room : Room) (fs gs : List (String × Descriptor))
    (h : sameFields fs gs = true) : fieldsFit toll room fs = fieldsFit toll room gs := by
  cases fs <;> cases gs <;>
    simp only [sameFields, Bool.false_eq_true, Bool.and_eq_true, beq_iff_eq] at h
  case nil => rfl
  case cons f fs g gs =>
    simp only [fieldsFit, fun room => fitsIn_of_same toll room f.2 g.2 h.1.2,
      fieldsFit_of_same toll room fs gs h.2]
termination_by structural fs

theorem allFit_of_same (toll : Toll) (room : Room) (ds es : List Descriptor)
    (h : sameAll ds es = true) : allFit toll room ds = allFit toll room es := by
  cases ds <;> cases es <;> simp only [sameAll, Bool.false_eq_true, Bool.and_eq_true] at h
  case nil => rfl
  case cons d ds e es =>
    simp only [allFit, fitsIn_of_same toll room d e h.1, allFit_of_same toll room ds es h.2]
termination_by structural ds

end

mutual

/-- Equal descriptors are made of equally many. -/
theorem left?_of_same (n : Nat) (d e : Descriptor) (h : d.same e = true) :
    d.left? n = e.left? n := by
  cases n with
  | zero => cases d <;> cases e <;> rfl
  | succ n =>
    cases d <;> cases e <;>
      simp only [same, Bool.false_eq_true, Bool.and_eq_true, beq_iff_eq] at h
    case list d e | record d e | optional d e | type d e => exact left?_of_same n d e h
    case object fs gs => exact leftOfFields?_of_same n fs gs h
    case union ds es => exact leftOfAll?_of_same n ds es h
    all_goals rfl
termination_by structural d

theorem leftOfFields?_of_same (n : Nat) (fs gs : List (String × Descriptor))
    (h : sameFields fs gs = true) : leftOfFields? fs n = leftOfFields? gs n := by
  cases fs <;> cases gs <;>
    simp only [sameFields, Bool.false_eq_true, Bool.and_eq_true, beq_iff_eq] at h
  case nil => rfl
  case cons f fs g gs =>
    simp only [leftOfFields?, left?_of_same n f.2 g.2 h.1.2,
      fun n => leftOfFields?_of_same n fs gs h.2]
termination_by structural fs

theorem leftOfAll?_of_same (n : Nat) (ds es : List Descriptor) (h : sameAll ds es = true) :
    leftOfAll? ds n = leftOfAll? es n := by
  cases ds <;> cases es <;> simp only [sameAll, Bool.false_eq_true, Bool.and_eq_true] at h
  case nil => rfl
  case cons d ds e es =>
    simp only [leftOfAll?, left?_of_same n d e h.1, fun n => leftOfAll?_of_same n ds es h.2]
termination_by structural ds

end

end Descriptor

namespace Value

/-- The values that schemas are made of apart from what they hold by reference: tags and names,
what literals expect, and descriptors without a field. -/
inductive IsFixed : Value → Prop where
  | null : IsFixed .null
  | primitive (p : Primitive) : IsFixed p.toValue
  | descriptor (d : Descriptor) : IsFixed (.descriptor d)

theorem equal_toValue (p q : Primitive) :
    p.toValue.equal q.toValue = decide (p.content = q.content) := by
  have hnumber (m n : Rat) : (Extended.finite m).same (.finite n) =
      decide ((.inl m : Rat ⊕ String) = .inl n) := by
    rw [Extended.same_finite]
    simp
  cases p with
  | string s =>
    cases q with
    | string t => exact (beq_eq_decide s t).trans (by simp [Primitive.content])
    | _ => rfl
  | _ =>
    cases q with
    | string t => rfl
    | _ => exact hnumber _ _

namespace IsFixed

variable {u v w : Value}

theorem plainEqual? (hv : v.IsFixed) (hw : w.IsFixed) : v.plainEqual? w = .ok (v.equal w) := by
  have hsignal : ∀ {u : Value}, u.IsFixed → u.isSignaling = false := by
    intro u hu
    cases hu with
    | primitive p => cases p <;> rfl
    | _ => rfl
  simp [Value.plainEqual?, hsignal hv, hsignal hw]

theorem equal_refl (hv : v.IsFixed) : v.equal v = true := by
  cases hv with
  | null => rfl
  | primitive p => simp [equal_toValue]
  | descriptor d => exact d.same_refl

/-- Fixed values that are equal are of one class. -/
theorem equal_cases (hv : v.IsFixed) (hw : w.IsFixed) (h : v.equal w = true) :
    (v = .null ∧ w = .null) ∨
      (∃ p q : Primitive, v = p.toValue ∧ w = q.toValue ∧ p.content = q.content) ∨
      ∃ d e : Descriptor, v = .descriptor d ∧ w = .descriptor e ∧ d.same e = true := by
  cases hv with
  | null =>
    cases hw with
    | null => exact .inl ⟨rfl, rfl⟩
    | primitive q => cases q <;> contradiction
    | descriptor => contradiction
  | primitive p =>
    cases hw with
    | primitive q =>
      rw [equal_toValue, decide_eq_true_eq] at h
      exact .inr (.inl ⟨p, q, rfl, rfl, h⟩)
    | _ => cases p <;> contradiction
  | descriptor d =>
    cases hw with
    | null => contradiction
    | primitive q => cases q <;> contradiction
    | descriptor e => exact .inr (.inr ⟨d, e, rfl, rfl, h⟩)

theorem equal_symm (hv : v.IsFixed) (hw : w.IsFixed) (h : v.equal w = true) :
    w.equal v = true := by
  rcases equal_cases hv hw h with ⟨rfl, rfl⟩ | ⟨p, q, rfl, rfl, hpq⟩ | ⟨d, e, rfl, rfl, hde⟩
  · rfl
  · simp [equal_toValue, hpq]
  · exact Descriptor.same_symm d e hde

theorem equal_trans (hu : u.IsFixed) (hv : v.IsFixed) (hw : w.IsFixed) (h : u.equal v = true)
    (k : v.equal w = true) : u.equal w = true := by
  rcases equal_cases hu hv h with ⟨rfl, rfl⟩ | ⟨p, q, rfl, rfl, hpq⟩ | ⟨d, e, rfl, rfl, hde⟩
  · exact k
  · rcases equal_cases hv hw k with ⟨hnull, -⟩ | ⟨q', r, hq, rfl, hqr⟩ | ⟨d, e, hd, -⟩
    · cases q <;> contradiction
    · rw [← Primitive.toValue_injective hq] at hqr
      simp [equal_toValue, hpq, hqr]
    · cases q <;> contradiction
  · rcases equal_cases hv hw k with ⟨hnull, -⟩ | ⟨q, r, hq, -⟩ | ⟨e', f, he, rfl, hef⟩
    · contradiction
    · cases q <;> contradiction
    · rw [← Value.descriptor.inj he] at hef
      exact Descriptor.same_trans d e f hde hef

end IsFixed

end Value

end DataSchema
