import DataSchema.Descriptor.Shape

/-!
A descriptor holds what it was made of: the value in the field of a descriptor that a builder made
is the value that it was given.
-/

namespace DataSchema.Descriptor

theorem eq_descriptor_of_child? {kind : Kind} {role : String} {v : Value} {d : Descriptor}
    (h : child? kind role v = .ok d) : v = .descriptor d := by
  cases v with
  | descriptor e => exact congrArg Value.descriptor (Except.ok.inj h)
  | _ => simp [child?] at h

theorem eq_of_child?_map {kind : Kind} {role : String} {v : Value} {f : Descriptor → Descriptor}
    {d : Descriptor} (h : ((child? kind role v).map f).toOption = some d) :
    ∃ e, v = .descriptor e ∧ d = f e := by
  cases hchild : child? kind role v with
  | error e => simp [hchild, Except.map, Except.toOption] at h
  | ok e =>
    rw [hchild] at h
    exact ⟨e, eq_descriptor_of_child? hchild, (Option.some.inj h).symm⟩

theorem eq_toValue_of_literal? {v : Value} {d : Descriptor} (h : literal? v = .ok d) :
    ∃ p : Primitive, v = p.toValue ∧ d = .literal p := by
  unfold literal? at h
  split at h
  · next x => exact ⟨.float x, rfl, (Except.ok.inj h).symm⟩
  · contradiction
  · next b => exact ⟨.bool b, rfl, (Except.ok.inj h).symm⟩
  · next n => exact ⟨.int n, rfl, (Except.ok.inj h).symm⟩
  · next s => exact ⟨.string s, rfl, (Except.ok.inj h).symm⟩
  · contradiction

/-- What an object holds for one of its fields. -/
def heldField (field : String × Descriptor) : Value :=
  .tuple [.string field.1, .descriptor field.2]

theorem eq_heldField_of_field? {seen : List String} {item : Value} {field : String × Descriptor}
    (htuple : item.isTuple = true) (h : field? seen item = .ok field) : item = heldField field := by
  cases item with
  | tuple items =>
    simp only [field?, Value.parts?] at h
    split at h
    · next name v heq =>
      obtain rfl : items = [.string name, v] := Option.some.inj heq
      split at h
      · contradiction
      · cases hchild : child? .object ("field " ++ Text.quoted name) v with
        | error e => simp [hchild, Except.map] at h
        | ok d =>
          rw [hchild] at h
          obtain rfl := Except.ok.inj h
          rw [eq_descriptor_of_child? hchild]
          rfl
    · contradiction
    · contradiction
  | _ => simp [Value.isTuple] at htuple

theorem eq_map_of_fields? {seen : List String} {items : List Value}
    {fields : List (String × Descriptor)} (htuples : ∀ item ∈ items, item.isTuple = true)
    (h : fields? seen items = .ok fields) : items = fields.map heldField := by
  induction items generalizing seen fields with
  | nil =>
    obtain rfl := Except.ok.inj h
    rfl
  | cons item items ih =>
    rw [fields?] at h
    cases hfield : field? seen item with
    | error e => simp [hfield, bind, Except.bind] at h
    | ok field =>
      cases hrest : fields? (field.1 :: seen) items with
      | error e => simp [hfield, hrest, bind, Except.bind] at h
      | ok rest =>
        obtain rfl : field :: rest = fields := by
          simpa [hfield, hrest, bind, Except.bind, pure, Except.pure] using h
        have hitem := eq_heldField_of_field? (htuples item List.mem_cons_self) hfield
        rw [hitem, ih (fun x hx => htuples x (List.mem_cons_of_mem item hx)) hrest, List.map_cons]

theorem eq_map_of_alternatives? {position : Nat} {vs : List Value} {ds : List Descriptor}
    (h : alternatives? position vs = .ok ds) : vs = ds.map .descriptor := by
  induction vs generalizing position ds with
  | nil =>
    obtain rfl := Except.ok.inj h
    rfl
  | cons v vs ih =>
    rw [alternatives?] at h
    cases hchild : child? .union ("alternative " ++ Nat.repr position) v with
    | error e => simp [hchild, bind, Except.bind] at h
    | ok d =>
      cases hrest : alternatives? (position + 1) vs with
      | error e => simp [hchild, hrest, bind, Except.bind] at h
      | ok rest =>
        obtain rfl : d :: rest = ds := by
          simpa [hchild, hrest, bind, Except.bind, pure, Except.pure] using h
        rw [eq_descriptor_of_child? hchild, ih hrest, List.map_cons]

theorem object?_tuple (items : List Value) :
    object? (.tuple items) = (fields? [] items).map .object := by
  cases hfields : fields? [] items <;>
    simp [object?, fieldItems?, Value.entries?, Value.parts?, hfields, bind, Except.bind,
      Except.map, pure, Except.pure]

theorem held?_of_object {held : Value} {d : Descriptor} (h : ofHeld? .object held = some d) :
    d.kind = .object ∧ d.held? = some held := by
  cases held with
  | tuple items =>
    simp only [ofHeld?] at h
    split at h
    · next htuples =>
      rw [object?_tuple] at h
      cases hfields : fields? [] items with
      | error e => simp [hfields, Except.map, Except.toOption] at h
      | ok fields =>
        rw [hfields] at h
        obtain rfl := Option.some.inj h
        have hitems := eq_map_of_fields? (List.all_eq_true.mp htuples) hfields
        rw [hitems]
        exact ⟨rfl, rfl⟩
    · contradiction
  | _ => simp [ofHeld?] at h

theorem held?_of_union {held : Value} {d : Descriptor} (h : ofHeld? .union held = some d) :
    d.kind = .union ∧ d.held? = some held := by
  cases held with
  | tuple vs =>
    cases vs with
    | nil => simp [ofHeld?, union?, Value.parts?, Except.toOption] at h
    | cons v vs =>
      simp only [ofHeld?, union?, Value.parts?] at h
      cases hds : alternatives? 0 (v :: vs) with
      | error e => simp [hds, Except.map, Except.toOption] at h
      | ok ds =>
        rw [hds] at h
        obtain rfl := Option.some.inj h
        rw [eq_map_of_alternatives? hds]
        exact ⟨rfl, rfl⟩
  | _ => simp [ofHeld?] at h

/-- A descriptor that is made of a value is of the kind that it was made for, and holds the value
if descriptors of the kind have a field. -/
theorem held?_of_ofHeld? {kind : Kind} {held : Value} {d : Descriptor}
    (h : ofHeld? kind held = some d) (hfield : kind.field?.isSome = true) :
    d.kind = kind ∧ d.held? = some held := by
  cases kind with
  | literal =>
    cases hliteral : literal? held with
    | error e => simp [ofHeld?, make?, hliteral, Except.toOption] at h
    | ok e =>
      obtain ⟨p, rfl, rfl⟩ := eq_toValue_of_literal? hliteral
      obtain rfl : .literal p = d := by simpa [ofHeld?, make?, hliteral, Except.toOption] using h
      exact ⟨rfl, rfl⟩
  | list | record | optional | type =>
    obtain ⟨e, rfl, rfl⟩ := eq_of_child?_map h
    exact ⟨rfl, rfl⟩
  | object => exact held?_of_object h
  | union => exact held?_of_union h
  | file =>
    cases held with
    | null | string =>
      obtain rfl := Option.some.inj h
      exact ⟨rfl, rfl⟩
    | _ => simp [ofHeld?, make?, file?, Except.toOption] at h
  | _ => simp [Kind.field?] at hfield

/-! ### What builders build -/

theorem fieldsBuilt_iff (fields : List (String × Descriptor)) :
    FieldsBuilt fields ↔ ∀ field ∈ fields, field.2.IsBuilt := by
  induction fields with
  | nil => simp [FieldsBuilt]
  | cons field fields ih => simp [FieldsBuilt, ih]

theorem allBuilt_iff (ds : List Descriptor) : AllBuilt ds ↔ ∀ d ∈ ds, d.IsBuilt := by
  induction ds with
  | nil => simp [AllBuilt]
  | cons d ds ih => simp [AllBuilt, ih]

theorem isBuilt_fileShape (tag : Option String) : (fileShape tag).IsBuilt := by
  have hnames : ["name", "length", "mimeType", "dataUrl", "type"].Nodup := by decide
  have hcategory : ∀ category : Descriptor, category.IsBuilt → IsBuilt (object
      [("name", string), ("length", number), ("mimeType", string), ("dataUrl", string),
        ("type", category)]) :=
    fun category h => ⟨hnames, trivial, trivial, trivial, trivial, h, trivial⟩
  unfold fileShape
  apply hcategory
  cases tag with
  | none => trivial
  | some t => cases admitsAnyCategory (some t) <;> exact trivial

/-- Shapes that are derived are built if what derives them is. -/
theorem IsBuilt.derived {d shape : Descriptor} (h : d.IsBuilt) (hd : d.derived? = some shape) :
    shape.IsBuilt := by
  cases d with
  | optional inner =>
    obtain rfl := Option.some.inj hd
    exact ⟨by simp, h, trivial, trivial⟩
  | file tag =>
    obtain rfl := Option.some.inj hd
    exact isBuilt_fileShape tag
  | image =>
    obtain rfl := Option.some.inj hd
    exact ⟨by simp, trivial, trivial⟩
  | _ => simp [derived?] at hd

end DataSchema.Descriptor
