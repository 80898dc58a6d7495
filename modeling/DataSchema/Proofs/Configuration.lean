import DataSchema.Proofs.Extension
import DataSchema.Proofs.Totality

/-!
What descriptors tell about themselves. Main statement: the configuration of each descriptor of the
fifteen variants is one of its kind, and three levels are enough to find that out.
-/

namespace DataSchema

namespace Descriptor

/-- A descriptor of the fifteen variants. Of the descriptors in it nothing is asked. -/
def IsVariant : Descriptor → Prop
  | outsider _ _ _ => False
  | _ => True

/-- What builders return, and what descriptors are wrapped in. -/
inductive Made : Descriptor → Prop where
  | make {kind : Kind} {v : Value} {d : Descriptor} (h : make? kind v = .ok d) : Made d
  | extend {fields : List (String × Descriptor)} {extra : Value} {d : Descriptor}
    (h : extend? fields extra = .ok d) : Made d
  | optional (d : Descriptor) : Made (.optional d)
  | listed (d : Descriptor) : Made (.list d)

theorem eq_tag_of_file? {v : Value} {d : Descriptor} (h : file? v = .ok d) :
    ∃ tag : Option String, v = (tag.map .string).getD .null ∧ d = .file tag := by
  unfold file? at h
  split at h
  · exact ⟨none, rfl, (Except.ok.inj h).symm⟩
  · next tag => exact ⟨some tag, rfl, (Except.ok.inj h).symm⟩
  · contradiction

/-- Builders return no others. -/
theorem isVariant_of_make? {kind : Kind} {v : Value} {d : Descriptor} (h : make? kind v = .ok d) :
    d.IsVariant := by
  cases kind with
  | literal =>
    obtain ⟨p, -, rfl⟩ := eq_toValue_of_literal? h
    trivial
  | object =>
    obtain ⟨fields, rfl⟩ := exists_of_object? h
    trivial
  | union =>
    simp only [make?, union?] at h
    split at h
    · contradiction
    · contradiction
    · obtain ⟨ds, -, rfl⟩ := exists_of_map_eq_ok h
      trivial
  | file =>
    obtain ⟨tag, -, rfl⟩ := eq_tag_of_file? h
    trivial
  | list | record | optional | type =>
    obtain ⟨c, -, rfl⟩ := exists_of_map_eq_ok h
    trivial
  | _ =>
    obtain rfl := Except.ok.inj h
    trivial

theorem Made.isVariant {d : Descriptor} (h : d.Made) : d.IsVariant := by
  cases h with
  | make h => exact isVariant_of_make? h
  | extend h =>
    obtain ⟨written, -, h⟩ := exists_of_bind_eq_ok h
    obtain ⟨merged, rfl⟩ := exists_of_object? h
    trivial
  | optional | listed => trivial

theorem height_configurationShape (kind : Kind) : (configurationShape kind).height ≤ 3 := by
  cases kind <;> decide

/-- What a literal may expect is among the alternatives of its configuration. -/
theorem accepts_primitive (p : Primitive) : Accepts (configurationShape .literal) p.toValue := by
  cases p <;> simp [configurationShape, Accepts, AcceptsSome, Primitive.toValue, Value.real?]

/-- A configuration has what the shape of configurations asks for. -/
theorem accepts_configuration {d : Descriptor} (h : d.IsVariant) :
    Accepts (configurationShape d.kind) d.configuration := by
  cases d with
  | literal p => exact accepts_primitive p
  | object fields =>
    refine ⟨_, rfl, fun entry hentry => ?_⟩
    obtain ⟨field, -, rfl⟩ := List.mem_map.mp hentry
    exact ⟨⟨field.1, rfl⟩, trivial⟩
  | file tag =>
    refine ⟨_, rfl, ?_, trivial⟩
    rw [accepts_orAbsent_string]
    cases tag with
    | none => exact .inl (Value.entryOrNull_self "type" .null)
    | some t => exact .inr ⟨t, Value.entryOrNull_self "type" (.string t)⟩
  | list | record | optional => exact ⟨_, rfl, trivial, trivial⟩
  | union => exact ⟨_, rfl, fun _ _ => trivial⟩
  | type => trivial
  | outsider => exact h.elim
  | _ => rfl

end Descriptor

section

variable {settings : Settings} {levels : Nat} (hlevels : settings.depth.limit.levels = some levels)
  (hthree : 3 ≤ levels)
include hlevels hthree

/-- Three levels are enough for the engine to see that a value is a configuration. -/
theorem validate_configuration {kind : Kind} {v : Value}
    (hfits : v.everywhere Value.fitsFloat = true)
    (hv : Accepts (Descriptor.configurationShape kind) v) :
    validate settings (.configurationShape kind) v = .ok true := by
  have hheight := Nat.le_trans (Descriptor.height_configurationShape kind) hthree
  obtain ⟨ok, hok, hiff⟩ :=
    validate_answers hlevels (Descriptor.isBuilt_configurationShape kind) hheight hfits
  rw [hok, hiff.mpr hv]

theorem checkConfiguration_eq {d : Descriptor} (h : d.IsVariant) :
    checkConfiguration settings d = .ok true :=
  validate_configuration hlevels hthree (Descriptor.fitsFloat_configuration d)
    (Descriptor.accepts_configuration h)

end

end DataSchema
