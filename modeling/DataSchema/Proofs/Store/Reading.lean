import DataSchema.Proofs.Levels
import DataSchema.Store.Check

/-!
What fails before a check enters a level does not fail for want of levels: a descriptor whose field
was altered may hold what no rule can be read from, but reading it enters none.
-/

namespace DataSchema

theorem not_lacksLevels_isAlteredLiteral? (expected v : Value) :
    ¬LacksLevels (Store.isAlteredLiteral? expected v) := by
  unfold Store.isAlteredLiteral?
  split <;> try exact not_lacksLevels_ok _
  all_goals
    unfold Value.plainEqual?
    split
    · simp [Error.family]
    · exact not_lacksLevels_ok _

theorem not_lacksLevels_fileShapeOf? (tag : Value) :
    ¬LacksLevels (Descriptor.fileShapeOf? tag) := by
  have hliteral : ¬LacksLevels (Descriptor.literal? tag) := by
    unfold Descriptor.literal?
    split <;> simp [Error.family]
  unfold Descriptor.fileShapeOf?
  split
  · exact not_lacksLevels_ok _
  · exact not_lacksLevels_ok _
  · simp [Error.family]
  · dsimp only
    split
    · exact mt lacksLevels_error.mp (by decide)
    · exact not_lacksLevels_bind hliteral fun _ => not_lacksLevels_ok _

namespace Store

variable (store : Store)

theorem not_lacksLevels_hashableWithin (depth calls : Nat) (r : Ref) :
    ¬LacksLevels (store.hashableWithin depth calls r) := by
  induction depth generalizing calls r with
  | zero => simp [hashableWithin, Error.family]
  | succ depth ih =>
    unfold hashableWithin
    split
    · split
      · exact not_lacksLevels_ok _
      · simp [Error.family]
    · exact sequential_lacksLevels.forM fun x _ => ih calls x
    · split
      · simp [Error.family]
      · exact ih _ _
    · simp [Error.family]

theorem not_lacksLevels_pair? (part : Part) : ¬LacksLevels (store.pair? part) := by
  unfold pair?
  split <;> simp [Error.family]

theorem not_lacksLevels_fieldOf? (part : Part) : ¬LacksLevels (store.fieldOf? part) := by
  apply not_lacksLevels_bind (store.not_lacksLevels_pair? part)
  rintro ⟨name, d⟩
  cases name with
  | held r =>
    apply not_lacksLevels_bind (store.not_lacksLevels_hashableWithin _ _ r)
    exact fun _ => not_lacksLevels_ok _
  | loose v => exact not_lacksLevels_ok _

theorem not_lacksLevels_kindOf? (d : Subject) : ¬LacksLevels (store.kindOf? d) := by
  unfold kindOf?
  split
  · split <;> simp [Error.family]
  · exact not_lacksLevels_ok _
  · exact not_lacksLevels_ok _
  · simp [Error.family]

theorem not_lacksLevels_fileShape? (tag : Ref) : ¬LacksLevels (store.fileShape? tag) := by
  unfold fileShape?
  dsimp only
  split
  · exact not_lacksLevels_fileShapeOf? _
  · apply not_lacksLevels_bind (store.not_lacksLevels_hashableWithin _ _ _)
    exact fun _ => not_lacksLevels_fileShapeOf? _

theorem not_lacksLevels_derived? (d : Subject) : ¬LacksLevels (store.derived? d) := by
  unfold derived?
  split
  · split
    · split <;> simp [Error.family]
    · rw [lacksLevels_map]
      exact store.not_lacksLevels_fileShape? _
    · exact not_lacksLevels_ok _
    · exact not_lacksLevels_ok _
  · exact not_lacksLevels_ok _
  · exact not_lacksLevels_ok _

/-- What cannot be read of a form is not for want of levels. -/
def Form.NeverLacksLevels : Form → Prop
  | .object (.ok fields) => ∀ field ∈ fields, ¬LacksLevels field
  | .object fields => ¬LacksLevels fields
  | .broken cause => cause.family ≠ .nesting
  | _ => True

theorem formOf_neverLacksLevels (kind : Kind) (held : Ref) :
    (store.formOf kind held).NeverLacksLevels := by
  unfold formOf
  cases kind with
  | object =>
    cases store.parts? held with
    | none => exact mt lacksLevels_error.mp (by decide)
    | some parts =>
      intro field hfield
      obtain ⟨part, -, rfl⟩ := List.mem_map.mp hfield
      exact store.not_lacksLevels_fieldOf? part
  | union =>
    cases store.parts? held with
    | none => exact (by decide : Error.notIterable.family ≠ .nesting)
    | some parts => exact trivial
  | _ => exact trivial

theorem form_neverLacksLevels (d : Subject) : (store.form d).NeverLacksLevels := by
  have hbroken : (Form.broken (.noAttribute "id")).NeverLacksLevels := by
    simp [Form.NeverLacksLevels, Error.family]
  cases d with
  | object r =>
    simp only [form]
    split
    · exact store.formOf_neverLacksLevels _ _
    · exact trivial
    · exact hbroken
  | shape d =>
    cases d with
    | object fields =>
      intro field hfield
      obtain ⟨⟨name, e⟩, -, rfl⟩ := List.mem_map.mp hfield
      exact not_lacksLevels_ok _
    | _ => exact trivial
  | orAbsent inner => exact trivial
  | nothing => exact hbroken

end Store

end DataSchema
