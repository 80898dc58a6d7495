import DataSchema.Description.Data

/-!
Descriptions as trees over the children of descriptors, and how deep they go.
-/

namespace DataSchema.Descriptor

theorem describeFields_eq (fields : List (String × Descriptor)) :
    describeFields fields = fields.map fun field => (.key field.1, field.2.describe) := by
  induction fields with
  | nil => rfl
  | cons field fields ih => rw [describeFields, ih, List.map_cons]

theorem describeAll_eq (position : Nat) (ds : List Descriptor) :
    describeAll position ds =
      (ds.zipIdx position).map fun alternative =>
        (.index ↑alternative.2, alternative.1.describe) := by
  induction ds generalizing position with
  | nil => rfl
  | cons d ds ih => rw [describeAll, ih, List.zipIdx_cons, List.map_cons]

/-- A description tells of each child under its key. -/
theorem describe_eq (d : Descriptor) :
    d.describe = d.describeWith (d.children.map fun child => (child.1, child.2.describe)) := by
  cases d with
  | object fields =>
    rw [describe, describeFields_eq, children, List.map_map]
    rfl
  | union ds =>
    rw [describe, describeAll_eq, children, List.mapIdx_eq_zipIdx_map, List.map_map]
    rfl
  | _ => rfl

/-- The levels of descriptors in a descriptor. -/
def depth (d : Descriptor) : Nat := d.describe.levels false

theorem levelsOf_le {n : Nat} {children : List (Step × Description)} :
    Description.levelsOf false children ≤ n ↔ ∀ child ∈ children, child.2.levels false ≤ n := by
  induction children with
  | nil => simp [Description.levelsOf]
  | cons child children ih =>
    rw [Description.levelsOf, Nat.max_le, ih, List.forall_mem_cons]

theorem depth_le_succ {d : Descriptor} {n : Nat} :
    d.depth ≤ n + 1 ↔ ∀ child ∈ d.children, child.2.depth ≤ n := by
  rw [depth, describe_eq, describeWith, Description.levels, Nat.add_comm 1,
    Nat.add_le_add_iff_right]
  simp only [Bool.false_eq_true, if_false, Nat.zero_max, levelsOf_le, List.forall_mem_map]
  rfl

theorem depth_pos (d : Descriptor) : 0 < d.depth := by
  rw [depth, describe_eq, describeWith, Description.levels]
  omega

theorem depth_lt {d : Descriptor} {child : Step × Descriptor} (h : child ∈ d.children) :
    child.2.depth < d.depth := by
  obtain ⟨n, hn⟩ := Nat.exists_eq_add_one.mpr d.depth_pos
  have hle := depth_le_succ.mp (Nat.le_of_eq hn) child h
  omega

theorem depth_lt_of_only {d c : Descriptor} {key : Step} (h : d.children = [(key, c)]) :
    c.depth < d.depth :=
  @depth_lt d (key, c) (h ▸ List.mem_singleton_self _)

theorem depth_lt_of_field {fields : List (String × Descriptor)} {field : String × Descriptor}
    (h : field ∈ fields) : field.2.depth < (object fields).depth :=
  @depth_lt (object fields) (.key field.1, field.2) (List.mem_map.mpr ⟨field, h, rfl⟩)

theorem depth_lt_of_alternative {ds : List Descriptor} {d : Descriptor} (h : d ∈ ds) :
    d.depth < (union ds).depth := by
  obtain ⟨i, hlt, rfl⟩ := List.getElem_of_mem h
  exact @depth_lt (union ds) (.index i, ds[i]) (List.mem_mapIdx.mpr ⟨i, hlt, rfl⟩)

end DataSchema.Descriptor
