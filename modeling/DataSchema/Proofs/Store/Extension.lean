import DataSchema.Proofs.Store.Fields

/-!
Extended objects. An object that is extended holds its fields with the new ones laid over them: what
has a name of its own stays where it is or is replaced there, and the rest follows in order. To
extend twice is to extend once by the one mapping laid over the other, and what is validated by the
extension is validated by the fields that are left and by the new ones.
-/

namespace DataSchema

namespace Store

variable {store : Store} {r x : Ref} {fields others : List (String × Ref)}

/-- A tuple of the pairs of fields lists them. -/
theorem Lists.of_tuple {items : List Ref} (hcell : store.cell x = .tuple items)
    (hitems : List.Forall₂ store.IsFieldPair items fields) : store.Lists x fields := by
  have hentries : store.entries? x = none := by simp only [entries?, hcell]
  have hparts : store.parts? x = some (items.map .held) := by simp only [parts?, hcell]
  refine .parts hentries hparts (List.forall₂_map_left_iff.mpr (hitems.imp fun item field => ?_))
  rintro ⟨key, hitem, hkey⟩
  exact ⟨key, pair?_of_parts? (by simp [partsOf?, parts?, hitem]), hkey⟩

/-- What an object holds lists its fields. -/
theorem HasFields.lists (h : store.HasFields r fields) :
    ∃ held, store.cell r = .descriptor .object held ∧ store.Lists held fields := by
  obtain ⟨held, items, hcell, hheld, hitems⟩ := h.held
  exact ⟨held, hcell, .of_tuple hheld hitems⟩

/-- Builders see an object with the names of its fields. -/
theorem HasFields.assembled (hproper : store.Proper) (h : store.HasFields r fields) {held : Ref}
    (hcell : store.cell r = .descriptor .object held) : ∃ shown : List (String × Descriptor),
      Cell.assembleDescriptor .object (Build.sketch store .object held) =
        .descriptor (.object shown) ∧ shown.map (·.1) = fields.map (·.1) := by
  obtain ⟨held', hcell', hlists⟩ := h.lists
  obtain ⟨-, rfl⟩ := Cell.descriptor.inj (hcell.symm.trans hcell')
  obtain ⟨held', items, hcell', hheld, hitems⟩ := h.held
  obtain ⟨-, rfl⟩ := Cell.descriptor.inj (hcell.symm.trans hcell')
  obtain ⟨shown, hshown, hnames⟩ := hlists.shown hproper h.toAreFields
  have hobject : Descriptor.object? (Build.sketch store .object held) = .ok (.object shown) :=
    Descriptor.object?_eq_ok_iff.mpr ⟨shown, hshown, hnames ▸ h.nodup, rfl⟩
  have hsketch : Build.sketch store .object held =
      .tuple (items.map (Build.openedPair store)) := by
    simp only [Build.sketch, entries?, hheld, Build.opened]
  have htuples : (items.map (Build.openedPair store)).all (·.isTuple) = true := by
    rw [List.all_map, List.all_eq_true]
    intro item hitem
    obtain ⟨field, -, key, hpair, -⟩ := exists_of_mem_left hitems hitem
    simp only [Function.comp_apply, Build.openedPair, hpair]
    rfl
  rw [hsketch] at hobject ⊢
  refine ⟨shown, ?_, hnames⟩
  rw [Cell.assembleDescriptor, Descriptor.ofHeld?, if_pos htuples, hobject]
  rfl

/-- What lists descriptors under distinct names is shown to builders as an update of fields. -/
theorem Lists.updates (hproper : store.Proper) (h : store.Lists x others)
    (hothers : store.AreFields others) : ∃ shown : List (String × Descriptor),
      Descriptor.updates? (Build.sketch store .object x) = .ok (Descriptor.fieldEntries shown) ∧
        shown.map (·.1) = others.map (·.1) := by
  obtain ⟨shown, hshown, hnames⟩ := h.shown hproper hothers
  have hobject := Descriptor.object?_eq_ok_iff.mpr ⟨shown, hshown, hnames ▸ hothers.nodup, rfl⟩
  exact ⟨shown, Descriptor.updates?_of_object? hobject, hnames⟩

theorem AreFields.overlay (h : store.AreFields fields) (h' : store.AreFields others) :
    store.AreFields (overlay fields others) := by
  refine ⟨nodup_overlay h.nodup h'.nodup, fun field hfield => ?_⟩
  rcases (mem_overlay_iff h.nodup h'.nodup).mp hfield with hmem | hmem
  · exact h.kinds field (List.mem_of_mem_filter hmem)
  · exact h'.kinds field hmem

end Store

namespace Build

variable {store : Store} {r extra : Ref} {fields others further : List (String × Ref)}

/-- An object, extended by what lists further fields. -/
def extended (r extra : Ref) : Build Ref := do extend (← extensible r) extra

/-- A mapping with the entries of two others, the second laid over the first. -/
def spread (e f : Ref) : Build Ref := do add (.dict (← merge (← fieldEntries e) f))

theorem extended_yields (hproper : store.Proper) (hr : store.HasFields r fields)
    (hextra : store.Lists extra others) (hothers : store.AreFields others) :
    (extended r extra).Yields store fun x store' =>
      store.Precedes store' ∧ store'.HasFields x (overlay fields others) := by
  obtain ⟨held, hcell, hlists⟩ := hr.lists
  obtain ⟨shown, hshown, hnames⟩ := hr.assembled hproper hcell
  obtain ⟨update, hupdate, hnames'⟩ := hextra.updates hproper hothers
  have hextend := Descriptor.extend?_of_updates? (hnames ▸ hr.nodup) (hnames' ▸ hothers.nodup)
    hupdate
  have hheld : (extensible r).Yields store fun held' store' => held' = held ∧ store' = store := by
    refine yields_get ?_
    rw [hcell]
    exact yields_pure ⟨rfl, rfl⟩
  refine hheld.bind ?_
  rintro _ store ⟨rfl, rfl⟩
  refine yields_get ?_
  rw [hshown]
  have hread : (answer (Descriptor.extend? shown (sketch store .object extra))).Yields store
      fun _ store' => store' = store := answer_yields hextend rfl
  refine hread.bind ?_
  rintro - store rfl
  refine (fieldEntries_named hlists hr.nodup).bind ?_
  rintro entries store ⟨rfl, hentries⟩
  refine (merge_named hextra hothers.nodup hr.nodup hentries).bind ?_
  rintro merged store ⟨rfl, hmerged⟩
  exact object_yields (hr.toAreFields.overlay hothers) hmerged

/-- A mapping that is put down with entries under the names of fields lists these. -/
theorem mapping_yields {cell : Cell} {entries : List (Ref × Ref)}
    (hcell : cell = .dict entries ∨ cell = .view entries) (h : store.Named entries fields) :
    (add cell).Yields store fun m store' => store.Precedes store' ∧ store'.Lists m fields := by
  have hgrown := Store.Precedes.add store cell
  have hadded := store.cell_add_size cell
  refine add_yields ⟨hgrown, .entries ?_ (h.lasts hgrown)⟩
  rcases hcell with rfl | rfl
  · simp only [Store.entries?, hadded]
  · simp only [Store.entries?, hadded]

theorem spread_yields {e f : Ref} (he : store.Lists e others) (hothers : store.AreFields others)
    (hf : store.Lists f further) (hfurther : store.AreFields further) :
    (spread e f).Yields store fun m store' =>
      store.Precedes store' ∧ store'.Lists m (overlay others further) := by
  refine (fieldEntries_named he hothers.nodup).bind ?_
  rintro entries store ⟨rfl, hentries⟩
  refine (merge_named hf hfurther.nodup hothers.nodup hentries).bind ?_
  rintro merged store ⟨rfl, hmerged⟩
  exact mapping_yields (.inl rfl) hmerged

/-- An object extended by one mapping and then by another, and the object extended by the second
laid over the first. -/
def extendedBothWays (r e f : Ref) : Build (Ref × Ref) := do
  let twice ← extended (← extended r e) f
  let once ← extended r (← spread e f)
  return (twice, once)

/-- What an operation keeps holds where it succeeds. -/
theorem Keeps.yields {α : Type} {action : Build α} {Post : α → Store → Prop} (h : Keeps action)
    (hproper : store.Proper) (hyields : action.Yields store Post) :
    action.Yields store fun a store' => store'.Proper ∧ Post a store' := by
  obtain ⟨a, store', hrun, hpost⟩ := hyields
  exact ⟨a, store', hrun, h store hproper (a, store') hrun, hpost⟩

theorem extended_keeps (r extra : Ref) : Keeps (extended r extra) :=
  (extensible_keeps r).bind fun held => extend_keeps held extra

theorem spread_keeps (e f : Ref) : Keeps (spread e f) :=
  (fieldEntries_keeps e).bind fun entries => (merge_keeps entries f).bind fun _ => add_keeps trivial

/-- To extend twice is to extend once. -/
theorem extendedBothWays_yields (hproper : store.Proper) {e f : Ref}
    (hr : store.HasFields r fields) (he : store.Lists e others) (hothers : store.AreFields others)
    (hf : store.Lists f further) (hfurther : store.AreFields further) :
    (extendedBothWays r e f).Yields store fun both store' => store.Precedes store' ∧
      Workspace.equal? store' both.1 both.2 = .ok true := by
  refine ((extended_keeps r e).yields hproper (extended_yields hproper hr he hothers)).bind ?_
  rintro x store₁ ⟨hproper₁, h₁, hx⟩
  refine ((extended_keeps x f).yields hproper₁
    (extended_yields hproper₁ hx (hf.lasts h₁) (hfurther.lasts h₁))).bind ?_
  rintro twice store₂ ⟨hproper₂, h₂, htwice⟩
  have h₁₂ := h₁.trans h₂
  refine ((spread_keeps e f).yields hproper₂ (spread_yields (he.lasts h₁₂) (hothers.lasts h₁₂)
    (hf.lasts h₁₂) (hfurther.lasts h₁₂))).bind ?_
  rintro m store₃ ⟨hproper₃, h₃, hm⟩
  have h₁₃ := h₁₂.trans h₃
  refine (extended_yields hproper₃ (hr.lasts h₁₃) hm
    ((hothers.overlay hfurther).lasts h₁₃)).bind ?_
  rintro once store₄ ⟨h₄, honce⟩
  rw [overlay_overlay] at htwice
  exact yields_pure ⟨h₁₃.trans h₄, (htwice.lasts (h₃.trans h₄)).equal? honce⟩

end Build

namespace Store

/-- Where the fields that are left and the new ones are trees, the extension is one, too, and
validates what both validate. -/
theorem HasFields.conjoins {store : Store} {fields others : List (String × Ref)} {x s t : Ref}
    {settings : Settings} {left right : Descriptor} (hfields : (fields.map (·.1)).Nodup)
    (hx : store.HasFields x (overlay fields others))
    (hs : store.HasFields s (besides fields others)) (ht : store.HasFields t others)
    (hleft : store.descriptorTree? s = some left) (hright : store.descriptorTree? t = some right)
    (hbuilt : left.IsBuilt) (hbuilt' : right.IsBuilt) (hreach : settings.Reach left)
    (hreach' : settings.Reach right) :
    ∃ d, store.descriptorTree? x = some d ∧ d.Conjoins settings left right := by
  obtain ⟨hlefts, rfl⟩ := hs.descriptorTree?_iff.mp hleft
  obtain ⟨hrights, rfl⟩ := ht.descriptorTree?_iff.mp hright
  have hd : store.descriptorTree? x = some (.object ((overlay fields others).map fun field =>
      (field.1, store.treeOf field.2))) := by
    refine hx.descriptorTree?_iff.mpr ⟨fun field hfield => ?_, rfl⟩
    rcases (mem_overlay_iff hfields ht.nodup).mp hfield with hmem | hmem
    · exact hlefts field hmem
    · exact hrights field hmem
  have hnames : ((fields.map fun field => (field.1, store.treeOf field.2)).map (·.1)).Nodup := by
    rw [List.map_map]
    exact hfields
  refine ⟨_, hd, ?_⟩
  rw [map_besides] at hbuilt hreach ⊢
  rw [map_overlay]
  exact conjoins_overlay hnames hbuilt hbuilt' hreach hreach'

end Store

namespace Store

/-- An object of a number and of a list that holds itself, mappings of further fields, and the
objects of what they leave of it, of what they add and of both. -/
def extensions : Store := ⟨#[.plain .null, .plain (.descriptor .number),
  .plain (.descriptor .string), .plain (.descriptor .any), .plain (.string "a"),
  .plain (.string "b"), .plain (.string "c"), .descriptor .list 7, .tuple [4, 1], .tuple [5, 7],
  .tuple [8, 9], .descriptor .object 10, .dict [(5, 2), (6, 3)], .dict [(6, 7), (4, 2)],
  .tuple [8], .descriptor .object 14, .tuple [5, 2], .tuple [6, 3], .tuple [16, 17],
  .descriptor .object 18, .tuple [8, 16, 17], .descriptor .object 20]⟩

theorem extensions_proper : extensions.Proper := .of_mem rfl (by decide)

theorem extensions_areFields {fields : List (String × Ref)} (hnames : (fields.map (·.1)).Nodup)
    (h : ∀ field ∈ fields, field.2 ∈ [1, 2, 3, 7]) : extensions.AreFields fields := by
  refine ⟨hnames, fun field hfield => ?_⟩
  have hmem := h field hfield
  simp only [List.mem_cons, List.not_mem_nil, or_false] at hmem
  rcases hmem with heq | heq | heq | heq <;> rw [heq] <;> rfl

end Store

end DataSchema
