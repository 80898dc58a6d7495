import DataSchema.Proofs.Distinction
import DataSchema.Proofs.Store.Extension

/-!
Objects that are made of what lists fields. What is no such list is refused, and the refusal is
about a descriptor as long as its message can be made. An object shows its fields in four ways, each
of which lists them as they were given, so that an equal object can be made of it.
-/

namespace DataSchema

/-- A refusal comes out as it is, or as what keeps its message from being made. -/
theorem Error.phrased_cases (cause : Error) :
    cause.phrased = cause ∧ (∀ v ∈ cause.shown?, v.muted? = none) ∨
      ∃ v ∈ cause.shown?, v.muted? = some cause.phrased := by
  unfold Error.phrased
  cases hshown : cause.shown? with
  | none => exact .inl ⟨rfl, nofun⟩
  | some v =>
    cases hmuted : v.muted? with
    | none =>
      refine .inl ⟨by simp [hmuted], ?_⟩
      rintro w ⟨⟩
      exact hmuted
    | some e => exact .inr ⟨v, rfl, by simp [hmuted]⟩

namespace Store

variable {store : Store} {r x : Ref} {fields others : List (String × Ref)}

/-! ### What lists fields -/

theorem Named.unique {entries : List (Ref × Ref)} (h : store.Named entries fields)
    (h' : store.Named entries others) : fields = others := by
  have hall := forall₂_trans h.flip h'
  rw [← List.forall₂_eq_eq_eq]
  refine hall.imp fun field other => ?_
  rintro ⟨entry, ⟨hkey, hheld⟩, hkey', hheld'⟩
  have hname : field.1 = other.1 := by simpa [hkey] using hkey'
  exact Prod.ext hname (hheld.symm.trans hheld')

theorem IsField.unique {part : Part} {field other : String × Ref} (h : store.IsField part field)
    (h' : store.IsField part other) : field = other := by
  obtain ⟨key, hpair, hkey⟩ := h
  obtain ⟨key', hpair', hkey'⟩ := h'
  obtain ⟨rfl, hheld⟩ : key = key' ∧ field.2 = other.2 := by simpa [hpair] using hpair'
  have hname : field.1 = other.1 := by simpa [hkey] using hkey'
  exact Prod.ext hname hheld

/-- An object lists fields in no more than one way. -/
theorem Lists.unique (h : store.Lists r fields) (h' : store.Lists r others) : fields = others := by
  cases h with
  | entries hentries hnamed =>
    cases h' with
    | entries hentries' hnamed' =>
      obtain rfl := Option.some.inj (hentries.symm.trans hentries')
      exact hnamed.unique hnamed'
    | parts hnone => simp [hentries] at hnone
  | parts hnone hparts hpairs =>
    cases h' with
    | entries hentries' => simp [hnone] at hentries'
    | parts hnone' hparts' hpairs' =>
      obtain rfl := Option.some.inj (hparts.symm.trans hparts')
      have hall := forall₂_trans hpairs.flip hpairs'
      rw [← List.forall₂_eq_eq_eq]
      refine hall.imp fun field other => ?_
      rintro ⟨part, hfield, hother⟩
      exact IsField.unique hfield hother

/-- What can be walked over is shown as such. -/
theorem parts?_sketch_object (store : Store) (r : Ref) :
    (Build.sketch store .object r).parts?.isSome = (store.parts? r).isSome := by
  cases hentries : store.entries? r with
  | none => rw [parts?_sketch hentries, Option.isSome_map]
  | some entries =>
    have hparts : (store.parts? r).isSome = true := by
      unfold entries? at hentries
      unfold parts?
      cases hcell : store.cell r with
      | dict | view => rfl
      | _ => simp [hcell] at hentries
    simp only [Build.sketch, hentries, Value.parts?, hparts, Option.isSome_some]

/-- The children of an object are its fields. -/
theorem HasFields.branches? (h : store.HasFields r fields) : store.branches? r =
    .ok (fields.map fun field => .ok (.string field.1, .held field.2)) := by
  obtain ⟨held, items, hcell, hheld, hitems⟩ := h.held
  simp only [Store.branches?, hcell, partList?, parts?, hheld, bind, Except.bind, List.map_map]
  refine congrArg Except.ok (map_eq_of_forall₂ hitems fun item field => ?_)
  rintro ⟨key, hitem, hkey⟩
  have hpair : store.pair? (.held item) = .ok (.held key, .held field.2) :=
    pair?_of_parts? (by simp [partsOf?, parts?, hitem])
  have hname : store.valueOf (.held key) = .string field.1 := depicts_tree.plain hkey
  simp only [Function.comp_apply, hpair, hname]
  rfl

end Store

namespace Build

open Store (Lists AreFields HasFields IsFieldPair)

variable {store : Store} {r x : Ref} {fields : List (String × Ref)}

/-! ### Refusals -/

/-- What the builder refuses is not made, and the refusal comes out. -/
theorem run_make_of_refused {cause : Error}
    (h : Descriptor.object? (sketch store .object x) = .error cause) :
    (make .object x).run store = .error cause.phrased := by
  have hmake : Descriptor.make? .object (sketch store .object x) = .error cause := h
  have hexamine : (examine .object x).run store = .error cause.phrased := by
    simp only [examine, answer, StateT.run_bind, StateT.run_get, pure_bind, hmake]
    rfl
  rw [make, StateT.run_bind, hexamine]
  rfl

/-! ### Views of an object -/

/-- The children of a descriptor as pairs of their keys and of themselves. -/
def children (r : Ref) : Build Ref := do
  let branches ← ofExcept ((← get).branches? r)
  add (.tuple (← branches.mapM fun branch => do
    let (key, part) ← ofExcept branch
    pair (← plain key) (← settle part)))

/-- What shows the fields of an object: its field, its configuration, its shape, its children. -/
def views (r : Ref) : List (Build Ref) :=
  [member r "fields", member r "configuration", member r "shape", children r]

/-- A tuple of new pairs for fields. -/
def listing (fields : List (String × Ref)) : Build Ref := do
  add (.tuple (← fields.mapM fun field => do pair (← text field.1) field.2))

theorem listing_keeps (fields : List (String × Ref)) : Keeps (listing fields) := by
  refine Keeps.bind (Keeps.sequential.mapM fun field _ => ?_) fun items => tuple_keeps items
  exact (text_keeps field.1).bind fun key => pair_keeps key field.2

theorem listing_yields (store : Store) (fields : List (String × Ref)) :
    (listing fields).Yields store fun v final => store.Precedes final ∧ final.Lists v fields := by
  have hsame : Lasting fun (_ : Store) (field field' : String × Ref) => field = field' :=
    fun _ _ _ _ _ heq => heq
  have hpairs : List.Forall₂ (fun field field' => field = field') fields fields :=
    List.forall₂_same.mpr fun _ _ => rfl
  have hitems : (fields.mapM fun field => do pair (← text field.1) field.2 :
      Build (List Ref)).Yields store fun items store' =>
        store.Precedes store' ∧ List.Forall₂ store'.IsFieldPair items fields := by
    refine mapM_yields hsame Store.lasting_isFieldPair ?_ hpairs
    rintro store field _ rfl
    have hgrown := Store.Precedes.add store (.plain (.string field.1))
    have hname := store.cell_add_size (.plain (.string field.1))
    obtain ⟨x, store', hrun, hgrown', hx⟩ := pair_yields (d := field.2) hname
    exact ⟨x, store', hrun, hgrown.trans hgrown', hx⟩
  obtain ⟨v, final, hrun, hgrown, -, items, hcell, hitems⟩ := tuple_yields hitems
  exact ⟨v, final, hrun, hgrown, .of_tuple hcell hitems⟩

/-- The children of an object are put down as its fields would be. -/
theorem run_children (h : store.HasFields r fields) :
    (children r).run store = (listing fields).run store := by
  unfold children listing
  rw [StateT.run_bind, StateT.run_get, pure_bind, h.branches?]
  -- No branch fails to be read, so that what is left is to put the pairs down.
  show ((fields.map _).mapM _ >>= fun items => add (.tuple items)).run store = _
  rw [List.mapM_map]
  rfl

/-- An object tells its fields, and shows them in its configuration and in its shape. -/
theorem run_member {held : Ref} (hcell : store.cell r = .descriptor .object held) :
    (member r "fields").run store = .ok (held, store) ∧
      (member r "configuration").run store =
        (do add (.dict (← fieldEntries held)) : Build Ref).run store ∧
      (member r "shape").run store =
        (do add (.view (← fieldEntries held)) : Build Ref).run store := by
  have hface : store.face r = .altered .object .null := by rw [Store.face, hcell]; rfl
  have hown (name : String) (hvalue : name ≠ "value") (hname : name ≠ "name") :
      (member r name).run store = (ownMember r .object name).run store := by
    unfold member
    rw [StateT.run_bind, StateT.run_get, pure_bind, hface]
    split
    · contradiction
    · contradiction
    · rfl
  refine ⟨?_, ?_, ?_⟩
  · rw [hown _ (by decide) (by decide)]
    unfold ownMember
    rw [StateT.run_bind, StateT.run_get, pure_bind, hcell]
    rfl
  · rw [hown _ (by decide) (by decide)]
    unfold ownMember configuration
    rw [StateT.run_bind, StateT.run_get, pure_bind, hcell]
    simp only [StateT.run_bind, StateT.run_get, pure_bind, hcell]
    rfl
  · rw [hown _ (by decide) (by decide)]
    unfold ownMember
    rw [StateT.run_bind, StateT.run_get, pure_bind, hcell]
    rfl

/-- What shows an object lists its fields in the order in which it has them. -/
theorem views_yield (hproper : store.Proper) (h : store.HasFields r fields) :
    ∀ view ∈ views r, view.Yields store fun v final =>
      final.Proper ∧ store.Precedes final ∧ final.Lists v fields := by
  obtain ⟨held, hcell, hlists⟩ := h.lists
  obtain ⟨hfield, hconfiguration, hshape⟩ := run_member hcell
  -- The configuration and the shape are two forms of a mapping with the same entries.
  have hmapping (put : List (Ref × Ref) → Cell)
      (hput : ∀ entries, put entries = .dict entries ∨ put entries = .view entries) :
      (do add (put (← fieldEntries held)) : Build Ref).Yields store fun v final =>
        final.Proper ∧ store.Precedes final ∧ final.Lists v fields := by
    refine ((fieldEntries_keeps held).bind fun entries => add_keeps ?_).yields hproper
      ((fieldEntries_named hlists h.nodup).bind ?_)
    · rcases hput entries with heq | heq <;> rw [heq] <;> trivial
    · rintro entries store ⟨rfl, hentries⟩
      exact mapping_yields (hput entries) hentries
  simp only [views, List.mem_cons, List.not_mem_nil, or_false]
  rintro view (rfl | rfl | rfl | rfl)
  · exact ⟨held, store, hfield, hproper, .refl store, hlists⟩
  · obtain ⟨v, final, hrun, hpost⟩ := hmapping .dict fun entries => .inl rfl
    exact ⟨v, final, hconfiguration.trans hrun, hpost⟩
  · obtain ⟨v, final, hrun, hpost⟩ := hmapping .view fun entries => .inr rfl
    exact ⟨v, final, hshape.trans hrun, hpost⟩
  · obtain ⟨v, final, hrun, hpost⟩ := (listing_keeps fields).yields hproper
      (listing_yields store fields)
    exact ⟨v, final, (run_children h).trans hrun, hpost⟩

/-- What the builder says of an object decides whether one is made of it. -/
theorem cases_of_make (hproper : store.Proper) (x : Ref) :
    (∃ fields, store.Lists x fields ∧ store.AreFields fields ∧
      (make .object x).Yields store fun r store' =>
        store.Precedes store' ∧ store'.HasFields r fields) ∨
      ∃ cause, Descriptor.object? (sketch store .object x) = .error cause ∧
        (make .object x).run store = .error cause.phrased := by
  cases hobject : Descriptor.object? (sketch store .object x) with
  | ok d =>
    obtain ⟨fields, hlists, hfields⟩ := (Store.object?_sketch_iff hproper).mp ⟨d, hobject⟩
    exact .inl ⟨fields, hlists, hfields, make_yields hproper hlists hfields⟩
  | error cause => exact .inr ⟨cause, rfl, run_make_of_refused hobject⟩

/-- An object is refused if it cannot be walked over, and else in words about a descriptor. -/
theorem cases_of_refused (hproper : store.Proper) {e : Error}
    (h : (make .object x).run store = .error e) :
    store.parts? x = none ∧ e = .notIterable ∨
      (store.parts? x).isSome = true ∧ ∃ cause : Error,
        Descriptor.object? (sketch store .object x) = .error cause ∧
        cause.family = .descriptor ∧
        (e = cause ∧ (∀ v ∈ cause.shown?, v.muted? = none) ∨
          ∃ v ∈ cause.shown?, v.muted? = some e) := by
  rcases cases_of_make hproper x with ⟨fields, -, -, r, store', hrun, -⟩ | ⟨cause, hcause, hrun⟩
  · rw [h] at hrun
    contradiction
  · obtain rfl : e = cause.phrased := Except.error.inj (h.symm.trans hrun)
    have hparts := Store.parts?_sketch_object store x
    rcases Descriptor.cases_of_object? hcause with ⟨hnone, rfl⟩ | ⟨hsome, hfamily⟩
    · rw [hnone] at hparts
      exact .inl ⟨Option.not_isSome_iff_eq_none.mp (by simp [← hparts]), rfl⟩
    · exact .inr ⟨hparts ▸ hsome, cause, hcause, hfamily, cause.phrased_cases⟩

/-- An object that is made holds what is listed, and stores stay proper. -/
theorem made_of_lists (hproper : store.Proper) (hlists : store.Lists x fields) {store' : Store}
    (h : (make .object x).run store = .ok (r, store')) :
    store'.Proper ∧ store.Precedes store' ∧ store'.HasFields r fields := by
  refine ⟨make_keeps rfl x store hproper (r, store') h, ?_⟩
  rcases cases_of_make hproper x with ⟨others, hothers, -, r', store'', hrun, hmade⟩ | ⟨_, -, hrun⟩
  · obtain rfl := hlists.unique hothers
    obtain ⟨rfl, rfl⟩ := Prod.mk.inj (Except.ok.inj (h.symm.trans hrun))
    exact hmade
  · rw [h] at hrun
    contradiction

/-- Whatever lists the fields of an object in a store that has grown makes an equal one. -/
theorem make_again_yields (hr : store.HasFields r fields) {final : Store} (hproper : final.Proper)
    (hlater : store.Precedes final) {v : Ref} (hv : final.Lists v fields) :
    (make .object v).Yields final fun again last =>
      final.Precedes last ∧ Workspace.equal? last again r = .ok true := by
  obtain ⟨again, last, hagain, hlast, hmade⟩ :=
    make_yields hproper hv (hr.toAreFields.lasts hlater)
  exact ⟨again, last, hagain, hlast, hmade.equal? (hr.lasts (hlater.trans hlast))⟩

end Build

namespace Store

/-- A list that holds the lists of a nest. -/
def nestInList (levels : Nat) : Store := ((nest levels).add (.list [levels + 1])).2

theorem nestInList_cells (levels : Nat) :
    (nestInList levels).cell (levels + 2) = .list [levels + 1] ∧
      ∀ i < levels + 2, (nestInList levels).cell i = (nest levels).cell i := by
  have hsize : (nest levels).cells.size = levels + 2 := by simp [nest]
  unfold nestInList
  constructor
  · rw [cell_add, hsize, if_pos rfl]
  · intro i hi
    rw [cell_add, hsize, if_neg (Nat.ne_of_lt hi)]

theorem nestInList_proper (levels : Nat) : (nestInList levels).Proper := by
  refine Proper.add (.of_mem (by simp [nest, absent]) fun cell hcell => ?_) trivial
  simp only [nest, List.mem_toArray, List.mem_cons, List.mem_map] at hcell
  rcases hcell with rfl | rfl | ⟨i, -, rfl⟩ <;> rfl

theorem nestInList_tree (levels : Nat) :
    (nestInList levels).tree (levels + 1) = .descriptor (nested levels) := by
  obtain ⟨-, hcells⟩ := nestInList_cells levels
  have htree : (nestInList levels).descriptorTree? (levels + 1) = some (nested levels) := by
    refine tree_of_nest ?_ (fun i hi => ?_) (Nat.le_refl levels)
    · exact hcells 1 (by omega)
    · exact (hcells (i + 2) (by omega)).trans (nest_cell hi)
  exact (descriptorTree?_eq_some.mp htree).2

/-- A message has room for lists within each other only if there are two calls for each. -/
theorem calls_of_nested {levels : Nat} {room : Room}
    (h : (nested levels).fitsIn .message room = true) : 2 * levels ≤ room.calls := by
  induction levels generalizing room with
  | zero => omega
  | succ levels ih =>
    simp only [nested, Descriptor.fitsIn, Option.any_eq_true] at h
    obtain ⟨rest, hrest, hfits⟩ := h
    have hle := ih hfits
    unfold Room.after? at hrest
    split at hrest
    · next hroom =>
      obtain rfl := Option.some.inj hrest
      simp only [Toll.message] at hle hroom
      omega
    · contradiction

theorem muted?_nested {levels : Nat} (h : 496 < levels) :
    (Value.descriptor (nested levels)).muted? = some .endless := by
  have hfits : (Value.descriptor (nested levels)).fits .message = false := by
    rw [← Bool.not_eq_true]
    intro hfits
    -- Of the 994 calls two are gone before a text is begun.
    have hroom : Toll.room? .message = some ⟨992, 9997⟩ := rfl
    simp only [Value.fits, hroom, Option.any_some, Value.fitsIn] at hfits
    have hle : 2 * levels ≤ 992 := calls_of_nested hfits
    omega
  rw [Value.muted?, hfits]
  rfl

end Store

end DataSchema
