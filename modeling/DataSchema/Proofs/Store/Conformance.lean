import DataSchema.Proofs.Store.Configuration

/-!
Objects that are descriptors tell of themselves what the shape of configurations asks for, whatever
the descriptors are that they hold.
-/

namespace DataSchema

namespace Value

/-- A check comes to nothing in what has no elements and no entries. -/
theorem everywhere_of_none {p : Value → Bool} {v : Value} (helements : v.elements? = none)
    (hentries : v.entries? = none) (h : p v = true) : v.everywhere p = true := by
  cases v with
  | list | tuple => contradiction
  | dict | view => contradiction
  | _ => exact h

end Value

namespace Store

variable {store : Store}

theorem fitsFloat_face (hproper : store.Proper) {v : Ref} (h : (store.face v).fitsFloat = true) :
    (store.face v).everywhere Value.fitsFloat = true := by
  unfold face at h ⊢
  cases hcell : store.cell v with
  | plain u =>
    rw [hcell] at h
    have hplain := hproper.plain hcell
    exact Value.everywhere_of_none hplain.elements? hplain.entries? h
  | _ => rfl

/-- If all fractions fit that a check can come to, then so do those in the values that an object
shows. -/
theorem fitsFloat_unroll (hproper : store.Proper) {v : Ref}
    (h : store.Everywhere Value.fitsFloat v) (n : Nat) :
    (store.unroll n v).everywhere Value.fitsFloat = true := by
  obtain ⟨Q, hQ, hwhole, hfits⟩ := h
  induction n generalizing v with
  | zero => exact fitsFloat_face hproper (hfits v hQ)
  | succ n ih =>
    unfold unroll
    cases hcell : store.cell v with
    | list items | tuple items =>
      have helements : store.elements? v = some items := by simp only [elements?, hcell]
      simp only [Value.everywhere, Value.fitsFloat, Bool.true_and]
      refine (Value.everywhereAll_iff _).mpr fun w hw => ?_
      obtain ⟨x, hx, rfl⟩ := List.mem_map.mp hw
      exact ih (hwhole.elements? hQ helements x hx)
    | dict entries | view entries =>
      have hentries : store.entries? v = some entries := by simp only [entries?, hcell]
      simp only [Value.everywhere, Value.fitsFloat, Bool.true_and]
      refine (Value.everywhereEntries_iff _).mpr fun shown hshown => ?_
      obtain ⟨entry, hentry, rfl⟩ := List.mem_map.mp hshown
      exact ih (hwhole.entries? hQ hentries entry hentry)
    | plain | set | descriptor => exact fitsFloat_face hproper (hfits v hQ)

/-- A descriptor of the fifteen variants that is a tree is the tree of one. -/
theorem IsVariant.tree (hproper : store.Proper) {r : Ref} (hr : store.IsVariant r)
    {d : Descriptor} (hd : store.descriptorTree? r = some d) : d.IsVariant := by
  rcases hproper.cell_of_descriptorTree? hd with ⟨hcell, -⟩ | ⟨held, -, -, hheld⟩
  · cases hr with
    | @leaf e hplain hfield hbuilt =>
      obtain rfl := Value.descriptor.inj (Cell.plain.inj (hplain.symm.trans hcell))
      cases e with
      | outsider => exact hbuilt
      | _ => trivial
    | literal h | list h | record h | optional h | type h | object h | union h | file _ h =>
      rw [hcell] at h
      contradiction
  · cases d with
    | outsider => contradiction
    | _ => trivial

variable {settings : Settings} {levels : Nat}

/-- Three levels are enough to see that the configuration of an object is one of its kind, if the
object in its field is in the store. -/
theorem checkConfiguration_eq (hproper : store.Proper)
    (hlevels : settings.depth.limit.levels = some levels) (hthree : 3 ≤ levels) {r : Ref}
    (hr : store.IsVariant r) (hin : ∀ x ∈ (store.cell r).refs, x < store.cells.size) :
    store.checkConfiguration settings r = .ok true := by
  unfold checkConfiguration
  split
  · next d hd => exact DataSchema.checkConfiguration_eq hlevels hthree (hr.tree hproper hd)
  · obtain ⟨kind, hkind⟩ := Option.isSome_iff_exists.mp hr.kind?
    obtain ⟨v, store', hrun, hflat, htells⟩ := Build.configuration_yields hproper hr hkind
    have hproper' : store'.Proper := Build.configuration_keeps r store hproper (v, store') hrun
    have hfits := fitsFloat_unroll hproper' (hflat.everywhere hproper')
      (settings.depth.limit.bound + 2)
    have hvalid := validate_configuration hlevels hthree hfits (htells hin _)
    obtain ⟨⟨ok, issues⟩, hresult, rfl⟩ := exists_of_map_eq_ok hvalid
    have hreads : store'.Reads (.shape (.configurationShape kind)) (.configurationShape kind) := rfl
    have hwalk : store'.runCheck settings .silent (.shape (.configurationShape kind)) v =
        .ok (true, issues) := by
      rw [← hresult]
      exact congrFun (check_shows hproper' settings.depth.limit hreads
        (shows_unroll hproper' (settings.depth.limit.bound + 2) v) [] []) #[]
    rw [kindOf?_of_kind? hkind]
    simp only [bind, Except.bind] at hrun ⊢
    rw [hrun]
    dsimp only
    rw [hwalk]
    rfl

end Store

end DataSchema
