import DataSchema.Proofs.Comparison
import DataSchema.Proofs.Store.Interchange

/-!
Comparisons of schemas. Whether objects are compared as trees or part by part, and however much of
the room is left: a schema equals itself, and equality goes both ways and on from one to the next.
-/

namespace DataSchema

namespace Store

variable {store : Store} {x y z : Ref}

/-- An object that a schema is made of: a schema, a fixed value, or a tuple of such. -/
inductive Material (store : Store) : Ref → Prop where
  | schema {r : Ref} (h : store.IsSchema (.object r)) : Material store r
  | plain {r : Ref} {v : Value} (hcell : store.cell r = .plain v) (hv : v.IsFixed) :
    Material store r
  | tuple {r : Ref} {items : List Ref} (hcell : store.cell r = .tuple items)
    (h : ∀ x ∈ items, Material store x) : Material store r

/-- What the cell of an object that schemas are made of is like. -/
inductive Material.Cell (store : Store) (r : Ref) : Prop where
  | plain {v : Value} (hcell : store.cell r = .plain v) (hv : v.IsFixed)
  | tuple {items : List Ref} (hcell : store.cell r = .tuple items)
    (h : ∀ x ∈ items, store.Material x)
  | descriptor {kind : Kind} {held : Ref} (hcell : store.cell r = .descriptor kind held)
    (h : store.Material held)

theorem Fills.material {kind : Kind} {held : Ref}
    (h : store.Fills (fun u => store.IsSchema (.object u)) kind held) : store.Material held := by
  cases h with
  | literal h => exact .plain h (.primitive _)
  | list h | record h | optional h | type h => exact .schema h
  | object h hitems =>
    refine .tuple h fun u hu => ?_
    obtain ⟨key, name, d, hpair, hname, hd⟩ := hitems u hu
    refine .tuple hpair ?_
    simpa using ⟨.plain hname (.primitive (.string name)), .schema hd⟩
  | union h hitems => exact .tuple h fun u hu => .schema (hitems u hu)
  | file tag h =>
    refine .plain h ?_
    cases tag with
    | none => exact .null
    | some s => exact .primitive (.string s)

theorem Material.cell (h : store.Material x) : Material.Cell store x := by
  cases h with
  | plain hcell hv => exact .plain hcell hv
  | tuple hcell h => exact .tuple hcell h
  | schema h =>
    rcases h.formed.cell with ⟨d, hcell, -⟩ | ⟨kind, held, hcell, hfills⟩
    · exact .plain hcell (.descriptor d)
    · exact .descriptor hcell hfills.material

/-! ### One comparison -/

/-- Two objects that schemas are made of whose parts are found to be equal. -/
inductive EqualParts (store : Store) (compare : Compare) (x y : Ref) : Prop where
  | plain {v w : Value} (hx : store.cell x = .plain v) (hy : store.cell y = .plain w)
    (hv : v.IsFixed) (hw : w.IsFixed) (h : v.equal w = true)
  | tuple {xs ys : List Ref} (hx : store.cell x = .tuple xs) (hy : store.cell y = .tuple ys)
    (hxs : ∀ u ∈ xs, store.Material u) (hys : ∀ w ∈ ys, store.Material w)
    (h : List.Forall₂ (fun u w => compare u w = .ok true) xs ys)
  | descriptor {kind : Kind} {u w : Ref} (hx : store.cell x = .descriptor kind u)
    (hy : store.cell y = .descriptor kind w) (hu : store.Material u) (hw : store.Material w)
    (hbool : kind = .literal → (store.face u).isBool = (store.face w).isBool)
    (h : compare u w = .ok true)

theorem equalAll_iff {compare : Compare} {xs ys : List Ref} :
    equalAll compare xs ys = .ok true ↔
      List.Forall₂ (fun x y => compare x y = .ok true) xs ys := by
  refine ⟨forall₂_of_equalAll, fun h => ?_⟩
  induction h with
  | nil => rfl
  | cons hxy _ ih => simp [equalAll, hxy, ih, bind, Except.bind]

theorem equalBy_iff (hx : store.Material x) (hy : store.Material y) {compare : Compare} :
    store.equalBy compare x y = .ok true ↔ store.EqualParts compare x y := by
  constructor
  · intro h
    cases hx.cell with
    | plain hx hv =>
      cases hy.cell with
      | plain hy hw =>
        simp only [equalBy, hx, hy, hv.plainEqual? hw] at h
        exact .plain hx hy hv hw (Except.ok.inj h)
      | _ hy => simp [equalBy, hx, hy] at h
    | tuple hx hxs =>
      cases hy.cell with
      | tuple hy hys =>
        simp only [equalBy, hx, hy] at h
        exact .tuple hx hy hxs hys (equalAll_iff.mp h)
      | _ hy => simp [equalBy, hx, hy] at h
    | @descriptor kind u hx hu =>
      cases hy.cell with
      | @descriptor kind' w hy hw =>
        simp only [equalBy, hx, hy] at h
        split at h
        · simp at h
        · next hkind =>
          obtain rfl : kind = kind' := not_not.mp hkind
          split at h
          · simp at h
          · next hbool => exact .descriptor hx hy hu hw (by simpa using hbool) h
      | _ hy => simp [equalBy, hx, hy] at h
  · intro h
    cases h with
    | plain hx hy hv hw h => simp only [equalBy, hx, hy, hv.plainEqual? hw, h]
    | tuple hx hy _ _ h =>
      simp only [equalBy, hx, hy]
      exact equalAll_iff.mpr h
    | descriptor hx hy _ _ hbool h =>
      simp only [equalBy, hx, hy, h]
      simpa using hbool

theorem EqualParts.toll {compare : Compare} (h : store.EqualParts compare x y) :
    store.comparisonToll x = store.comparisonToll y := by
  cases h with
  | _ hx hy => simp only [comparisonToll, hx, hy]

/-! ### Identity -/

/-- Two references lead to one object if they are one, or lead to what exists once. -/
theorem isSame_iff : store.isSame x y = true ↔ x = y ∨ store.cell x = store.cell y ∧
    ((∃ v, store.cell x = .plain v ∧ v.isShared v = true) ∨ store.cell x = .tuple []) := by
  unfold isSame
  rw [Bool.or_eq_true, beq_iff_eq]
  refine or_congr_right ⟨fun h => ?_, ?_⟩
  · split at h
    · next v w hx hy =>
      obtain rfl := Value.eq_of_isShared h
      exact ⟨hx.trans hy.symm, .inl ⟨v, hx, h⟩⟩
    · next hx hy => exact ⟨hx.trans hy.symm, .inr hx⟩
    · contradiction
  · rintro ⟨hcells, ⟨v, hx, hv⟩ | hx⟩
    · simp only [hx, hcells ▸ hx, hv]
    · simp only [hx, hcells ▸ hx]

theorem isSame_symm (h : store.isSame x y = true) : store.isSame y x = true := by
  rcases isSame_iff.mp h with rfl | ⟨hcells, honce⟩
  · exact h
  · exact isSame_iff.mpr (.inr ⟨hcells.symm, hcells ▸ honce⟩)

theorem isSame_trans (h : store.isSame x y = true) (k : store.isSame y z = true) :
    store.isSame x z = true := by
  rcases isSame_iff.mp h with rfl | ⟨hcells, honce⟩
  · exact k
  · rcases isSame_iff.mp k with rfl | ⟨hcells', -⟩
    · exact h
    · exact isSame_iff.mpr (.inr ⟨hcells.trans hcells', honce⟩)

/-- How one object is compared depends on no more than its content. -/
theorem equalWithin_congr {x' y' : Ref} (hx : store.cell x = store.cell x')
    (hy : store.cell y = store.cell y') (depth : Nat) (room : Room) :
    store.equalWithin depth room x y = store.equalWithin depth room x' y' := by
  cases depth with
  | zero => rfl
  | succ depth =>
    have htoll : store.comparisonToll x = store.comparisonToll x' := by
      simp only [comparisonToll, hx]
    have hparts (compare : Compare) : store.equalBy compare x y = store.equalBy compare x' y' := by
      simp only [equalBy, hx, hy]
    simp only [equalWithin, htoll, hparts]

/-! ### Comparisons within the room -/

/-- What is found to be equal inside of others, with so much room. -/
def FoundEqual (store : Store) (depth : Nat) (room : Room) (x y : Ref) : Prop :=
  store.isSame x y = true ∨ store.equalWithin depth room x y = .ok true

theorem foundEqual_iff {depth : Nat} {room : Room} : store.FoundEqual depth room x y ↔
    (if store.isSame x y then .ok true else store.equalWithin depth room x y) = .ok true := by
  unfold FoundEqual
  split <;> simp_all

theorem equalWithin_succ_iff (hx : store.Material x) (hy : store.Material y) {depth : Nat}
    {room : Room} : store.equalWithin (depth + 1) room x y = .ok true ↔
      ∃ rest, room.after? (store.comparisonToll x) = some rest ∧
        store.EqualParts (fun u w => if store.isSame u w then .ok true
          else store.equalWithin depth rest u w) x y := by
  rw [equalWithin]
  cases hroom : room.after? (store.comparisonToll x) with
  | none => simp
  | some rest => simpa using equalBy_iff hx hy

theorem foundEqual_symm {depth : Nat} (ih : ∀ room x y, store.Material x → store.Material y →
      store.equalWithin depth room x y = .ok true → store.equalWithin depth room y x = .ok true)
    {room : Room} (hx : store.Material x) (hy : store.Material y)
    (h : store.FoundEqual depth room x y) : store.FoundEqual depth room y x :=
  h.imp isSame_symm (ih room x y hx hy)

theorem equalWithin_symm (depth : Nat) : ∀ room x y, store.Material x → store.Material y →
    store.equalWithin depth room x y = .ok true → store.equalWithin depth room y x = .ok true := by
  induction depth with
  | zero => exact fun _ _ _ _ _ h => by contradiction
  | succ depth ih =>
    intro room x y hx hy h
    obtain ⟨rest, hroom, hparts⟩ := (equalWithin_succ_iff hx hy).mp h
    have hpart (u w : Ref) (hu : store.Material u) (hw : store.Material w) :
        store.FoundEqual depth rest u w → store.FoundEqual depth rest w u :=
      foundEqual_symm ih hu hw
    simp only [foundEqual_iff] at hpart
    refine (equalWithin_succ_iff hy hx).mpr ⟨rest, hparts.toll ▸ hroom, ?_⟩
    cases hparts with
    | plain hx hy hv hw h => exact .plain hy hx hw hv (hv.equal_symm hw h)
    | tuple hx hy hxs hys h =>
      refine .tuple hy hx hys hxs ((forall₂_with h hxs hys).flip.imp ?_)
      exact fun w u huw => hpart u w huw.1 huw.2.1 huw.2.2
    | descriptor hx hy hu hw hbool h =>
      exact .descriptor hy hx hw hu (fun hkind => (hbool hkind).symm) (hpart _ _ hu hw h)

theorem equalWithin_trans (depth : Nat) : ∀ room x y z, store.Material x → store.Material y →
    store.Material z → store.equalWithin depth room x y = .ok true →
    store.equalWithin depth room y z = .ok true → store.equalWithin depth room x z = .ok true := by
  induction depth with
  | zero => exact fun _ _ _ _ _ _ _ h => by contradiction
  | succ depth ih =>
    intro room x y z hx hy hz h k
    obtain ⟨rest, hroom, hparts⟩ := (equalWithin_succ_iff hx hy).mp h
    obtain ⟨rest', hroom', hparts'⟩ := (equalWithin_succ_iff hy hz).mp k
    obtain rfl : rest = rest' := Option.some.inj (hroom.symm.trans (hparts.toll ▸ hroom'))
    have hpart (t u w : Ref) (ht : store.Material t) (hu : store.Material u)
        (hw : store.Material w) (h : store.FoundEqual depth rest t u)
        (k : store.FoundEqual depth rest u w) : store.FoundEqual depth rest t w := by
      rcases h with hsame | h
      · rcases k with hsame' | k
        · exact .inl (isSame_trans hsame hsame')
        · exact .inr ((equalWithin_congr (cell_eq_of_isSame hsame) rfl _ _).trans k)
      · rcases k with hsame | k
        · exact .inr ((equalWithin_congr rfl (cell_eq_of_isSame hsame).symm _ _).trans h)
        · exact .inr (ih rest t u w ht hu hw h k)
    simp only [foundEqual_iff] at hpart
    refine (equalWithin_succ_iff hx hz).mpr ⟨rest, hroom, ?_⟩
    cases hparts with
    | plain hx hy hu hv h =>
      cases hparts' with
      | plain hy' hz hv' hw k =>
        obtain rfl := Cell.plain.inj (hy.symm.trans hy')
        exact .plain hx hz hu hw (hu.equal_trans hv hw h k)
      | _ hy' => simp [hy] at hy'
    | tuple hx hy hxs hys h =>
      cases hparts' with
      | tuple hy' hz _ hzs k =>
        obtain rfl := Cell.tuple.inj (hy.symm.trans hy')
        refine .tuple hx hz hxs hzs
          ((forall₂_with (forall₂_trans (forall₂_with h hxs hys) k) hxs hzs).imp ?_)
        rintro t w ⟨ht, hw, u, ⟨-, hu, htu⟩, huw⟩
        exact hpart t u w ht hu hw htu huw
      | _ hy' => simp [hy] at hy'
    | descriptor hx hy ht hu hbool h =>
      cases hparts' with
      | descriptor hy' hz _ hw hbool' k =>
        obtain ⟨rfl, rfl⟩ := Cell.descriptor.inj (hy.symm.trans hy')
        exact .descriptor hx hz ht hw (fun hkind => (hbool hkind).trans (hbool' hkind))
          (hpart _ _ _ ht hu hw h k)
      | _ hy' => simp [hy] at hy'

/-- What schemas are made of is found to equal itself: what it holds is one object to begin with. -/
theorem equal?_refl (hx : store.Material x) : store.equal? x x = .ok true := by
  have hself (room : Room) (u : Ref) : (if store.isSame u u then .ok true
      else store.equalWithin Room.whole.levels room u u) = .ok true :=
    foundEqual_iff.mp (.inl (isSame_iff.mpr (.inl rfl)))
  have hroom : ∃ rest, Room.whole.after? (store.comparisonToll x) = some rest := by
    unfold comparisonToll
    split <;> exact ⟨_, rfl⟩
  obtain ⟨rest, hrest⟩ := hroom
  refine (equalWithin_succ_iff hx hx).mpr ⟨rest, hrest, ?_⟩
  cases hx.cell with
  | plain hcell hv => exact .plain hcell hcell hv hv hv.equal_refl
  | tuple hcell hitems =>
    exact .tuple hcell hcell hitems hitems (List.forall₂_same.mpr fun u _ => hself rest u)
  | descriptor hcell hheld =>
    exact .descriptor hcell hcell hheld hheld (fun _ => rfl) (hself rest _)

/-! ### Trees that are compared -/

theorem descriptorTree?_congr (h : store.cell x = store.cell y) {d : Descriptor}
    (hx : store.descriptorTree? x = some d) : store.descriptorTree? y = some d := by
  obtain ⟨htree, heq⟩ := descriptorTree?_eq_some.mp hx
  have htree' : store.isTree y = true :=
    isTree_of_refs fun c hc => isTree_of_mem_refs htree (h ▸ hc)
  refine descriptorTree?_eq_some.mpr ⟨htree', ?_⟩
  rw [tree_eq_assemble htree', ← h, ← tree_eq_assemble htree, heq]

/-- A tuple of known trees is the tree of the tuple. -/
theorem tree_of_tuple {α : Type} {f : α → Value} {items : List Ref} {as : List α}
    (hcell : store.cell x = .tuple items)
    (h : List.Forall₂ (fun r a => store.isTree r = true ∧ store.tree r = f a) items as) :
    store.isTree x = true ∧ store.tree x = .tuple (as.map f) := by
  have htree : store.isTree x = true := isTree_of_refs fun c hc => by
    rw [hcell] at hc
    exact forall_mem_of_forall₂ h.flip (fun _ _ hca => hca.1) c hc
  refine ⟨htree, ?_⟩
  rw [tree_eq_assemble htree, hcell, Cell.assemble]
  exact congrArg Value.tuple (map_eq_of_forall₂ h fun _ _ hra => hra.2)

/-- A pair of what has the trees of a name and a descriptor has the tree of a field. -/
theorem tree_of_pair {key c : Ref} {name : String} {d : Descriptor}
    (hcell : store.cell x = .tuple [key, c]) (hname : store.cell key = .plain (.string name))
    (hc : store.isTree c = true ∧ store.tree c = .descriptor d) :
    store.isTree x = true ∧ store.tree x = Descriptor.heldField (name, d) := by
  have hkey : store.tree key = .string name := by simp only [tree, hname]
  exact tree_of_tuple (f := fun v => v) hcell
    (.cons ⟨isTree_of_plain hname, hkey⟩ (.cons hc .nil))

theorem descriptorTree?_of_field {kind : Kind} {held : Ref}
    (hcell : store.cell y = .descriptor kind held) (hheld : store.isTree held = true)
    {e : Descriptor} (h : Descriptor.ofHeld? kind (store.tree held) = some e) :
    store.descriptorTree? y = some e := by
  have htree : store.isTree y = true :=
    isTree_of_refs fun c hc => by
      rw [hcell] at hc
      exact List.mem_singleton.mp hc ▸ hheld
  refine descriptorTree?_eq_some.mpr ⟨htree, ?_⟩
  rw [tree_eq_assemble htree, hcell, Cell.assemble, Cell.assembleDescriptor, h]

/-- What is like a field that holds what a descriptor is made of holds what an equal one is made of,
if all that is like a smaller descriptor equals it. -/
theorem tree_of_fieldAlike {B : Ref → Ref → Prop} {kind : Kind} {u w : Ref} {d : Descriptor}
    (hfield : store.FieldAlike B kind u w) (hu : store.isTree u = true)
    (hholds : Descriptor.Holds kind (store.tree u) d)
    (ih : ∀ a b c, c.depth < d.depth → B a b → store.isTree a = true ∧
      store.tree a = .descriptor c → ∃ c', (store.isTree b = true ∧
        store.tree b = .descriptor c') ∧ c.same c' = true) :
    ∃ e, store.isTree w = true ∧ e.held? = some (store.tree w) ∧ d.same e = true := by
  generalize hv : store.tree u = v at hholds
  cases hholds with
  | literal p =>
    cases hfield with | @literal _ _ p' q hp hq hpq => ?_
    simp only [tree, hp] at hv
    obtain rfl := Primitive.toValue_injective hv
    exact ⟨.literal q, isTree_of_plain hq, by simp only [tree, hq]; rfl, hpq⟩
  | list c =>
    cases hfield with | list huw => ?_
    obtain ⟨c', ⟨hwt, hw⟩, hsame⟩ := ih u w c (Descriptor.depth_lt_of_only rfl) huw ⟨hu, hv⟩
    exact ⟨.list c', hwt, congrArg some hw.symm, hsame⟩
  | record c =>
    cases hfield with | record huw => ?_
    obtain ⟨c', ⟨hwt, hw⟩, hsame⟩ := ih u w c (Descriptor.depth_lt_of_only rfl) huw ⟨hu, hv⟩
    exact ⟨.record c', hwt, congrArg some hw.symm, hsame⟩
  | optional c =>
    cases hfield with | optional huw => ?_
    obtain ⟨c', ⟨hwt, hw⟩, hsame⟩ := ih u w c (Descriptor.depth_lt_of_only rfl) huw ⟨hu, hv⟩
    exact ⟨.optional c', hwt, congrArg some hw.symm, hsame⟩
  | type c =>
    cases hfield with | type huw => ?_
    obtain ⟨c', ⟨hwt, hw⟩, hsame⟩ := ih u w c (Descriptor.depth_lt_of_only rfl) huw ⟨hu, hv⟩
    exact ⟨.type c', hwt, congrArg some hw.symm, hsame⟩
  | file tag =>
    cases hfield with | file tag' hu hw => ?_
    simp only [tree, hu] at hv
    exact ⟨.file tag, isTree_of_plain hw, by simp only [tree, hw, hv]; rfl,
      Descriptor.same_refl _⟩
  | union ds =>
    cases hfield with | union hcell hcell' hall => ?_
    have htrees := forall₂_with (forall₂_trans (forall₂_of_tree_tuple hcell hu hv).flip hall)
      (fun c hc => Descriptor.depth_lt_of_alternative hc) fun b _ => trivial
    obtain ⟨es, hes, hsame⟩ := exists_forall₂ htrees
        (T := fun c c' : Descriptor => c.same c' = true) <| by
      rintro c b ⟨hlt, -, a, ha, hab⟩
      exact ih a b c hlt hab ha
    obtain ⟨hwt, hw⟩ := tree_of_tuple hcell' hes
    exact ⟨.union es, hwt, congrArg some hw.symm, (Descriptor.sameAll_iff ds es).mpr hsame⟩
  | object fs =>
    cases hfield with | object hcell hcell' hall => ?_
    have htrees := forall₂_with (forall₂_trans (forall₂_of_tree_tuple hcell hu hv).flip hall)
      (fun f hf => Descriptor.depth_lt_of_field hf) fun b _ => trivial
    obtain ⟨gs, hgs, hsame⟩ := exists_forall₂ htrees
        (S := fun b g => store.isTree b = true ∧ store.tree b = Descriptor.heldField g)
        (T := fun f g : String × Descriptor => f.1 = g.1 ∧ f.2.same g.2 = true) <| by
      rintro f b ⟨hlt, -, a, ha, key, key', name, c, e, hpair, hpair', hname, hname', hce⟩
      obtain ⟨rfl, hc⟩ := trees_of_pair hpair hname ha
      obtain ⟨c', he, hsame⟩ := ih c e f.2 hlt hce hc
      exact ⟨(f.1, c'), tree_of_pair hpair' hname' he, rfl, hsame⟩
    obtain ⟨hwt, hw⟩ := tree_of_tuple hcell' hgs
    exact ⟨.object gs, hwt, congrArg some hw.symm, (Descriptor.sameFields_iff fs gs).mpr hsame⟩

/-- What is like a tree is a tree, and an equal one. -/
theorem tree_of_alike {B : Ref → Ref → Prop} (hB : ∀ u w, B u w → store.Matched B u w)
    (h : B x y) {d : Descriptor} (hx : store.descriptorTree? x = some d) :
    ∃ e, store.descriptorTree? y = some e ∧ d.same e = true := by
  induction hn : d.depth using Nat.strong_induction_on generalizing x y d with
  | _ n ih =>
    subst hn
    cases hB x y h with
    | one hcell => exact ⟨d, descriptorTree?_congr hcell hx, d.same_refl⟩
    | @field kind u w hcell hcell' hfield =>
      have hhas : kind.field?.isSome = true := by cases hfield <;> rfl
      obtain ⟨hut, v, hv, hholds⟩ := holds_of_tree hcell hhas hx
      obtain ⟨e, hwt, hheld, hsame⟩ : ∃ e, store.isTree w = true ∧
          e.held? = some (store.tree w) ∧ d.same e = true := by
        refine tree_of_fieldAlike hfield hut (hv ▸ hholds) fun a b c hlt hab ha => ?_
        obtain ⟨c', hb, hsame⟩ := ih _ hlt hab (descriptorTree?_eq_some.mpr ha) rfl
        exact ⟨c', descriptorTree?_eq_some.mp hb, hsame⟩
      -- The descriptor is made of what its field holds, so the equal one can be made as well.
      have hmade : Descriptor.ofHeld? kind v = some d := by
        rcases cell_of_descriptorTree? hx with hplain | ⟨_, _, hcell'', -, hof⟩
        · simp [hcell] at hplain
        · obtain ⟨rfl, rfl⟩ := Cell.descriptor.inj (hcell.symm.trans hcell'')
          exact hv ▸ hof
      obtain ⟨hkind, hheld'⟩ := Descriptor.held?_of_ofHeld? hmade hhas
      refine ⟨e, descriptorTree?_of_field hcell' hwt ?_, hsame⟩
      have hmade' := Descriptor.ofHeld?_of_same hsame hheld' hheld (hkind ▸ hmade)
      rwa [← Descriptor.kind_eq_of_same hsame, hkind] at hmade'

/-! ### Schemas -/

/-- What is like a schema that is compared as a tree is compared so as well. -/
theorem schema?_of_alike (h : store.Alike x y) {d : Descriptor}
    (hx : Workspace.schema? store x = some d) :
    ∃ e, Workspace.schema? store y = some e ∧ d.same e = true := by
  obtain ⟨B, hxy, hB⟩ := h
  obtain ⟨htree, hfits⟩ := Option.filter_eq_some_iff.mp hx
  obtain ⟨e, he, hsame⟩ := tree_of_alike hB hxy htree
  refine ⟨e, Option.filter_eq_some_iff.mpr ⟨he, ?_⟩, hsame⟩
  rwa [Descriptor.isWithin, ← Descriptor.left?_of_same _ d e hsame,
    ← Descriptor.fitsIn_of_same _ _ d e hsame]

/-- Schemas that are equal are compared in one way. -/
inductive EqualSchemas (store : Store) (x y : Ref) : Prop where
  | trees {d e : Descriptor} (hx : Workspace.schema? store x = some d)
    (hy : Workspace.schema? store y = some e) (h : d.same e = true)
  | parts (hx : Workspace.schema? store x = none) (hy : Workspace.schema? store y = none)
    (h : store.equal? x y = .ok true)

theorem equalSchemas_iff (hx : store.IsSchema (.object x)) (hy : store.IsSchema (.object y)) :
    Workspace.equal? store x y = .ok true ↔ store.EqualSchemas x y := by
  constructor
  · intro h
    have halike := alike_of_equal? hx hy h
    cases hd : Workspace.schema? store x with
    | some d =>
      obtain ⟨e, he, hsame⟩ := schema?_of_alike halike hd
      exact .trees hd he hsame
    | none =>
      have hparts : store.equal? x y = .ok true := by simpa only [Workspace.equal?, hd] using h
      cases he : Workspace.schema? store y with
      | none => exact .parts hd he hparts
      | some e =>
        -- Turned round, the comparison is no other, and one tree makes the other.
        have hback : Workspace.equal? store y x = .ok true := by
          simp only [Workspace.equal?, hd, he]
          exact equalWithin_symm _ _ x y (.schema hx) (.schema hy) hparts
        obtain ⟨d, hd', -⟩ := schema?_of_alike (alike_of_equal? hy hx hback) he
        simp [hd] at hd'
  · intro h
    cases h with
    | trees hd he h => simp only [Workspace.equal?, hd, he, h]
    | parts hd he h => simpa only [Workspace.equal?, hd, he] using h

theorem equal?_equivalence (store : Store) :
    Equivalence fun x y : { r : Ref // store.IsSchema (.object r) } =>
      Workspace.equal? store x y = .ok true where
  refl := by
    rintro ⟨x, hx⟩
    refine (equalSchemas_iff hx hx).mpr ?_
    cases hd : Workspace.schema? store x with
    | none => exact .parts hd hd (equal?_refl (.schema hx))
    | some d => exact .trees hd hd d.same_refl
  symm := by
    rintro ⟨x, hx⟩ ⟨y, hy⟩ h
    refine (equalSchemas_iff hy hx).mpr ?_
    cases (equalSchemas_iff hx hy).mp h with
    | trees hd he h => exact .trees he hd (Descriptor.same_symm _ _ h)
    | parts hd he h => exact .parts he hd (equalWithin_symm _ _ x y (.schema hx) (.schema hy) h)
  trans := by
    rintro ⟨x, hx⟩ ⟨y, hy⟩ ⟨z, hz⟩ h k
    refine (equalSchemas_iff hx hz).mpr ?_
    cases (equalSchemas_iff hx hy).mp h with
    | trees hd he h =>
      cases (equalSchemas_iff hy hz).mp k with
      | trees he' hf k =>
        obtain rfl := Option.some.inj (he.symm.trans he')
        exact .trees hd hf (Descriptor.same_trans _ _ _ h k)
      | parts he' => simp [he] at he'
    | parts hd he h =>
      cases (equalSchemas_iff hy hz).mp k with
      | trees he' => simp [he] at he'
      | parts _ hf k =>
        exact .parts hd hf (equalWithin_trans _ _ x y z (.schema hx) (.schema hy) (.schema hz) h k)

/-- Two literals of the number one, whole and as a float, and two unions of such a literal with a
list of one union that holds itself in a list. -/
def twice : Store := ⟨#[.plain .null, .tuple [3], .descriptor .union 1, .descriptor .list 2,
  .plain (.int 1), .descriptor .literal 4, .plain (.float (.finite oneFloat)),
  .descriptor .literal 6, .descriptor .list 2, .tuple [5, 3], .descriptor .union 9, .tuple [7, 8],
  .descriptor .union 11]⟩

theorem twice_proper : twice.Proper := .of_mem rfl (by decide)

theorem twice_isSchema {r : Ref} (h : r ∈ [2, 3, 5, 7, 8, 10, 12]) :
    twice.IsSchema (.object r) := by
  refine ⟨(· ∈ [2, 3, 5, 7, 8, 10, 12]), h, ?_⟩
  intro x hx
  simp only [List.mem_cons, List.not_mem_nil, or_false] at hx
  rcases hx with rfl | rfl | rfl | rfl | rfl | rfl | rfl
  · exact .union rfl rfl (by decide)
  · exact .list rfl (by decide)
  · exact .literal (p := .int 1) rfl rfl
  · exact .literal (p := .float oneFloat) rfl rfl
  · exact .list rfl (by decide)
  · exact .union rfl rfl (by decide)
  · exact .union rfl rfl (by decide)

/-- The unions are compared part by part, and the lists by what they hold, which is one object. -/
theorem twice_equal? : Workspace.equal? twice 10 12 = .ok true := by rfl

theorem twice_hashable? : twice.hashable? 5 = .ok () := by rfl

end Store

/-- Equality is an equivalence of schemas, and equal schemas have equal hash codes and stand for
each other: whatever is validated or explained with either comes out the same, apart from the words
in which a literal rejects a value. -/
theorem equal_schemas_interchange :
    (Equivalence fun d e : Descriptor => d.same e = true) ∧
    (∀ a b : Descriptor, a.same b = true → a.hashCode = b.hashCode ∧
      ∀ (settings : Settings) (v : Value), validate settings a v = validate settings b v ∧
        SameReport (explain settings a v) (explain settings b v)) ∧
    ∀ store : Store, store.Proper →
      (Equivalence fun x y : { r : Ref // store.IsSchema (.object r) } =>
        Workspace.equal? store x y = .ok true) ∧
      ∀ x y : Ref, store.IsSchema (.object x) → store.IsSchema (.object y) →
        Workspace.equal? store x y = .ok true →
        store.hashable? x = store.hashable? y ∧
        (store.hashable? x = .ok () → Workspace.hashesAgree? store x y = .ok true) ∧
        (∀ a, store.descriptorTree? x = some a →
          ∃ b, store.descriptorTree? y = some b ∧ a.hashCode = b.hashCode) ∧
        ∀ (settings : Settings) (v : Ref),
          store.validate settings x v = store.validate settings y v ∧
            SameReport (store.explain settings x v) (store.explain settings y v) := by
  refine ⟨Descriptor.same_equivalence, fun a b h => ⟨Descriptor.hashCode_eq_of_same a b h,
    fun settings v => ⟨validate_of_same h settings v, explain_of_same h settings v⟩⟩, ?_⟩
  refine fun store hproper => ⟨store.equal?_equivalence, fun x y hx hy h => ?_⟩
  have halike := Store.alike_of_equal? hx hy h
  refine ⟨Store.hashable?_alike halike, Store.hashesAgree?_of_equal? hx hy h, fun a ha => ?_,
    fun settings v => ⟨Store.validate_alike hproper hx hy halike settings v,
      Store.explain_alike hproper hx hy halike settings v⟩⟩
  obtain ⟨B, hxy, hB⟩ := halike
  obtain ⟨b, hb, hsame⟩ := Store.tree_of_alike hB hxy ha
  exact ⟨b, hb, Descriptor.hashCode_eq_of_same a b hsame⟩

/-- The number one, whole and as a float, each of which rejects a text in its own words; and unions
that hold these beside one loop. -/
theorem equal_schemas_interchange_loop :
    let settings : Settings := ⟨.ofInt 3 (by decide), .bool true⟩
    let a := Descriptor.literal (.int 1)
    let b := Descriptor.literal (.float Store.oneFloat)
    let issue (expected : Value) : Issue := ⟨[], .literal, .notLiteral expected (.string "one")⟩
    let store := Store.twice
    a.same b = true ∧ a.hashCode = b.hashCode ∧
      SameReport (explain settings a (.string "one")) (explain settings b (.string "one")) ∧
      explain settings a (.string "one") = .ok ⟨.literal, false, [issue (.int 1)]⟩ ∧
      explain settings b (.string "one") =
        .ok ⟨.literal, false, [issue (.float (.finite Store.oneFloat))]⟩ ∧
      store.Proper ∧ store.IsSchema (.object 5) ∧ store.IsSchema (.object 7) ∧
      Workspace.equal? store 5 7 = .ok true ∧ store.hashable? 5 = .ok () ∧
      Workspace.hashesAgree? store 5 7 = .ok true ∧
      store.IsSchema (.object 10) ∧ store.IsSchema (.object 12) ∧
      Workspace.equal? store 10 12 = .ok true ∧
      store.validate settings 10 0 = store.validate settings 12 0 := by
  intro settings a b issue store
  obtain ⟨-, hvalues, hobjects⟩ := equal_schemas_interchange
  have hsame : a.same b = true := by decide +kernel
  have hequal : Workspace.equal? store 5 7 = .ok true := congrArg Except.ok hsame
  have hequal' : Workspace.equal? store 10 12 = .ok true := Store.twice_equal?
  have hhash : store.hashable? 5 = .ok () := Store.twice_hashable?
  obtain ⟨hcodes, hruns⟩ := hvalues a b hsame
  obtain ⟨-, hschemas⟩ := hobjects store Store.twice_proper
  have hone : store.IsSchema (.object 5) := Store.twice_isSchema (by decide)
  have hone' : store.IsSchema (.object 7) := Store.twice_isSchema (by decide)
  have hloop : store.IsSchema (.object 10) := Store.twice_isSchema (by decide)
  have hloop' : store.IsSchema (.object 12) := Store.twice_isSchema (by decide)
  obtain ⟨-, hagree, -⟩ := hschemas 5 7 hone hone' hequal
  obtain ⟨-, -, -, hwalks⟩ := hschemas 10 12 hloop hloop' hequal'
  exact ⟨hsame, hcodes, (hruns settings _).2, rfl, rfl, Store.twice_proper, hone, hone', hequal,
    hhash, hagree hhash, hloop, hloop', hequal', (hwalks settings 0).1⟩

end DataSchema
