import DataSchema.Proofs.Configuration
import DataSchema.Proofs.Store.Building
import DataSchema.Proofs.Store.Engine

/-!
What descriptors tell about themselves. Their configuration can always be made, and there is not
much in it: at most one mapping or tuple, of objects that a check does not look into. It has what
the shape of configurations asks for.
-/

namespace DataSchema

namespace Store

/-- A descriptor of the fifteen variants that holds in its field what builders put there. Of the
descriptors that it holds nothing is asked. -/
def IsVariant (store : Store) (r : Ref) : Prop :=
  store.Formed (fun x => (store.kind? x).isSome = true) r

theorem IsSchema.isVariant {store : Store} {r : Ref} (h : store.IsSchema (.object r)) :
    store.IsVariant r := by
  obtain ⟨member, hmem, hclosed⟩ := h
  exact (hclosed r hmem).mono fun x hx => (hclosed x hx).kind?

/-- All values that an object shows deep enough are configurations of a kind. -/
def Tells (store : Store) (kind : Kind) (v : Ref) : Prop :=
  ∀ n, Accepts (.configurationShape kind) (store.unroll (n + 2) v)

/-- All that a check can come to in an object passes a test. -/
def Everywhere (store : Store) (p : Value → Bool) (v : Ref) : Prop :=
  ∃ Q : Ref → Prop, Q v ∧ store.Whole Q ∧ ∀ w, Q w → p (store.face w) = true

/-- An object that a check does not look into, and that can be asked about. -/
structure IsBare (store : Store) (v : Ref) : Prop where
  elements : store.elements? v = none
  entries : store.entries? v = none
  fits : (store.face v).fitsFloat = true

/-- An object that has at most itself and what a check does not look into. -/
structure IsFlat (store : Store) (v : Ref) : Prop where
  elements {items : List Ref} (h : store.elements? v = some items) :
    ∀ x ∈ items, x = v ∨ store.IsBare x
  entries {entries : List (Ref × Ref)} (h : store.entries? v = some entries) :
    ∀ entry ∈ entries, entry.2 = v ∨ store.IsBare entry.2
  fits : (store.face v).fitsFloat = true

section Flat

variable {store : Store} {v : Ref}

theorem IsBare.isFlat (h : store.IsBare v) : store.IsFlat v :=
  ⟨by simp [h.elements], by simp [h.entries], h.fits⟩

theorem isBare_plain {u : Value} (hcell : store.cell v = .plain u) (h : u.fitsFloat = true) :
    store.IsBare v :=
  ⟨by simp only [elements?, hcell], by simp only [entries?, hcell],
    by simpa only [face, hcell, Cell.face] using h⟩

theorem isBare_descriptor (h : (store.kind? v).isSome = true) : store.IsBare v := by
  unfold kind? face at h
  refine ⟨?_, ?_, ?_⟩
  · unfold elements?
    cases hcell : store.cell v <;> simp_all [Cell.face, Value.descriptorKind?]
  · unfold entries?
    cases hcell : store.cell v <;> simp_all [Cell.face, Value.descriptorKind?]
  · unfold face
    cases hface : (store.cell v).face <;> simp_all [Value.fitsFloat, Value.descriptorKind?]

theorem isFlat_tuple {items : List Ref} (hcell : store.cell v = .tuple items)
    (h : ∀ x ∈ items, store.IsBare x) : store.IsFlat v where
  elements := by
    intro others hothers
    obtain rfl : items = others := by simpa [elements?, hcell] using hothers
    exact fun x hx => .inr (h x hx)
  entries := by simp [entries?, hcell]
  fits := by simp [face, hcell, Cell.face, Value.fitsFloat]

theorem isFlat_dict {entries : List (Ref × Ref)} (hcell : store.cell v = .dict entries)
    (h : ∀ entry ∈ entries, entry.2 = v ∨ store.IsBare entry.2) : store.IsFlat v where
  elements := by simp [elements?, hcell]
  entries := by
    intro others hothers
    obtain rfl : entries = others := by simpa [entries?, hcell] using hothers
    exact h
  fits := by simp [face, hcell, Cell.face, Value.fitsFloat]

theorem IsFlat.everywhere (hproper : store.Proper) (h : store.IsFlat v) :
    store.Everywhere Value.fitsFloat v := by
  refine ⟨fun w => w = v ∨ store.IsBare w, .inl rfl, ⟨.inr ?_, ?_, ?_⟩, ?_⟩
  · exact isBare_plain hproper.absent rfl
  · rintro w (rfl | hw) items hitems
    · exact h.elements hitems
    · simp [hw.elements] at hitems
  · rintro w (rfl | hw) entries hentries
    · exact h.entries hentries
    · simp [hw.entries] at hentries
  · rintro w (rfl | hw)
    · exact h.fits
    · exact hw.fits

theorem unroll_of_plain {u : Value} (hcell : store.cell v = .plain u) (n : Nat) :
    store.unroll n v = u := by
  cases n <;> simp only [unroll, face, hcell, Cell.face]

theorem unroll_of_tuple {items : List Ref} (hcell : store.cell v = .tuple items) (n : Nat) :
    store.unroll (n + 1) v = .tuple (items.map (store.unroll n)) := by
  simp only [unroll, hcell]

theorem unroll_of_dict {entries : List (Ref × Ref)} (hcell : store.cell v = .dict entries)
    (n : Nat) : store.unroll (n + 1) v =
      .dict (entries.map fun (key, w) => (store.face key, store.unroll n w)) := by
  simp only [unroll, hcell]

theorem lt_size_of_cell (h : store.cell v ≠ .plain .null) : v < store.cells.size := by
  by_contra hge
  exact h (cell_of_size_le (Nat.le_of_not_lt hge))

theorem cell_add (cell : Cell) (r : Ref) :
    (store.add cell).2.cell r = if r = store.cells.size then cell else store.cell r := by
  simp only [add, Store.cell, Array.getD_eq_getD_getElem?, Array.getElem?_push]
  split <;> rfl

theorem cell_add_size (cell : Cell) : (store.add cell).2.cell store.cells.size = cell := by
  rw [cell_add, if_pos rfl]

theorem size_lt_add (cell : Cell) : store.cells.size < (store.add cell).2.cells.size := by
  rw [add, Array.size_push]
  exact Nat.lt_succ_self _

/-- Next to a further object the others stay what they are. -/
theorem IsBare.add (h : store.IsBare v) (cell : Cell) :
    v = store.cells.size ∨ (store.add cell).2.IsBare v := by
  by_cases hv : v = store.cells.size
  · exact .inl hv
  · have hcell : (store.add cell).2.cell v = store.cell v := by rw [cell_add, if_neg hv]
    refine .inr ⟨?_, ?_, ?_⟩
    · simpa only [elements?, hcell] using h.elements
    · simpa only [entries?, hcell] using h.entries
    · simpa only [face, hcell] using h.fits

end Flat

/-- Texts that are keys of a mapping can be told apart. -/
theorem alike?_texts {store : Store} {a b : Ref} {s t : String}
    (ha : store.cell a = .plain (.string s)) (hb : store.cell b = .plain (.string t)) :
    store.alike? a b = .ok (s == t) := by
  have hequal : store.equal? a b = .ok (s == t) := by
    simp [equal?, equalWithin, comparisonToll, ha, hb, Room.after?, Room.whole, equalBy,
      Value.plainEqual?, Value.isSignaling, Value.equal]
  unfold alike?
  split
  · next hsame =>
    simp only [isSame, ha, hb, Value.isShared, Bool.or_eq_true, Bool.and_eq_true] at hsame
    rcases hsame with hab | hst
    · rw [eq_of_beq hab, hb] at ha
      obtain rfl : t = s := by simpa using ha
      rw [beq_self_eq_true]
    · rw [hst.1.1]
  · exact hequal

/-- Entries under texts, of what a check does not look into. -/
def Labelled (store : Store) (entries : List (Ref × Ref)) : Prop :=
  ∀ entry ∈ entries, (∃ s, store.cell entry.1 = .plain (.string s)) ∧ store.IsBare entry.2

theorem put?_labelled {store : Store} {key v : Ref} {s : String}
    (hkey : store.cell key = .plain (.string s)) (hv : store.IsBare v)
    {entries : List (Ref × Ref)} (h : store.Labelled entries) :
    ∃ written, store.put? key v entries = .ok written ∧ store.Labelled written := by
  induction entries with
  | nil => exact ⟨[(key, v)], rfl, by simpa [Labelled] using ⟨⟨s, hkey⟩, hv⟩⟩
  | cons entry entries ih =>
    obtain ⟨⟨⟨t, ht⟩, hentry⟩, hrest⟩ := List.forall_mem_cons.mp h
    obtain ⟨written, hwritten, hall⟩ := ih hrest
    simp only [put?, alike?_texts ht hkey, hwritten]
    cases t == s with
    | true => exact ⟨_, rfl, List.forall_mem_cons.mpr ⟨⟨⟨t, ht⟩, hv⟩, hrest⟩⟩
    | false => exact ⟨_, rfl, List.forall_mem_cons.mpr ⟨⟨⟨t, ht⟩, hentry⟩, hall⟩⟩

end Store

namespace Build

/-- The operation succeeds, and what it returns is so in the store that it leaves. -/
def Yields {α : Type} (action : Build α) (store : Store) (Post : α → Store → Prop) : Prop :=
  ∃ a store', action.run store = .ok (a, store') ∧ Post a store'

variable {α β : Type} {store : Store}

theorem Yields.bind {action : Build α} {next : α → Build β} {Mid : α → Store → Prop}
    {Post : β → Store → Prop} (h : action.Yields store Mid)
    (hnext : ∀ a store', Mid a store' → (next a).Yields store' Post) :
    (action >>= next).Yields store Post := by
  obtain ⟨a, store', hrun, hmid⟩ := h
  obtain ⟨b, store'', hrest, hpost⟩ := hnext a store' hmid
  refine ⟨b, store'', ?_, hpost⟩
  rw [StateT.run_bind, hrun]
  exact hrest

theorem yields_pure {a : α} {Post : α → Store → Prop} (h : Post a store) :
    (pure a : Build α).Yields store Post := ⟨a, store, rfl, h⟩

theorem yields_get {next : Store → Build α} {Post : α → Store → Prop}
    (h : (next store).Yields store Post) : (get >>= next).Yields store Post := h

theorem yields_ofExcept {r : Except Error α} {a : α} (hr : r = .ok a) {Post : α → Store → Prop}
    (h : Post a store) : (ofExcept r : Build α).Yields store Post := hr ▸ yields_pure h

theorem answer_yields {said : Except Error Descriptor} {d : Descriptor} (hd : said = .ok d)
    {Post : Descriptor → Store → Prop} (h : Post d store) : (answer said).Yields store Post :=
  hd ▸ yields_pure h

theorem add_yields {cell : Cell} {Post : Ref → Store → Prop}
    (h : Post store.cells.size (store.add cell).2) : (add cell).Yields store Post :=
  ⟨_, _, rfl, h⟩

theorem put_yields {key v : Ref} {s : String} (hkey : store.cell key = .plain (.string s))
    (hv : store.IsBare v) {entries : List (Ref × Ref)} (h : store.Labelled entries) :
    (put key v entries).Yields store fun written store' =>
      store' = store ∧ store.Labelled written := by
  obtain ⟨written, hwritten, hlabelled⟩ := Store.put?_labelled hkey hv h
  have hhash : (ofExcept (store.hashable? key) : Build Unit).Yields store fun _ store' =>
      store' = store := yields_ofExcept (Store.hashable?_of_plain hkey rfl) rfl
  refine yields_get (hhash.bind ?_)
  rintro - _ rfl
  exact yields_ofExcept hwritten ⟨rfl, hlabelled⟩

/-- One pair after the other is written as an entry. -/
theorem entries_yield {items : List Ref} (hitems : ∀ x ∈ items, ∃ key name d,
      store.cell x = .tuple [key, d] ∧ store.cell key = .plain (.string name) ∧ store.IsBare d)
    {entries : List (Ref × Ref)} (h : store.Labelled entries) :
    (items.foldlM (fun entries x => do
      let (key, v) ← ofExcept (store.pair? (.held x))
      put (← settle key) (← settle v) entries) entries : Build _).Yields store
        fun entries store' => store' = store ∧ store.Labelled entries := by
  induction items generalizing entries with
  | nil => exact yields_pure ⟨rfl, h⟩
  | cons x items ih =>
    obtain ⟨key, name, d, hcell, hname, hd⟩ := hitems x List.mem_cons_self
    have hpair : store.pair? (.held x) = .ok (.held key, .held d) := by
      simp [Store.pair?, Store.partsOf?, Store.parts?, hcell]
    rw [List.foldlM_cons, hpair]
    refine (put_yields hname hd h).bind ?_
    rintro written _ ⟨rfl, hwritten⟩
    exact ih (fun y hy => hitems y (List.mem_cons_of_mem x hy)) hwritten

theorem fieldEntries_yields {held : Ref} {items : List Ref}
    (hheld : store.cell held = .tuple items)
    (hitems : ∀ x ∈ items, ∃ key name d, store.cell x = .tuple [key, d] ∧
      store.cell key = .plain (.string name) ∧ store.IsBare d) :
    (fieldEntries held).Yields store fun entries store' =>
      store' = store ∧ store.Labelled entries := by
  have hentries : store.entries? held = none := by simp only [Store.entries?, hheld]
  have hparts : store.parts? held = some (items.map .held) := by
    simp only [Store.parts?, hheld]
  unfold fieldEntries merge
  refine yields_get ?_
  simp only [hentries, hparts, List.foldlM_map]
  exact entries_yield hitems (by simp [Store.Labelled])

/-- A mapping that is put down has what it is to have. -/
theorem dict_yields {entries : List (Ref × Ref)} (h : ∀ entry ∈ entries, store.IsBare entry.2) :
    (add (.dict entries)).Yields store fun v store' =>
      store'.IsFlat v ∧ store'.cell v = .dict entries ∧
        ∀ x, x < store.cells.size → store'.cell x = store.cell x := by
  have hcell : (store.add (.dict entries)).2.cell store.cells.size = .dict entries :=
    Store.cell_add_size _
  have hflat := Store.isFlat_dict hcell fun entry hentry => (h entry hentry).add _
  refine add_yields ⟨hflat, hcell, fun x hx => ?_⟩
  rw [Store.cell_add, if_neg (Nat.ne_of_lt hx)]

theorem text_yields {held : Ref} (h : store.IsBare held) (name : String) :
    (text name).Yields store fun key store' => store'.IsBare held ∧
      key < store'.cells.size ∧ store'.cell key = .plain (.string name) ∧
      ∀ x, x < store.cells.size → x < store'.cells.size ∧ store'.cell x = store.cell x := by
  have hkey : (store.add (.plain (.string name))).2.cell store.cells.size =
      .plain (.string name) := Store.cell_add_size _
  have hsize := store.size_lt_add (.plain (.string name))
  refine add_yields ⟨?_, hsize, hkey, fun x hx => ⟨Nat.lt_trans hx hsize, ?_⟩⟩
  · rcases h.add (.plain (.string name)) with rfl | hbare
    · exact Store.isBare_plain hkey rfl
    · exact hbare
  · rw [Store.cell_add, if_neg (Nat.ne_of_lt hx)]

/-- A mapping of one name, under which an object of the store is found as it was. -/
theorem wrapped_yields {held : Ref} (h : store.IsBare held) (name : String) :
    (do add (.dict [(← text name, held)]) : Build Ref).Yields store fun v store' =>
      store'.IsFlat v ∧ (held < store.cells.size → store'.cell held = store.cell held ∧
        ∀ n, store'.unroll (n + 1) v = .dict [(.string name, store'.unroll n held)]) := by
  refine (text_yields h name).bind ?_
  rintro key store' ⟨hbare, hsize, hkey, hkept⟩
  have hentries : ∀ entry ∈ [(key, held)], store'.IsBare entry.2 := by simpa using hbare
  obtain ⟨v, store'', hrun, hflat, hcell, hsame⟩ := dict_yields hentries
  refine ⟨v, store'', hrun, hflat, fun hheld => ⟨?_, fun n => ?_⟩⟩
  · rw [hsame held (hkept held hheld).1, (hkept held hheld).2]
  · have hface : store''.face key = .string name := by
      rw [Store.face, hsame key hsize, hkey]
      rfl
    rw [Store.unroll_of_dict hcell n]
    simp only [List.map_cons, List.map_nil, hface]

/-- A descriptor of the fifteen variants can tell its configuration. -/
theorem configuration_yields (hproper : store.Proper) {r : Ref} (hr : store.IsVariant r)
    {kind : Kind} (hkind : store.kind? r = some kind) :
    (configuration r).Yields store fun v store' => store'.IsFlat v ∧
      ((∀ x ∈ (store.cell r).refs, x < store.cells.size) → store'.Tells kind v) := by
  refine yields_get ?_
  cases hr with
  | @leaf d hcell hfield hbuilt =>
    rw [hcell]
    refine yields_pure ⟨(Store.isBare_plain hproper.absent rfl).isFlat, fun _ n => ?_⟩
    obtain rfl : d.kind = kind := by
      simpa [Store.kind?, Store.face, hcell, Cell.face, Value.descriptorKind?] using hkind
    rw [Store.unroll_of_plain hproper.absent]
    cases d with
    | outsider => exact hbuilt.elim
    | literal | list | record | object | optional | union | type | file => contradiction
    | _ => rfl
  | @literal held p hcell hheld =>
    rw [hcell]
    obtain rfl := Option.some.inj ((Store.kind?_of_descriptor hcell).symm.trans hkind)
    refine yields_pure ⟨(Store.isBare_plain hheld (by cases p <;> rfl)).isFlat, fun _ n => ?_⟩
    rw [Store.unroll_of_plain hheld]
    exact Descriptor.accepts_primitive p
  | @list held hcell hheld | @record held hcell hheld =>
    rw [hcell]
    obtain rfl := Option.some.inj ((Store.kind?_of_descriptor hcell).symm.trans hkind)
    obtain ⟨v, store', hrun, hflat, hshown⟩ :=
      wrapped_yields (Store.isBare_descriptor hheld) "value_type"
    refine ⟨v, store', hrun, hflat, fun hin n => ?_⟩
    rw [(hshown (hin held (by simp [Cell.refs]))).2]
    exact ⟨_, rfl, trivial, trivial⟩
  | @optional held hcell hheld =>
    rw [hcell]
    obtain rfl := Option.some.inj ((Store.kind?_of_descriptor hcell).symm.trans hkind)
    obtain ⟨v, store', hrun, hflat, hshown⟩ :=
      wrapped_yields (Store.isBare_descriptor hheld) "inner_type"
    refine ⟨v, store', hrun, hflat, fun hin n => ?_⟩
    rw [(hshown (hin held (by simp [Cell.refs]))).2]
    exact ⟨_, rfl, trivial, trivial⟩
  | type hcell hheld =>
    rw [hcell]
    obtain rfl := Option.some.inj ((Store.kind?_of_descriptor hcell).symm.trans hkind)
    exact yields_pure ⟨(Store.isBare_descriptor hheld).isFlat, fun _ _ => trivial⟩
  | object hcell hheld hitems =>
    rw [hcell]
    obtain rfl := Option.some.inj ((Store.kind?_of_descriptor hcell).symm.trans hkind)
    have hfields := fieldEntries_yields hheld fun x hx => by
      obtain ⟨key, name, d, hx, hname, hd⟩ := hitems x hx
      exact ⟨key, name, d, hx, hname, Store.isBare_descriptor hd⟩
    refine hfields.bind ?_
    rintro entries _ ⟨rfl, hlabelled⟩
    obtain ⟨v, store', hrun, hflat, hdict, hsame⟩ :=
      dict_yields fun entry hentry => (hlabelled entry hentry).2
    refine ⟨v, store', hrun, hflat, fun _ n => ?_⟩
    rw [Store.unroll_of_dict hdict]
    refine ⟨_, rfl, fun shown hshown => ?_⟩
    obtain ⟨entry, hentry, rfl⟩ := List.mem_map.mp hshown
    obtain ⟨⟨s, hs⟩, -⟩ := hlabelled entry hentry
    have hin : entry.1 < _ := Store.lt_size_of_cell (by rw [hs]; simp)
    have hface : store'.face entry.1 = .string s := by
      rw [Store.face, hsame _ hin, hs]
      rfl
    exact ⟨⟨s, hface⟩, trivial⟩
  | @union held items hcell hheld hitems =>
    rw [hcell]
    obtain rfl := Option.some.inj ((Store.kind?_of_descriptor hcell).symm.trans hkind)
    refine yields_pure ⟨Store.isFlat_tuple hheld fun x hx => ?_, fun _ n => ?_⟩
    · exact Store.isBare_descriptor (hitems x hx)
    · rw [Store.unroll_of_tuple hheld]
      exact ⟨_, rfl, fun _ _ => trivial⟩
  | @file held tag hcell hheld =>
    rw [hcell]
    obtain rfl := Option.some.inj ((Store.kind?_of_descriptor hcell).symm.trans hkind)
    obtain ⟨v, store', hrun, hflat, hshown⟩ :=
      wrapped_yields (Store.isBare_plain hheld (by cases tag <;> rfl)) "type"
    refine ⟨v, store', hrun, hflat, fun hin n => ?_⟩
    obtain ⟨hsame, hunroll⟩ := hshown (hin held (by simp [Cell.refs]))
    rw [hunroll, Store.unroll_of_plain (hsame.trans hheld)]
    exact Descriptor.accepts_configuration (d := .file tag) trivial

end Build

end DataSchema
