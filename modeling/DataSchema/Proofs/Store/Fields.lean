import DataSchema.Proofs.Overlay
import DataSchema.Proofs.Store.Comparison
import DataSchema.Proofs.Store.Making

/-!
Objects of a store and the fields that they hold. What lists fields is read pair by pair, and the
very objects that it lists are what an object of these fields holds. Objects of the same fields are
equal, whatever else the store has and however deep their fields go.
-/

namespace DataSchema

namespace Store

variable {store store' : Store} {r x : Ref} {fields : List (String × Ref)}

/-- Entries under the names of fields, of what the fields hold. -/
def Named (store : Store) (entries : List (Ref × Ref)) (fields : List (String × Ref)) : Prop :=
  List.Forall₂ (fun entry field => store.cell entry.1 = .plain (.string field.1) ∧
    entry.2 = field.2) entries fields

/-- What falls into the name of a field and what it holds. -/
def IsField (store : Store) (part : Part) (field : String × Ref) : Prop :=
  ∃ key, store.pair? part = .ok (.held key, .held field.2) ∧
    store.cell key = .plain (.string field.1)

/-- Fields are listed by a mapping with them for its entries, or by what falls into pairs of names
and of what they hold. -/
inductive Lists (store : Store) (r : Ref) (fields : List (String × Ref)) : Prop where
  | entries {entries : List (Ref × Ref)} (h : store.entries? r = some entries)
    (hnamed : store.Named entries fields)
  | parts {parts : List Part} (hentries : store.entries? r = none)
    (h : store.parts? r = some parts) (hpairs : List.Forall₂ store.IsField parts fields)

/-- Descriptors under distinct names. -/
structure AreFields (store : Store) (fields : List (String × Ref)) : Prop where
  nodup : (fields.map (·.1)).Nodup
  kinds (field : String × Ref) (h : field ∈ fields) : (store.kind? field.2).isSome = true

/-- A pair that was put down for a field. -/
def IsFieldPair (store : Store) (x : Ref) (field : String × Ref) : Prop :=
  ∃ key, store.cell x = .tuple [key, field.2] ∧ store.cell key = .plain (.string field.1)

/-- An object that holds just some fields. -/
structure HasFields (store : Store) (r : Ref) (fields : List (String × Ref)) : Prop extends
    store.AreFields fields where
  held : ∃ held items, store.cell r = .descriptor .object held ∧ store.cell held = .tuple items ∧
    List.Forall₂ store.IsFieldPair items fields

/-! ### Stores that grow -/

theorem lasting_isFieldPair : Build.Lasting IsFieldPair := by
  rintro store store' hgrown x field ⟨key, hx, hkey⟩
  exact ⟨key, (hgrown.cell_of_ne (by simp [hx])).trans hx, hgrown.string hkey⟩

theorem Named.lasts (h : store.Precedes store') {entries : List (Ref × Ref)}
    (hnamed : store.Named entries fields) : store'.Named entries fields :=
  hnamed.imp fun _ _ hentry => ⟨h.string hentry.1, hentry.2⟩

theorem Lists.lasts (h : store.Precedes store') (hlists : store.Lists r fields) :
    store'.Lists r fields := by
  cases hlists with
  | entries hentries hnamed => exact .entries (h.entries? hentries) (hnamed.lasts h)
  | parts hnone hparts hpairs =>
    have hcell := h.cell_of_parts? hparts
    refine .parts (by rwa [Store.entries?, hcell]) (by rwa [Store.parts?, hcell]) ?_
    refine hpairs.imp fun part field => ?_
    rintro ⟨key, hpair, hkey⟩
    exact ⟨key, h.pair? hpair, h.string hkey⟩

theorem AreFields.lasts (h : store.Precedes store') (hfields : store.AreFields fields) :
    store'.AreFields fields :=
  ⟨hfields.nodup, fun field hfield => h.kind? (hfields.kinds field hfield)⟩

theorem HasFields.lasts (h : store.Precedes store') (hr : store.HasFields r fields) :
    store'.HasFields r fields := by
  obtain ⟨held, items, hcell, hheld, hitems⟩ := hr.held
  refine ⟨hr.toAreFields.lasts h, held, items, ?_, ?_, ?_⟩
  · exact (h.cell_of_ne (by simp [hcell])).trans hcell
  · exact (h.cell_of_ne (by simp [hheld])).trans hheld
  · exact hitems.imp (lasting_isFieldPair store store' h)

/-! ### What builders see -/

/-- A descriptor is seen as one. -/
theorem exists_seen (hproper : store.Proper) (h : (store.kind? x).isSome = true) :
    ∃ e, Build.seen store x = .descriptor e := by
  unfold kind? face at h
  unfold Build.seen
  cases hcell : store.cell x with
  | descriptor kind held => exact ⟨_, rfl⟩
  | plain v =>
    have htree : store.tree x = v := depicts_tree.plain hcell
    have hplain := hproper.plain hcell
    rw [hcell] at h
    cases v with
    | descriptor e => exact ⟨e, htree⟩
    | altered => contradiction
    | _ => simp [Cell.face, Value.descriptorKind?] at h
  | _ => simp [hcell, Cell.face, Value.descriptorKind?] at h

theorem parts?_of_pair? {part p q : Part} (h : store.pair? part = .ok (p, q)) :
    store.partsOf? part = some [p, q] := by
  unfold pair? at h
  split at h
  · contradiction
  · next a b hparts =>
    obtain ⟨rfl, rfl⟩ := Prod.mk.inj (Except.ok.inj h)
    exact hparts
  · contradiction

/-- A pair of objects is seen with both. -/
theorem parts?_shown_pair {part : Part} {key d : Ref}
    (h : store.pair? part = .ok (.held key, .held d)) :
    (part.shown (Build.openedPair store)).parts? =
      some [store.tree key, Build.seen store d] := by
  have hparts := parts?_of_pair? h
  have hitems {items : List Ref} (heq : items.map Part.held = [.held key, .held d]) :
      items = [key, d] :=
    List.map_injective_iff.mpr (fun _ _ => Part.held.inj) heq
  have hloose {vs : Option (List Value)} : vs.map (·.map Part.loose) ≠
      some [.held key, .held d] := by
    intro heq
    obtain ⟨vs, -, hvs⟩ := Option.map_eq_some_iff.mp heq
    have hmem : Part.held key ∈ vs.map Part.loose := by simp [hvs]
    simp at hmem
  cases part with
  | loose v => exact absurd hparts hloose
  | held x =>
    simp only [partsOf?, parts?] at hparts
    simp only [Part.shown, Build.openedPair]
    cases hcell : store.cell x with
    | list items | tuple items | set items =>
      rw [hcell] at hparts
      obtain rfl := hitems (Option.some.inj hparts)
      rfl
    | dict entries | view entries =>
      rw [hcell] at hparts
      have hkeys : entries.map (·.1) = [key, d] :=
        hitems ((List.map_map ..).trans (Option.some.inj hparts))
      obtain ⟨⟨name, v⟩, rest, rfl, rfl, hrest⟩ := List.map_eq_cons_iff.mp hkeys
      obtain ⟨⟨d', w⟩, last, rfl, rfl, hlast⟩ := List.map_eq_cons_iff.mp hrest
      obtain rfl := List.map_eq_nil_iff.mp hlast
      rfl
    | plain v =>
      rw [hcell] at hparts
      exact absurd hparts hloose
    | descriptor => simp [hcell] at hparts

/-- The fields that an object lists are shown to builders, with all that they ask of them. -/
theorem Lists.shown (hproper : store.Proper) (h : store.Lists r fields)
    (hfields : store.AreFields fields) : ∃ shown : List (String × Descriptor),
      (Build.sketch store .object r).Lists shown ∧ shown.map (·.1) = fields.map (·.1) := by
  obtain ⟨shown, hshown⟩ : ∃ shown : List (String × Descriptor), List.Forall₂ (fun field s =>
      field.1 = s.1 ∧ Build.seen store field.2 = .descriptor s.2) fields shown := by
    refine exists_forall₂_of_mem fun field hfield => ?_
    obtain ⟨e, he⟩ := exists_seen hproper (hfields.kinds field hfield)
    exact ⟨(field.1, e), rfl, he⟩
  refine ⟨shown, ?_, (map_eq_of_forall₂ hshown fun _ _ hs => hs.1).symm⟩
  cases h with
  | @entries entries hentries hnamed =>
    refine .entries ?_
    simp only [Build.sketch, hentries, Value.entries?]
    refine congrArg some (map_eq_of_forall₂ (forall₂_trans hnamed hshown) ?_)
    rintro entry s ⟨field, ⟨hkey, hheld⟩, hname, hseen⟩
    have htree : store.tree entry.1 = .string field.1 := depicts_tree.plain hkey
    rw [htree, hheld, hseen, hname]
  | @parts parts hnone hparts hpairs =>
    have hsketch := parts?_sketch hnone
    rw [hparts] at hsketch
    refine .parts (entries?_sketch hproper hnone) hsketch ?_
    refine List.forall₂_map_left_iff.mpr ((forall₂_trans hpairs hshown).imp fun part s => ?_)
    rintro ⟨field, ⟨key, hpair, hkey⟩, hname, hseen⟩
    have htree : store.tree key = .string field.1 := depicts_tree.plain hkey
    rw [parts?_shown_pair hpair, htree, hseen, hname]

/-- A pair falls into two objects, or into two values that hold nothing. -/
theorem cases_of_pair? (hproper : store.Proper) {part p q : Part} (hpart : part.Proper)
    (h : store.pair? part = .ok (p, q)) : (∃ a b, p = .held a ∧ q = .held b) ∨
      ∃ v w, p = .loose v ∧ q = .loose w ∧ v.holds = false ∧ w.holds = false := by
  have hparts := parts?_of_pair? h
  have hheld {items : List Ref} (heq : some (items.map Part.held) = some [p, q]) :
      ∃ a b, p = .held a ∧ q = .held b := by
    have hlength := congrArg List.length (Option.some.inj heq)
    obtain ⟨a, b, rfl⟩ := List.length_eq_two.mp (by simpa using hlength)
    obtain ⟨rfl, rfl⟩ : Part.held a = p ∧ Part.held b = q := by simpa using heq
    exact ⟨a, b, rfl, rfl⟩
  have hloose {v : Value} (hv : v.IsPlain) (heq : v.parts?.map (·.map Part.loose) = some [p, q]) :
      ∃ a b, p = .loose a ∧ q = .loose b ∧ a.holds = false ∧ b.holds = false := by
    obtain ⟨vs, hvs, hmap⟩ := Option.map_eq_some_iff.mp heq
    obtain ⟨a, b, rfl⟩ := List.length_eq_two.mp (by simpa using congrArg List.length hmap)
    obtain ⟨rfl, rfl⟩ : Part.loose a = p ∧ Part.loose b = q := by simpa using hmap
    exact ⟨a, b, rfl, rfl, hv.holds_of_mem_parts? hvs (by simp),
      hv.holds_of_mem_parts? hvs (by simp)⟩
  cases part with
  | loose v => exact .inr (hloose hpart hparts)
  | held x =>
    simp only [partsOf?, parts?] at hparts
    cases hcell : store.cell x with
    | list items | tuple items | set items =>
      rw [hcell] at hparts
      exact .inl (hheld hparts)
    | dict entries | view entries =>
      rw [hcell] at hparts
      have hkeys : (entries.map (·.1)).map Part.held =
          entries.map fun entry => .held entry.1 := List.map_map ..
      exact .inl (hheld ((congrArg some hkeys).trans hparts))
    | plain v =>
      rw [hcell] at hparts
      exact .inr (hloose (hproper.plain hcell) hparts)
    | descriptor => simp [hcell] at hparts

/-- What falls into a pair that shows a field is one. -/
theorem isField_of_shown (hproper : store.Proper) {part : Part} (hpart : part.Proper)
    {name : String} {e : Descriptor}
    (h : (part.shown (Build.openedPair store)).parts? = some [.string name, .descriptor e]) :
    ∃ d, store.IsField part (name, d) ∧ (store.kind? d).isSome = true := by
  obtain ⟨p, q, hpair, hp, hq⟩ := exists_pair_of_shown h
  rcases cases_of_pair? hproper hpart hpair with ⟨key, d, rfl, rfl⟩ | ⟨v, w, rfl, rfl, -, hw⟩
  · exact ⟨d, ⟨key, hpair, hp.text rfl⟩, hq.descriptor rfl⟩
  · obtain rfl : w = .descriptor e := hq
    contradiction

/-- What builders make an object of lists its fields. -/
theorem exists_lists (hproper : store.Proper) {d : Descriptor}
    (h : Descriptor.object? (Build.sketch store .object r) = .ok d) :
    ∃ fields, store.Lists r fields ∧ store.AreFields fields := by
  obtain ⟨shown, hshown, hnodup, -⟩ := Descriptor.object?_eq_ok_iff.mp h
  have hare {fields : List (String × Ref)} (hfields : List.Forall₂ (fun s field => s.1 = field.1 ∧
      (store.kind? field.2).isSome = true) shown fields) : store.AreFields fields :=
    ⟨map_eq_of_forall₂ hfields (fun _ _ hs => hs.1) ▸ hnodup,
      forall_mem_of_forall₂ hfields fun _ _ hs => hs.2⟩
  cases hentries : store.entries? r with
  | some entries =>
    have hall : List.Forall₂ (fun entry s => (store.tree entry.1, Build.seen store entry.2) =
        (Value.string s.1, Value.descriptor s.2)) entries shown := by
      cases hshown with
      | entries hsketch =>
        simp only [Build.sketch, hentries] at hsketch
        have hmap := Option.some.inj hsketch
        rw [Descriptor.fieldEntries, ← List.forall₂_eq_eq_eq, List.forall₂_map_left_iff,
          List.forall₂_map_right_iff] at hmap
        exact hmap
      | parts hnone => simp [Build.sketch, hentries, Value.entries?] at hnone
    obtain ⟨fields, hfields, hnamed⟩ := exists_forall₂ hall
        (S := fun s (field : String × Ref) => s.1 = field.1 ∧
          (store.kind? field.2).isSome = true)
        (T := fun entry field => store.cell entry.1 = .plain (.string field.1) ∧
          entry.2 = field.2) <| by
      intro entry s heq
      obtain ⟨hkey, hseen⟩ := Prod.mk.inj heq
      have hkind := (resembles_seen entry.2).descriptor hseen
      exact ⟨(s.1, entry.2), ⟨rfl, hkind⟩, (depicts_tree.resembles entry.1).text hkey, rfl⟩
    exact ⟨fields, .entries hentries hnamed, hare hfields⟩
  | none =>
    cases hshown with
    | entries hsketch => simp [entries?_sketch hproper hentries] at hsketch
    | @parts opened _ hopened hpairs =>
      rw [parts?_sketch hentries] at hopened
      obtain ⟨parts, hparts, rfl⟩ := Option.map_eq_some_iff.mp hopened
      have hall := forall₂_with (List.forall₂_map_left_iff.mp hpairs)
        (fun part hpart => hproper.of_mem_parts? hparts hpart) fun s _ => trivial
      obtain ⟨fields, hfields, hlisted⟩ := exists_forall₂ hall
          (S := fun s (field : String × Ref) => s.1 = field.1 ∧
            (store.kind? field.2).isSome = true)
          (T := store.IsField) <| by
        rintro part s ⟨hpart, -, hpair⟩
        obtain ⟨d, hfield, hkind⟩ := isField_of_shown hproper hpart hpair
        exact ⟨(s.1, d), ⟨rfl, hkind⟩, hfield⟩
      exact ⟨fields, .parts hentries hparts hlisted, hare hfields⟩

/-- Builders make an object of just what lists descriptors under distinct names. -/
theorem object?_sketch_iff (hproper : store.Proper) :
    (∃ d, Descriptor.object? (Build.sketch store .object r) = .ok d) ↔
      ∃ fields, store.Lists r fields ∧ store.AreFields fields := by
  constructor
  · rintro ⟨d, hd⟩
    exact exists_lists hproper hd
  · rintro ⟨fields, hlists, hfields⟩
    obtain ⟨shown, hshown, hnames⟩ := hlists.shown hproper hfields
    exact ⟨_, Descriptor.object?_eq_ok_iff.mpr ⟨shown, hshown, hnames ▸ hfields.nodup, rfl⟩⟩

/-- A write under the name of a field puts it among the others. -/
theorem put?_named {key v : Ref} {name : String} (hkey : store.cell key = .plain (.string name))
    {entries : List (Ref × Ref)} (h : store.Named entries fields) :
    ∃ written, store.put? key v entries = .ok written ∧
      store.Named written (putField name v fields) := by
  induction h with
  | nil => exact ⟨[(key, v)], rfl, .cons ⟨hkey, rfl⟩ .nil⟩
  | @cons entry field entries fields hentry hrest ih =>
    obtain ⟨written, hwritten, hnamed⟩ := ih
    simp only [put?, alike?_texts hentry.1 hkey, hwritten, putField]
    by_cases hname : field.1 = name
    · rw [if_pos hname, beq_iff_eq.mpr hname]
      exact ⟨_, rfl, .cons ⟨hentry.1, rfl⟩ hrest⟩
    · rw [if_neg hname, beq_eq_false_iff_ne.mpr hname]
      exact ⟨_, rfl, .cons hentry hnamed⟩

end Store

namespace Build

open Store (Named Lists AreFields HasFields IsField IsFieldPair)

variable {α β γ : Type} {store : Store} {fields : List (String × Ref)}

/-! ### Reading and writing fields -/

/-- What is made of one element after the other is made, and stays what it is. -/
theorem mapM_yields {R : Store → α → γ → Prop} {S : Store → β → γ → Prop}
    {f : α → Build β} (hR : Lasting R) (hS : Lasting S)
    (hf : ∀ store a c, R store a c →
      (f a).Yields store fun b store' => store.Precedes store' ∧ S store' b c)
    {as : List α} {cs : List γ} (h : List.Forall₂ (R store) as cs) :
    (as.mapM f).Yields store fun bs store' =>
      store.Precedes store' ∧ List.Forall₂ (S store') bs cs := by
  induction as generalizing store cs with
  | nil =>
    cases h
    exact yields_pure ⟨.refl store, .nil⟩
  | cons a as ih =>
    cases h with
    | cons hac h =>
      rw [List.mapM_cons]
      refine (hf store _ _ hac).bind ?_
      rintro b store' ⟨hgrown, hb⟩
      refine (ih (h.imp (hR store store' hgrown))).bind ?_
      rintro bs store'' ⟨hgrown', hbs⟩
      exact yields_pure ⟨hgrown.trans hgrown', .cons (hS store' store'' hgrown' b _ hb) hbs⟩

theorem put_named {key v : Ref} {name : String} (hkey : store.cell key = .plain (.string name))
    {entries : List (Ref × Ref)} (h : store.Named entries fields) :
    (put key v entries).Yields store fun written store' => store' = store ∧
      store.Named written (putField name v fields) := by
  obtain ⟨written, hwritten, hnamed⟩ := Store.put?_named (v := v) hkey h
  have hhash : (ofExcept (store.hashable? key) : Build Unit).Yields store fun _ store' =>
      store' = store := yields_ofExcept (Store.hashable?_of_plain hkey rfl) rfl
  refine yields_get (hhash.bind ?_)
  rintro - _ rfl
  exact yields_ofExcept hwritten ⟨rfl, hnamed⟩

/-- Steps that each write a field, one after the other. -/
theorem foldlM_named {R : α → String × Ref → Prop}
    {step : List (Ref × Ref) → α → Build (List (Ref × Ref))}
    (hstep : ∀ entries fields a field, R a field → store.Named entries fields →
      (step entries a).Yields store fun written store' => store' = store ∧
        store.Named written (putField field.1 field.2 fields))
    {as : List α} {others : List (String × Ref)} (has : List.Forall₂ R as others)
    {entries : List (Ref × Ref)} (h : store.Named entries fields) :
    (as.foldlM step entries).Yields store fun merged store' => store' = store ∧
      store.Named merged
        (others.foldl (fun fields other => putField other.1 other.2 fields) fields) := by
  induction has generalizing entries fields with
  | nil => exact yields_pure ⟨rfl, h⟩
  | @cons a other as others hother _ ih =>
    rw [List.foldlM_cons]
    refine (hstep entries fields a other hother h).bind ?_
    rintro written _ ⟨rfl, hwritten⟩
    exact ih hwritten

/-- What lists fields is laid over entries. -/
theorem merge_named {others : Ref} {further : List (String × Ref)}
    (hothers : store.Lists others further) (hfurther : (further.map (·.1)).Nodup)
    (hfields : (fields.map (·.1)).Nodup) {entries : List (Ref × Ref)}
    (h : store.Named entries fields) :
    (merge entries others).Yields store fun merged store' => store' = store ∧
      store.Named merged (overlay fields further) := by
  rw [← foldl_putField hfields hfurther]
  refine yields_get ?_
  cases hothers with
  | entries hentries hnamed =>
    simp only [hentries]
    refine foldlM_named (fun before shown entry field hentry hbefore => ?_) hnamed h
    rw [← hentry.2]
    exact put_named hentry.1 hbefore
  | parts hnone hparts hpairs =>
    simp only [hnone, hparts]
    refine foldlM_named (fun before shown part field hpart hbefore => ?_) hpairs h
    obtain ⟨key, hpair, hkey⟩ := hpart
    rw [hpair]
    exact put_named hkey hbefore

/-- The fields of an object as entries. -/
theorem fieldEntries_named {held : Ref} (h : store.Lists held fields)
    (hfields : (fields.map (·.1)).Nodup) : (fieldEntries held).Yields store
      fun entries store' => store' = store ∧ store.Named entries fields := by
  have hnone : store.Named [] [] := .nil
  have hmerge := merge_named h hfields (by simp) hnone
  rwa [nil_overlay] at hmerge

theorem lasting_named : Lasting fun store (entry : Ref × Ref) (field : String × Ref) =>
    store.cell entry.1 = .plain (.string field.1) ∧ entry.2 = field.2 :=
  fun _ _ hgrown _ _ hentry => ⟨hgrown.string hentry.1, hentry.2⟩

/-- The pairs behind what lists fields are these fields. -/
theorem pairs_named {r : Ref} (h : store.Lists r fields) :
    (pairs r).Yields store fun entries store' => store.Precedes store' ∧
      store'.Named entries fields := by
  refine yields_get ?_
  cases h with
  | entries hentries hnamed =>
    simp only [hentries]
    exact yields_pure ⟨.refl store, hnamed⟩
  | parts hnone hparts hpairs =>
    simp only [hnone, hparts, Option.getD_some]
    have hlasts : Lasting fun store' part (field : String × Ref) => ∃ key,
        store.pair? part = .ok (.held key, .held field.2) ∧
          store'.cell key = .plain (.string field.1) :=
      fun _ _ hgrown _ _ ⟨key, hpair, hkey⟩ => ⟨key, hpair, hgrown.string hkey⟩
    refine mapM_yields hlasts lasting_named ?_ hpairs
    rintro store' part field ⟨key, hpair, hkey⟩
    rw [hpair]
    exact yields_pure ⟨.refl store', hkey, rfl⟩

/-- A name and what is under it are put down as the pair of a field. -/
theorem pair_yields {key d : Ref} {name : String} (hkey : store.cell key = .plain (.string name)) :
    (pair key d).Yields store fun x store' =>
      store.Precedes store' ∧ store'.IsFieldPair x (name, d) := by
  have hgrown := Store.Precedes.add store (.tuple [key, d])
  exact add_yields ⟨hgrown, key, Store.cell_add_size _, hgrown.string hkey⟩

/-- The pairs of fields are put down as one tuple. -/
theorem tuple_yields {action : Build (List Ref)} (h : action.Yields store fun items store' =>
      store.Precedes store' ∧ List.Forall₂ store'.IsFieldPair items fields) :
    (do add (.tuple (← action)) : Build Ref).Yields store fun t store' => store.Precedes store' ∧
      t < store'.cells.size ∧ ∃ items, store'.cell t = .tuple items ∧
        List.Forall₂ store'.IsFieldPair items fields := by
  refine h.bind ?_
  rintro items store' ⟨hgrown, hitems⟩
  have hgrown' := Store.Precedes.add store' (.tuple items)
  refine add_yields ⟨hgrown.trans hgrown', Store.size_lt_add _, items, Store.cell_add_size _, ?_⟩
  exact hitems.imp (Store.lasting_isFieldPair store' _ hgrown')

/-- Each field is put down as a pair. -/
theorem fieldTuple_named {entries : List (Ref × Ref)} (h : store.Named entries fields) :
    (fieldTuple entries).Yields store fun t store' => store.Precedes store' ∧
      t < store'.cells.size ∧ ∃ items, store'.cell t = .tuple items ∧
        List.Forall₂ store'.IsFieldPair items fields := by
  refine tuple_yields (mapM_yields lasting_named Store.lasting_isFieldPair ?_ h)
  rintro store' ⟨key, d⟩ field ⟨hkey, rfl⟩
  exact pair_yields hkey

/-- An object is put down that holds the fields behind entries. -/
theorem object_yields {entries : List (Ref × Ref)} (hfields : store.AreFields fields)
    (h : store.Named entries fields) :
    (do add (.descriptor .object (← fieldTuple entries)) : Build Ref).Yields store
      fun r store' => store.Precedes store' ∧ store'.HasFields r fields := by
  refine (fieldTuple_named h).bind ?_
  rintro t store' ⟨hgrown, ht, items, hcell, hitems⟩
  have hgrown' := Store.Precedes.add store' (.descriptor .object t)
  have hboth := hgrown.trans hgrown'
  refine add_yields ⟨hboth, hfields.lasts hboth, t, items, Store.cell_add_size _, ?_, ?_⟩
  · exact (hgrown'.cell ht).trans hcell
  · exact hitems.imp (Store.lasting_isFieldPair store' _ hgrown')

/-- An object is made of what lists descriptors under distinct names, and holds these fields. -/
theorem make_yields (hproper : store.Proper) {held : Ref} (h : store.Lists held fields)
    (hfields : store.AreFields fields) : (make .object held).Yields store fun r store' =>
      store.Precedes store' ∧ store'.HasFields r fields := by
  obtain ⟨d, hd⟩ := (Store.object?_sketch_iff hproper).mpr ⟨fields, h, hfields⟩
  have hread : (answer (Descriptor.object? (sketch store .object held))).Yields store
      fun _ store' => store' = store := answer_yields hd rfl
  have hexamine : (examine .object held).Yields store fun _ store' => store' = store :=
    yields_get (hread.bind fun _ _ heq => yields_pure heq)
  refine hexamine.bind ?_
  rintro - _ rfl
  refine yields_get ((pairs_named h).bind ?_)
  rintro entries store' ⟨hgrown, hnamed⟩
  obtain ⟨r, store'', hrun, hgrown', hr⟩ := object_yields (hfields.lasts hgrown) hnamed
  exact ⟨r, store'', hrun, hgrown.trans hgrown', hr⟩

end Build

namespace Store

variable {store : Store} {x y : Ref} {fields : List (String × Ref)}

/-! ### Objects of the same fields -/

/-- The tuple of the pairs of some fields is a tree if all that the fields hold are. -/
theorem tree_of_fieldPairs {items : List Ref} (hcell : store.cell x = .tuple items)
    (hitems : List.Forall₂ store.IsFieldPair items fields)
    (htrees : ∀ field ∈ fields, store.isTree field.2 = true) : store.isTree x = true ∧
      store.tree x = .tuple
        (fields.map fun field => .tuple [.string field.1, store.tree field.2]) := by
  refine tree_of_tuple hcell ((forall₂_with hitems (fun _ _ => trivial) htrees).imp ?_)
  rintro item field ⟨-, htree, key, hitem, hkey⟩
  have hname : store.tree key = .string field.1 := depicts_tree.plain hkey
  exact tree_of_tuple (f := fun v => v) hitem
    (.cons ⟨isTree_of_plain hkey, hname⟩ (.cons ⟨htree, rfl⟩ .nil))

theorem isTree_of_fieldPairs {items : List Ref} (hcell : store.cell x = .tuple items)
    (hitems : List.Forall₂ store.IsFieldPair items fields) (hx : store.isTree x = true) :
    ∀ field ∈ fields, store.isTree field.2 = true := by
  intro field hfield
  obtain ⟨item, hitem, key, hpair, -⟩ := exists_of_mem_left hitems.flip hfield
  have hitem : store.isTree item = true := isTree_of_mem_refs hx (by simpa [hcell, Cell.refs])
  exact isTree_of_mem_refs hitem (by simp [hpair, Cell.refs])

/-- The descriptor that an object is as a tree. What is none counts as that of the absent value. -/
def treeOf (store : Store) (r : Ref) : Descriptor := (store.descriptorTree? r).getD .null

/-- An object is a tree just if all that its fields hold are, and has their trees for fields. -/
theorem HasFields.descriptorTree?_iff (h : store.HasFields x fields) {d : Descriptor} :
    store.descriptorTree? x = some d ↔
      (∀ field ∈ fields, (store.descriptorTree? field.2).isSome = true) ∧
        d = .object (fields.map fun field => (field.1, store.treeOf field.2)) := by
  obtain ⟨held, items, hcell, hheld, hitems⟩ := h.held
  constructor
  · intro hd
    rcases cell_of_descriptorTree? hd with hplain | ⟨kind, held', hcell', htree, hmade⟩
    · simp [hcell] at hplain
    obtain ⟨rfl, rfl⟩ := Cell.descriptor.inj (hcell.symm.trans hcell')
    have htrees := isTree_of_fieldPairs hheld hitems htree
    rw [(tree_of_fieldPairs hheld hitems htrees).2] at hmade
    obtain ⟨shown, hshown, -, rfl⟩ :=
      Descriptor.object?_eq_ok_iff.mp (Descriptor.object?_of_ofHeld? hmade)
    have hall : List.Forall₂ (fun (field : String × Ref) s => field.1 = s.1 ∧
        store.descriptorTree? field.2 = some s.2) fields shown := by
      cases hshown with
      | entries hnone => simp [Value.entries?] at hnone
      | parts _ hparts hpairs =>
        obtain rfl := Option.some.inj hparts
        refine (forall₂_with (List.forall₂_map_left_iff.mp hpairs) htrees
          fun _ _ => trivial).imp fun field s => ?_
        rintro ⟨htree, -, hpair⟩
        obtain ⟨hname, hd⟩ : field.1 = s.1 ∧ store.tree field.2 = .descriptor s.2 := by
          simpa [Value.parts?] using hpair
        exact ⟨hname, descriptorTree?_eq_some.mpr ⟨htree, hd⟩⟩
    refine ⟨fun field hfield => ?_, congrArg Descriptor.object ?_⟩
    · obtain ⟨s, -, -, hs⟩ := exists_of_mem_left hall hfield
      rw [hs]
      rfl
    · refine (List.map_id shown).symm.trans (map_eq_of_forall₂ hall fun field s hs => ?_).symm
      exact Prod.ext hs.1 (by rw [treeOf, hs.2]; rfl)
  · rintro ⟨hall, rfl⟩
    have htree (field : String × Ref) (hfield : field ∈ fields) :
        store.isTree field.2 = true ∧ store.tree field.2 = .descriptor (store.treeOf field.2) := by
      obtain ⟨e, he⟩ := Option.isSome_iff_exists.mp (hall field hfield)
      rw [treeOf, he]
      exact descriptorTree?_eq_some.mp he
    obtain ⟨hheldt, hheldt'⟩ :=
      tree_of_fieldPairs hheld hitems fun field hfield => (htree field hfield).1
    refine descriptorTree?_of_field hcell hheldt ?_
    have hshown : store.tree held = .tuple ((fields.map fun field =>
        (field.1, store.treeOf field.2)).map Descriptor.heldField) := by
      rw [hheldt', List.map_map]
      refine congrArg Value.tuple (List.map_congr_left fun field hfield => ?_)
      rw [(htree field hfield).2]
      rfl
    rw [hshown, Descriptor.ofHeld?_object]
    refine Descriptor.fields?_eq_ok_iff.mpr ⟨?_, ?_, fun _ _ => List.not_mem_nil⟩
    · exact List.forall₂_map_left_iff.mpr (List.forall₂_same.mpr fun _ _ => rfl)
    · rw [List.map_map]
      exact h.nodup

/-- Objects of the same fields are one tree or none. -/
theorem HasFields.descriptorTree? (hx : store.HasFields x fields) (hy : store.HasFields y fields) :
    store.descriptorTree? x = store.descriptorTree? y :=
  Option.ext fun _ => hx.descriptorTree?_iff.trans hy.descriptorTree?_iff.symm

theorem equalWithin_texts {s : String} (hx : store.cell x = .plain (.string s))
    (hy : store.cell y = .plain (.string s)) (depth calls levels : Nat) :
    store.equalWithin (depth + 1) ⟨calls, levels + 1⟩ x y = .ok true := by
  simp [equalWithin, comparisonToll, hx, hy, Room.after?, equalBy, Value.plainEqual?,
    Value.isSignaling, Value.equal]

/-- What is found to be equal is so whether or not it is one object. -/
theorem found_of_equalWithin {depth : Nat} {room : Room}
    (h : store.equalWithin depth room x y = .ok true) :
    (if store.isSame x y then .ok true else store.equalWithin depth room x y) = .ok true := by
  rw [h, ite_self]

theorem equalWithin_fieldPairs {field : String × Ref} (hx : store.IsFieldPair x field)
    (hy : store.IsFieldPair y field) (depth calls levels : Nat) :
    store.equalWithin (depth + 2) ⟨calls, levels + 2⟩ x y = .ok true := by
  obtain ⟨key, hx, hkey⟩ := hx
  obtain ⟨key', hy, hkey'⟩ := hy
  have hroom : Room.after? ⟨calls, levels + 2⟩ (store.comparisonToll x) =
      some ⟨calls, levels + 1⟩ := by simp [comparisonToll, hx, Room.after?]
  have hnames := found_of_equalWithin (equalWithin_texts hkey hkey' depth calls levels)
  have hheld : (if store.isSame field.2 field.2 then .ok true else
      store.equalWithin (depth + 1) ⟨calls, levels + 1⟩ field.2 field.2) = .ok true :=
    if_pos (isSame_iff.mpr (.inl rfl))
  simp only [equalWithin, hroom, equalBy, hx, hy]
  exact equalAll_iff.mpr (.cons hnames (.cons hheld .nil))

theorem equalWithin_fieldTuples {items items' : List Ref} (hx : store.cell x = .tuple items)
    (hy : store.cell y = .tuple items') (h : List.Forall₂ store.IsFieldPair items fields)
    (h' : List.Forall₂ store.IsFieldPair items' fields) (depth calls levels : Nat) :
    store.equalWithin (depth + 3) ⟨calls, levels + 3⟩ x y = .ok true := by
  have hroom : Room.after? ⟨calls, levels + 3⟩ (store.comparisonToll x) =
      some ⟨calls, levels + 2⟩ := by simp [comparisonToll, hx, Room.after?]
  simp only [equalWithin, hroom, equalBy, hx, hy]
  refine equalAll_iff.mpr ((forall₂_trans h h'.flip).imp ?_)
  rintro item item' ⟨field, hitem, hitem'⟩
  exact found_of_equalWithin (equalWithin_fieldPairs hitem hitem' depth calls levels)

/-- Comparing objects of the same fields takes four levels, since what the fields hold is one object
to begin with. -/
theorem HasFields.equalParts (hx : store.HasFields x fields) (hy : store.HasFields y fields) :
    store.equal? x y = .ok true := by
  obtain ⟨u, items, hcell, hu, hitems⟩ := hx.held
  obtain ⟨w, items', hcell', hw, hitems'⟩ := hy.held
  have hroom : Room.whole.after? (store.comparisonToll x) = some ⟨993, 9992 + 3⟩ := by
    simp [comparisonToll, hcell, Room.after?, Room.whole]
  have htuples := equalWithin_fieldTuples hu hw hitems hitems' 9995 993 9992
  show store.equalWithin (9995 + 3 + 1) Room.whole x y = .ok true
  rw [equalWithin, hroom]
  simp only [equalBy, hcell, hcell']
  simpa using found_of_equalWithin htuples

/-- Objects of the same fields are equal. -/
theorem HasFields.equal? (hx : store.HasFields x fields) (hy : store.HasFields y fields) :
    Workspace.equal? store x y = .ok true := by
  have hschemas : Workspace.schema? store x = Workspace.schema? store y := by
    rw [Workspace.schema?, Workspace.schema?, hx.descriptorTree? hy]
  unfold Workspace.equal?
  rw [hschemas]
  cases Workspace.schema? store y with
  | none => exact hx.equalParts hy
  | some d => exact congrArg Except.ok d.same_refl

end Store

end DataSchema
