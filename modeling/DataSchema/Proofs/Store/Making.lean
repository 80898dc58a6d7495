import DataSchema.Proofs.Store.Alternatives
import DataSchema.Proofs.Store.Growth

/-!
What builders leave in a store. If a builder accepts the sketch of an object, then what it puts down
is a descriptor of the fifteen variants, and the object in its field is in the store. Main
statement: what a descriptor tells about itself is what the shape of configurations asks for.
-/

namespace DataSchema

namespace Store

variable {store : Store}

/-- A descriptor of the fifteen variants that holds what builders put into its field, which is in
the store. -/
structure IsMade (store : Store) (r : Ref) : Prop where
  variant : store.IsVariant r
  field : ∀ x ∈ (store.cell r).refs, x < store.cells.size

/-- A further descriptor that holds an object of the store. -/
theorem isMade_add {kind : Kind} {held : Ref} (hheld : held < store.cells.size)
    (h : ∀ r, (store.add (.descriptor kind held)).2.cell r = .descriptor kind held →
      (store.add (.descriptor kind held)).2.IsVariant r) :
    (store.add (.descriptor kind held)).2.IsMade store.cells.size := by
  refine ⟨h _ (cell_add_size _), ?_⟩
  rw [cell_add_size]
  intro x hx
  obtain rfl : x = held := by simpa [Cell.refs] using hx
  exact Nat.lt_of_lt_of_le hheld (Precedes.add store _).size

end Store

namespace Build

variable {α β : Type} {store : Store}

theorem answer_ensures (said : Except Error Descriptor) :
    (answer said).Ensures store fun d store' => store' = store ∧ said = .ok d := by
  cases said with
  | ok d => exact ensures_pure ⟨rfl, rfl⟩
  | error e => exact ensures_throw

theorem examine_ensures (kind : Kind) (held : Ref) :
    (examine kind held).Ensures store fun _ store' => store' = store ∧
      ∃ d, Descriptor.make? kind (sketch store kind held) = .ok d := by
  refine ensures_get ((answer_ensures _).bind ?_)
  rintro d _ ⟨rfl, hd⟩
  exact ensures_pure ⟨rfl, d, hd⟩

theorem settle_ensures {part : Store.Part} {v : Value} (h : part.Resembles store v) :
    (settle part).Ensures store fun r store' => store.Precedes store' ∧ store'.Resembles r v := by
  cases part with
  | held r => exact ensures_pure ⟨.refl store, h⟩
  | loose u =>
    obtain rfl := h
    have hcell : (store.add (.plain u)).2.cell store.cells.size = .plain u :=
      Store.cell_add_size _
    refine add_ensures ⟨.add store _, fun hu => by rw [hcell, hu], fun {d} hu => ?_⟩
    rw [Store.kind?, Store.face, hcell, hu]
    rfl

/-- Both parts of a pair are settled before something is done with them. -/
theorem settle_bind_ensures {p q : Store.Part} {shown : Value × Value}
    (hp : p.Resembles store shown.1) (hq : q.Resembles store shown.2) {next : Ref → Ref → Build α}
    {Post : α → Store → Prop} (h : ∀ store' a b, store.Precedes store' →
      store'.Follows (a, b) shown → (next a b).Ensures store' Post) :
    (do next (← settle p) (← settle q)).Ensures store Post := by
  refine (settle_ensures hp).bind ?_
  rintro a store' ⟨hgrown, ha⟩
  refine (settle_ensures (hgrown.partResembles hq)).bind ?_
  rintro b store'' ⟨hgrown', hb⟩
  exact h store'' a b (hgrown.trans hgrown') ⟨hgrown'.resembles ha, hb⟩

/-- The pairs behind an object are those that it offers. -/
theorem pairs_ensures {r : Ref} {shown : List (Value × Value)} (h : store.Offers r shown) :
    (pairs r).Ensures store fun fields store' =>
      store.Precedes store' ∧ List.Forall₂ store'.Follows fields shown := by
  refine ensures_get ?_
  cases h with
  | entries hentries hshown =>
    simp only [hentries]
    exact ensures_pure ⟨.refl store, hshown⟩
  | parts hnone hparts hshown =>
    simp only [hnone, hparts, Option.getD_some]
    refine mapM_ensures (lasting_opens store) lasting_follows ?_ hshown
    rintro store' part entry ⟨p, q, hpair, hp, hq⟩
    refine ofExcept_bind_ensures hpair (settle_bind_ensures hp hq ?_)
    exact fun _ _ _ hgrown hfollows => ensures_pure ⟨hgrown, hfollows⟩

/-- A pair that was put down as a tuple. -/
def IsPair (store : Store) (x : Ref) (shown : Value × Value) : Prop :=
  ∃ key v, store.cell x = .tuple [key, v] ∧ store.Follows (key, v) shown

theorem lasting_isPair : Lasting IsPair := by
  rintro store store' hgrown x shown ⟨key, v, hx, hfollows⟩
  exact ⟨key, v, (hgrown.cell_of_ne (by simp [hx])).trans hx, hgrown.follows hfollows⟩

theorem pair_ensures {key v : Ref} {shown : Value × Value} (h : store.Follows (key, v) shown) :
    (pair key v).Ensures store fun x store' => store.Precedes store' ∧ IsPair store' x shown := by
  have hgrown := Store.Precedes.add store (.tuple [key, v])
  exact add_ensures ⟨hgrown, key, v, Store.cell_add_size _, hgrown.follows h⟩

/-- Each field is put down as a tuple. -/
theorem fieldTuple_ensures {fields : List (Ref × Ref)} {shown : List (Value × Value)}
    (h : List.Forall₂ store.Follows fields shown) :
    (fieldTuple fields).Ensures store fun t store' => t < store'.cells.size ∧
      ∃ items, store'.cell t = .tuple items ∧ List.Forall₂ (IsPair store') items shown := by
  refine Ensures.bind (mapM_ensures lasting_follows lasting_isPair ?_ h) ?_
  · exact fun _ _ _ hfollows => pair_ensures hfollows
  rintro items store' ⟨-, hitems⟩
  have hgrown := Store.Precedes.add store' (.tuple items)
  refine add_ensures ⟨Store.size_lt_add _, items, Store.cell_add_size _, ?_⟩
  exact hitems.imp (lasting_isPair _ _ hgrown)

/-- A tuple of fields is what an object holds. -/
theorem object_ensures {fields : List (Ref × Ref)} {shown : List (String × Descriptor)}
    (h : List.Forall₂ store.Follows fields (Descriptor.fieldEntries shown)) :
    (do add (.descriptor .object (← fieldTuple fields)) : Build Ref).Ensures store
      fun r store' => store'.IsMade r := by
  refine (fieldTuple_ensures h).bind ?_
  rintro t store' ⟨ht, items, hcell, hitems⟩
  have hgrown := Store.Precedes.add store' (.descriptor .object t)
  have hkept := (hgrown.cell_of_ne (by simp [hcell])).trans hcell
  refine add_ensures (Store.isMade_add ht fun r hr => .object hr hkept fun x hx => ?_)
  obtain ⟨entry, hentry, hpair⟩ := exists_of_mem_left hitems hx
  obtain ⟨⟨name, d⟩, -, rfl⟩ := List.mem_map.mp hentry
  obtain ⟨key, v, hx, hkey, hv⟩ := lasting_isPair _ _ hgrown x _ hpair
  exact ⟨key, name, v, hx, hkey.text rfl, hv.descriptor rfl⟩

/-- An object that is shown as the fields of an object offers them. -/
theorem offers_of_make? (hproper : store.Proper) {held : Ref} {d : Descriptor}
    (h : Descriptor.make? .object (sketch store .object held) = .ok d) :
    ∃ fields, store.Offers held (Descriptor.fieldEntries fields) := by
  obtain ⟨fields, rfl⟩ := Descriptor.exists_of_object? h
  exact ⟨fields, Store.offers_of_updates? hproper (Descriptor.updates?_of_object? h)⟩

/-- Alternatives are shown as descriptors, and there are no other parts. -/
theorem parts?_of_union? {held : Ref} {d : Descriptor}
    (h : Descriptor.make? .union (sketch store .union held) = .ok d) : ∃ parts,
      store.parts? held = some parts ∧ ∃ ds,
        List.Forall₂ (fun part e => part.Resembles store (.descriptor e)) parts ds := by
  have hunion : Descriptor.union? (opened store (seen store) held) = .ok d := h
  unfold Descriptor.union? at hunion
  rw [Store.parts?_opened] at hunion
  cases hparts : store.parts? held with
  | none =>
    rw [hparts] at hunion
    contradiction
  | some parts =>
    rw [hparts] at hunion
    simp only [Option.map_some] at hunion
    split at hunion
    · contradiction
    · contradiction
    · next shown hne hshown =>
      obtain ⟨ds, hds, -⟩ := exists_of_map_eq_ok hunion
      have hmap : parts.map (Store.Part.shown (seen store)) = ds.map .descriptor :=
        (Option.some.inj hshown).trans (Descriptor.eq_map_of_alternatives? hds)
      rw [← List.forall₂_eq_eq_eq, List.forall₂_map_left_iff, List.forall₂_map_right_iff] at hmap
      refine ⟨parts, rfl, ds, hmap.imp fun part e heq => ?_⟩
      rw [← heq]
      exact .shown Store.resembles_seen part

/-- A tuple of descriptors is what a union holds. -/
theorem union_ensures {parts : List Store.Part} {ds : List Descriptor}
    (h : List.Forall₂ (fun part e => part.Resembles store (.descriptor e)) parts ds) :
    (do add (.descriptor .union (← add (.tuple (← parts.mapM settle)))) : Build Ref).Ensures store
      fun r store' => store'.IsMade r := by
  have hsettled : (parts.mapM settle).Ensures store fun refs store' => store.Precedes store' ∧
      List.Forall₂ (fun x e => store'.Resembles x (.descriptor e)) refs ds := by
    have hparts : Lasting fun store part (e : Descriptor) =>
        Store.Part.Resembles store part (.descriptor e) :=
      fun _ _ hgrown _ _ hpart => hgrown.partResembles hpart
    have hrefs : Lasting fun store x (e : Descriptor) => store.Resembles x (.descriptor e) :=
      fun _ _ hgrown _ _ hx => hgrown.resembles hx
    exact mapM_ensures hparts hrefs (fun _ _ _ hpart => settle_ensures hpart) h
  refine hsettled.bind ?_
  rintro refs store' ⟨-, hrefs⟩
  have htuple : (add (.tuple refs)).Ensures store' fun t store'' =>
      store'.Precedes store'' ∧ t < store''.cells.size ∧ store''.cell t = .tuple refs :=
    add_ensures ⟨.add store' _, Store.size_lt_add _, Store.cell_add_size _⟩
  refine htuple.bind ?_
  rintro t store'' ⟨hgrown, ht, hcell⟩
  have hgrown' := Store.Precedes.add store'' (.descriptor .union t)
  refine add_ensures (Store.isMade_add ht fun r hr => .union hr ((hgrown'.cell ht).trans hcell) ?_)
  intro x hx
  obtain ⟨e, -, hxe⟩ := exists_of_mem_left hrefs hx
  exact (hgrown.trans hgrown').kind? (hxe.descriptor rfl)

theorem kind?_of_child? {kind : Kind} {role : String} {held : Ref} {f : Descriptor → Descriptor}
    {d : Descriptor} (h : (Descriptor.child? kind role (seen store held)).map f = .ok d) :
    (store.kind? held).isSome = true := by
  obtain ⟨c, hc, -⟩ := exists_of_map_eq_ok h
  exact (Store.resembles_seen held).descriptor (Descriptor.eq_descriptor_of_child? hc)

/-- What a builder accepts, it puts down as a descriptor of its kind. -/
theorem make_ensures (hproper : store.Proper) {kind : Kind} (hfield : kind.field?.isSome = true)
    {held : Ref} (hheld : held < store.cells.size) :
    (make kind held).Ensures store fun r store' => store'.IsMade r := by
  refine (examine_ensures kind held).bind ?_
  rintro - store ⟨rfl, d, hd⟩
  refine ensures_get ?_
  have hgrown := Store.Precedes.add store (.descriptor kind held)
  have hkept := hgrown.cell hheld
  cases kind with
  | literal =>
    obtain ⟨p, hp, -⟩ := Descriptor.eq_toValue_of_literal? hd
    have hcell : store.cell held = .plain p.toValue :=
      Store.cell_of_depicts Store.depicts_tree hp (by cases p <;> rfl)
        (by cases p <;> simp [Primitive.toValue])
    exact add_ensures (Store.isMade_add hheld fun r hr => .literal hr (hkept.trans hcell))
  | list =>
    have hkind := hgrown.kind? (kind?_of_child? hd)
    exact add_ensures (Store.isMade_add hheld fun r hr => .list hr hkind)
  | record =>
    have hkind := hgrown.kind? (kind?_of_child? hd)
    exact add_ensures (Store.isMade_add hheld fun r hr => .record hr hkind)
  | optional =>
    have hkind := hgrown.kind? (kind?_of_child? hd)
    exact add_ensures (Store.isMade_add hheld fun r hr => .optional hr hkind)
  | type =>
    have hkind := hgrown.kind? (kind?_of_child? hd)
    exact add_ensures (Store.isMade_add hheld fun r hr => .type hr hkind)
  | object =>
    obtain ⟨fields, hoffers⟩ := offers_of_make? hproper hd
    refine (pairs_ensures hoffers).bind ?_
    rintro entries store' ⟨-, hentries⟩
    exact object_ensures hentries
  | union =>
    obtain ⟨parts, hparts, ds, hshown⟩ := parts?_of_union? hd
    dsimp only
    split
    · next items hcell =>
      obtain rfl : items.map .held = parts := by simpa [Store.parts?, hcell] using hparts
      refine add_ensures (Store.isMade_add hheld fun r hr => .union hr (hkept.trans hcell) ?_)
      intro x hx
      obtain ⟨e, -, hxe⟩ := exists_of_mem_left (List.forall₂_map_left_iff.mp hshown) hx
      exact hgrown.kind? (hxe.descriptor rfl)
    · rw [hparts]
      exact union_ensures hshown
  | file =>
    obtain ⟨tag, htag, -⟩ := Descriptor.eq_tag_of_file? hd
    have hcell : store.cell held = .plain ((tag.map .string).getD .null) :=
      Store.cell_of_depicts Store.depicts_tree htag (by cases tag <;> rfl)
        (by cases tag <;> simp)
    exact add_ensures (Store.isMade_add hheld fun r hr => .file tag hr (hkept.trans hcell))
  | _ => contradiction

/-! ### Extensions -/

/-- A write under a text is the one that is shown. -/
theorem put?_follows {key v : Ref} {s : String} {w : Value}
    (hkey : store.cell key = .plain (.string s)) (hv : store.Resembles v w)
    {entries : List (Ref × Ref)} {shown : List (Value × Value)}
    (h : List.Forall₂ store.Follows entries shown) (htexts : Value.UnderTexts shown)
    {written : List (Ref × Ref)} (hput : store.put? key v entries = .ok written) :
    List.Forall₂ store.Follows written (Value.put (.string s) w shown) := by
  have hentry {k : Ref} {t : String} (hk : store.cell k = .plain (.string t)) :
      store.Resembles k (.string t) :=
    ⟨fun heq => by rw [hk, Value.string.inj heq], nofun⟩
  induction h generalizing written with
  | nil =>
    obtain rfl := Except.ok.inj hput
    exact .cons ⟨hentry hkey, hv⟩ .nil
  | @cons entry e entries shown hfollows hrest ih =>
    obtain ⟨⟨t, ht⟩, htexts⟩ := List.forall_mem_cons.mp htexts
    have hk := hfollows.1.text ht
    have hequal : e.1.equal (.string s) = (t == s) := by rw [ht]; rfl
    simp only [Store.put?, Store.alike?_texts hk hkey] at hput
    rw [Value.put, hequal]
    cases hsame : t == s with
    | true =>
      rw [hsame] at hput
      obtain rfl := Except.ok.inj hput
      exact .cons ⟨hfollows.1, hv⟩ hrest
    | false =>
      rw [hsame] at hput
      obtain ⟨rest, hwritten, heq⟩ : ∃ rest, store.put? key v entries = .ok rest ∧
        pure (entry :: rest) = Except.ok written := exists_of_bind_eq_ok hput
      obtain rfl := Except.ok.inj heq
      exact .cons hfollows (ih htexts hwritten)

theorem put_ensures {key v : Ref} {shown : Value × Value} (hkey : ∃ s, shown.1 = .string s)
    (hfollows : store.Follows (key, v) shown) {entries : List (Ref × Ref)}
    {before : List (Value × Value)} (h : List.Forall₂ store.Follows entries before)
    (htexts : Value.UnderTexts before) :
    (put key v entries).Ensures store fun written store' => store.Precedes store' ∧
      List.Forall₂ store'.Follows written (Value.put shown.1 shown.2 before) := by
  obtain ⟨s, hs⟩ := hkey
  refine ensures_get ((ofExcept_ensures _).bind ?_)
  rintro - store ⟨rfl, -⟩
  refine (ofExcept_ensures _).mono ?_
  rintro written _ ⟨rfl, hwritten⟩
  refine ⟨.refl _, ?_⟩
  rw [hs]
  exact put?_follows (hfollows.1.text hs) hfollows.2 h htexts hwritten

/-- Steps that each write what is shown, one after the other. -/
theorem foldlM_ensures {R : Store → α → Value × Value → Prop}
    {step : List (Ref × Ref) → α → Build (List (Ref × Ref))} (hR : Lasting R)
    (hstep : ∀ store a e entries before, R store a e → (∃ s, e.1 = .string s) →
      List.Forall₂ store.Follows entries before → Value.UnderTexts before →
      (step entries a).Ensures store fun written store' => store.Precedes store' ∧
        List.Forall₂ store'.Follows written (Value.put e.1 e.2 before))
    {as : List α} {es : List (Value × Value)} (has : List.Forall₂ (R store) as es)
    {entries : List (Ref × Ref)} {before : List (Value × Value)}
    (h : List.Forall₂ store.Follows entries before)
    (htexts : Value.UnderTexts (Value.overwrite before es)) :
    (as.foldlM step entries).Ensures store fun written store' => store.Precedes store' ∧
      List.Forall₂ store'.Follows written (Value.overwrite before es) := by
  induction as generalizing store es entries before with
  | nil =>
    cases has
    exact ensures_pure ⟨.refl store, h⟩
  | cons a as ih =>
    cases has with
    | @cons _ e _ es hae has =>
      obtain ⟨hbefore, hes⟩ := Value.underTexts_of_overwrite htexts
      obtain ⟨hkey, -⟩ := List.forall_mem_cons.mp hes
      rw [List.foldlM_cons]
      refine (hstep store a e entries before hae hkey h hbefore).bind ?_
      rintro written store' ⟨hgrown, hwritten⟩
      refine Ensures.mono (ih (has.imp (hR store store' hgrown)) hwritten htexts) ?_
      exact fun _ _ hpost => ⟨hgrown.trans hpost.1, hpost.2⟩

/-- What an object offers is written over entries, if all of it is under texts. -/
theorem merge_ensures {others : Ref} {written : List (Value × Value)}
    (hoffers : store.Offers others written) {entries : List (Ref × Ref)}
    {before : List (Value × Value)} (h : List.Forall₂ store.Follows entries before)
    (htexts : Value.UnderTexts (Value.overwrite before written)) :
    (merge entries others).Ensures store fun merged store' => store.Precedes store' ∧
      List.Forall₂ store'.Follows merged (Value.overwrite before written) := by
  refine ensures_get ?_
  cases hoffers with
  | entries hentries hshown =>
    simp only [hentries]
    refine foldlM_ensures lasting_follows ?_ hshown h htexts
    exact fun _ _ _ _ _ hfollows hkey h htexts => put_ensures hkey hfollows h htexts
  | parts hnone hparts hshown =>
    simp only [hnone, hparts]
    refine foldlM_ensures (lasting_opens store) ?_ hshown h htexts
    rintro store' part e entries before ⟨p, q, hpair, hp, hq⟩ hkey h htexts
    refine ofExcept_bind_ensures hpair (settle_bind_ensures hp hq ?_)
    intro store'' a b hgrown hfollows
    refine (put_ensures hkey hfollows (h.imp fun _ _ => hgrown.follows) htexts).mono ?_
    exact fun _ _ hpost => ⟨hgrown.trans hpost.1, hpost.2⟩

/-- The fields that an object holds are its entries. -/
theorem fieldEntries_ensures (hproper : store.Proper) {held : Ref}
    {fields : List (String × Descriptor)}
    (h : Descriptor.object? (sketch store .object held) = .ok (.object fields)) :
    (fieldEntries held).Ensures store fun entries store' => store.Precedes store' ∧
      List.Forall₂ store'.Follows entries (Descriptor.fieldEntries fields) := by
  have hoffers := Store.offers_of_updates? hproper (Descriptor.updates?_of_object? h)
  have hread := Descriptor.overwrite_of_object? h
  have htexts := Descriptor.underTexts_fieldEntries fields
  rw [← hread] at htexts
  exact hread ▸ merge_ensures hoffers .nil htexts

theorem object?_of_assemble {v : Value} {d : Descriptor}
    (h : Cell.assembleDescriptor .object v = .descriptor d) : Descriptor.object? v = .ok d := by
  refine Descriptor.object?_of_ofHeld? ?_
  unfold Cell.assembleDescriptor at h
  split at h
  · next e he => rw [he, Value.descriptor.inj h]
  · contradiction

/-- An extension holds what was written over the fields, if that is an object. -/
theorem extend_ensures (hproper : store.Proper) (held extra : Ref) :
    (extend held extra).Ensures store fun r store' => store'.IsMade r := by
  refine ensures_get ?_
  split
  · next fields hobject =>
    refine (answer_ensures _).bind ?_
    rintro d store ⟨rfl, hd⟩
    obtain ⟨written, result, hwritten, hresult⟩ := Descriptor.overwrite_of_extend? hd
    have hoffers := Store.offers_of_updates? hproper hwritten
    refine (fieldEntries_ensures hproper (object?_of_assemble hobject)).bind ?_
    rintro entries store' ⟨hgrown, hentries⟩
    have htexts := Descriptor.underTexts_fieldEntries result
    rw [← hresult] at htexts
    refine (merge_ensures (hgrown.offers hoffers) hentries htexts).bind ?_
    rintro merged store'' ⟨-, hmerged⟩
    rw [hresult] at hmerged
    exact object_ensures hmerged
  · refine ((fieldEntries_keeps held).ensures hproper).bind fun entries store' hproper' => ?_
    refine ((merge_keeps entries extra).ensures hproper').bind fun merged store'' hproper'' => ?_
    have hdict : (add (.dict merged)).Ensures store'' fun r final =>
        final.Proper ∧ r < final.cells.size :=
      add_ensures ⟨hproper''.add trivial, Store.size_lt_add _⟩
    refine hdict.bind ?_
    rintro r final ⟨hfinal, hr⟩
    exact make_ensures hfinal rfl hr

/-! ### All builders -/

/-- A method that descriptors have leaves a descriptor that holds the one it is called on. -/
theorem receiver_ensures (method : String) (r : Ref) :
    (receiver method r).Ensures store fun _ store' =>
      store' = store ∧ (store.kind? r).isSome = true := by
  refine ensures_get ?_
  split
  · exact ensures_throw
  · next hkind => exact ensures_pure ⟨rfl, by simpa [Option.isNone_iff_eq_none,
      ← Option.isSome_iff_ne_none] using hkind⟩

theorem optional_ensures (r : Ref) :
    (optional r).Ensures store fun r store' => store'.IsMade r := by
  refine (receiver_ensures "optional" r).bind ?_
  rintro - store ⟨rfl, hkind⟩
  have hin := Store.lt_size_of_cell (Store.cell_ne_of_kind? hkind)
  have hgrown := Store.Precedes.add store (.descriptor .optional r)
  exact add_ensures (Store.isMade_add hin fun x hx => .optional hx (hgrown.kind? hkind))

theorem listed_ensures (r : Ref) :
    (listed r).Ensures store fun r store' => store'.IsMade r := by
  refine (receiver_ensures "list" r).bind ?_
  rintro - store ⟨rfl, hkind⟩
  have hin := Store.lt_size_of_cell (Store.cell_ne_of_kind? hkind)
  have hgrown := Store.Precedes.add store (.descriptor .list r)
  exact add_ensures (Store.isMade_add hin fun x hx => .list hx (hgrown.kind? hkind))

theorem leaf_ensures {d : Descriptor} (h : d.kind.field? = none) (hbuilt : d.IsBuilt) :
    (leaf d).Ensures store fun r store' => store'.IsMade r := by
  refine add_ensures ⟨.leaf (Store.cell_add_size _) h hbuilt, ?_⟩
  simp [Store.cell_add_size, Cell.refs]

/-- The ways to build a descriptor next to the objects of a store. -/
inductive Makes (store : Store) : Build Ref → Prop where
  | leaf {kind : Kind} (h : kind.field? = none) :
    Makes store (leaf ((Descriptor.make? kind .null).toOption.getD .null))
  | make {kind : Kind} (h : kind.field?.isSome = true) {held : Ref}
    (hheld : held < store.cells.size) : Makes store (make kind held)
  | optional (r : Ref) : Makes store (optional r)
  | listed (r : Ref) : Makes store (listed r)
  | extend (base extra : Ref) : Makes store (do extend (← extensible base) extra)

namespace Makes

variable {action : Build Ref}

theorem keeps (h : Makes store action) : Keeps action := by
  cases h with
  | leaf hfield => exact leaf_keeps (parts_of_make? hfield)
  | make hfield => exact make_keeps hfield _
  | optional r => exact optional_keeps r
  | listed r => exact listed_keeps r
  | extend base extra => exact (extensible_keeps base).bind fun held => extend_keeps held extra

theorem ensures (h : Makes store action) (hproper : store.Proper) :
    action.Ensures store fun r store' => store'.IsMade r := by
  cases h with
  | @leaf kind hfield =>
    cases kind with
    | literal | list | record | object | optional | union | type | file => contradiction
    | _ => exact leaf_ensures rfl trivial
  | make hfield hheld => exact make_ensures hproper hfield hheld
  | optional r => exact optional_ensures r
  | listed r => exact listed_ensures r
  | extend base extra =>
    refine ((extensible_keeps base).ensures hproper).bind fun held store' hproper' => ?_
    exact extend_ensures hproper' held extra

end Makes

end Build

/-- Descriptors tell of themselves what the shape of configurations asks for, if three levels are
allowed: those that are trees, all that is built next to the objects of a store, and what holds the
like in its field, be it again and again. -/
theorem configurations_conform {settings : Settings} {q : Rat}
    (hdepth : settings.depth.number = .finite q) (hthree : 3 ≤ q) :
    (∀ d : Descriptor, d.Made → checkConfiguration settings d = .ok true) ∧
    ∀ store : Store, store.Proper →
      (∀ action : Build Ref, Build.Makes store action → ∀ r store',
        action.run store = .ok (r, store') → store'.checkConfiguration settings r = .ok true) ∧
      ∀ r, store.IsMade r → store.checkConfiguration settings r = .ok true := by
  obtain ⟨levels, hlevels, hle⟩ :=
    Depth.exists_levels_of_le hdepth (n := 3) (by exact_mod_cast hthree) (by decide)
  have hmade {store : Store} (hproper : store.Proper) {r : Ref} (h : store.IsMade r) :
      store.checkConfiguration settings r = .ok true :=
    store.checkConfiguration_eq hproper hlevels hle h.variant h.field
  refine ⟨fun d hd => checkConfiguration_eq hlevels hle hd.isVariant, fun store hproper => ?_⟩
  refine ⟨fun action hmakes r store' hrun => ?_, fun r => hmade hproper⟩
  exact hmade (hmakes.keeps store hproper (r, store') hrun) (hmakes.ensures hproper r store' hrun)

/-- The default settings allow three levels. A union whose alternative holds it again tells its
configuration, and so does a list of it. -/
theorem configurations_conform_cases :
    let fields := [("a", Descriptor.optional .number)]
    let extra := Value.dict [(.string "b", .descriptor .void), (.string "a", .descriptor .any)]
    Descriptor.extend? fields extra = .ok (.object [("a", .any), ("b", .void)]) ∧
      checkConfiguration Settings.default (.object [("a", .any), ("b", .void)]) = .ok true ∧
      Store.recursive.IsMade 3 ∧
      Store.recursive.checkConfiguration Settings.default 3 = .ok true ∧
      ∃ store', (Build.make .list 3).run Store.recursive = .ok (8, store') ∧
        store'.checkConfiguration Settings.default 8 = .ok true := by
  intro fields extra
  have hdepth : Settings.default.depth.number = .finite 256 := rfl
  obtain ⟨htrees, hstores⟩ := configurations_conform hdepth (by decide)
  obtain ⟨hbuilt, hheld⟩ := hstores Store.recursive Store.recursive_proper
  have hextend : Descriptor.extend? fields extra = .ok (.object [("a", .any), ("b", .void)]) := rfl
  have hmade : Store.recursive.IsMade 3 := ⟨Store.recursive_isSchema.isVariant, by decide⟩
  have hmakes : Build.Makes Store.recursive (Build.make .list 3) := .make rfl (by decide)
  refine ⟨hextend, htrees _ (.extend hextend), hmade, hheld 3 hmade, _, rfl, ?_⟩
  exact hbuilt _ hmakes 8 _ rfl

end DataSchema
