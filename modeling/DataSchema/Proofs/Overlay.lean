import DataSchema.Proofs.Fields
import DataSchema.Proofs.Store.Context

/-!
Fields that are laid over others. What has a name that is there takes its place, and what has a new
name comes after; so an object is extended, and nothing is lost if it is done in two steps or in
one. What the extended object accepts, both the fields that were left and the new ones accept.
-/

namespace DataSchema

section Overlay

variable {α β : Type}

/-- Fields with another one written over them: one of the same name keeps its place. -/
def putField (name : String) (a : α) : List (String × α) → List (String × α)
  | [] => [(name, a)]
  | field :: fields =>
    if field.1 = name then (field.1, a) :: fields else field :: putField name a fields

/-- Fields with others laid over them: each in its place as the others have it, and after them what
only the others have. -/
def overlay (fields others : List (String × α)) : List (String × α) :=
  fields.map (fun field => (field.1, (others.lookup field.1).getD field.2)) ++
    others.filter fun field => (fields.lookup field.1).isNone

/-- The fields that have no counterpart among others. -/
def besides (fields others : List (String × α)) : List (String × α) :=
  fields.filter fun field => (others.lookup field.1).isNone

/-! ### What is found under a name -/

theorem lookup_map (f : String → α → β) (fields : List (String × α)) (name : String) :
    (fields.map fun field => (field.1, f field.1 field.2)).lookup name =
      (fields.lookup name).map (f name) := by
  induction fields with
  | nil => rfl
  | cons field fields ih =>
    rw [List.map_cons, List.lookup_cons, List.lookup_cons, ih]
    cases h : name == field.1 with
    | false => rfl
    | true => rw [eq_of_beq h, Option.map_some]

theorem lookup_filter (p : String → Bool) (fields : List (String × α)) (name : String) :
    (fields.filter fun field => p field.1).lookup name =
      if p name then fields.lookup name else none := by
  induction fields with
  | nil => simp
  | cons field fields ih =>
    rw [List.filter_cons, List.lookup_cons]
    cases h : name == field.1 with
    | false =>
      split
      · rw [List.lookup_cons, h, ih]
      · exact ih
    | true =>
      obtain rfl : name = field.1 := eq_of_beq h
      cases hp : p field.1 with
      | true => rw [if_pos rfl, List.lookup_cons, h, if_pos rfl]
      | false => rw [if_neg (by simp), ih, hp, if_neg (by simp), if_neg (by simp)]

/-- Under a name there is what the others have there, else what was there. -/
theorem lookup_overlay (fields others : List (String × α)) (name : String) :
    (overlay fields others).lookup name = (others.lookup name).or (fields.lookup name) := by
  rw [overlay, List.lookup_append, lookup_map fun name a => (others.lookup name).getD a,
    lookup_filter fun name => (fields.lookup name).isNone]
  cases fields.lookup name with
  | none => simp
  | some a => cases others.lookup name <;> rfl

theorem lookup_eq_none_iff {fields : List (String × α)} {name : String} :
    fields.lookup name = none ↔ name ∉ fields.map (·.1) := by
  rw [List.lookup_eq_none_iff, List.mem_map]
  constructor
  · rintro h ⟨field, hfield, rfl⟩
    simpa using h field hfield
  · intro h field hfield
    have hne : name ≠ field.1 := fun heq => h ⟨field, hfield, heq.symm⟩
    simpa using hne

/-- Where no name is there twice, a field is what is found under its name. -/
theorem mem_iff_lookup {fields : List (String × α)} (h : (fields.map (·.1)).Nodup) {name : String}
    {a : α} : (name, a) ∈ fields ↔ fields.lookup name = some a := by
  induction fields with
  | nil => simp
  | cons field fields ih =>
    rw [List.map_cons, List.nodup_cons] at h
    rw [List.mem_cons, List.lookup_cons, ih h.2]
    cases hname : name == field.1 with
    | true =>
      obtain rfl : name = field.1 := eq_of_beq hname
      have hrest : fields.lookup field.1 = none := lookup_eq_none_iff.mpr h.1
      rw [hrest]
      constructor
      · rintro (heq | hsome)
        · exact congrArg some (congrArg Prod.snd heq).symm
        · contradiction
      · intro hsome
        exact .inl (Prod.ext rfl (Option.some.inj hsome).symm)
    | false =>
      refine or_iff_right ?_
      rintro rfl
      simp at hname

/-! ### Overlays -/

theorem overlay_nil (fields : List (String × α)) : overlay fields [] = fields := by
  simp [overlay]

theorem nil_overlay (others : List (String × α)) : overlay [] others = others := by
  simp [overlay]

/-- To lay fields over others in two steps or in one is the same, also in the order. -/
theorem overlay_overlay (fields others further : List (String × α)) :
    overlay (overlay fields others) further = overlay fields (overlay others further) := by
  have hkept : (fields.map fun field => (field.1, (others.lookup field.1).getD field.2)).map
      (fun field => (field.1, (further.lookup field.1).getD field.2)) = fields.map
        fun field => (field.1, ((overlay others further).lookup field.1).getD field.2) := by
    rw [List.map_map]
    refine List.map_congr_left fun field _ => ?_
    rw [lookup_overlay, Function.comp_apply]
    cases further.lookup field.1 <;> rfl
  have hadded : (others.filter fun field => (fields.lookup field.1).isNone).map
      (fun field => (field.1, (further.lookup field.1).getD field.2)) =
      (others.map fun field => (field.1, (further.lookup field.1).getD field.2)).filter
        fun field => (fields.lookup field.1).isNone := by
    rw [List.filter_map]
    rfl
  have hlast : (further.filter fun field => ((overlay fields others).lookup field.1).isNone) =
      (further.filter fun field => (others.lookup field.1).isNone).filter
        fun field => (fields.lookup field.1).isNone := by
    rw [List.filter_filter]
    refine List.filter_congr fun field _ => ?_
    rw [lookup_overlay, Option.isNone_or, Bool.and_comm]
  unfold overlay at hkept hlast ⊢
  rw [List.map_append, hkept, hadded, hlast, List.append_assoc, ← List.filter_append]

/-- A field that is written takes the place of the one of its name, or comes last. -/
theorem putField_eq {fields : List (String × α)} (h : (fields.map (·.1)).Nodup) (name : String)
    (a : α) : putField name a fields = overlay fields [(name, a)] := by
  induction fields with
  | nil => simp [putField, nil_overlay]
  | cons field fields ih =>
    rw [List.map_cons, List.nodup_cons] at h
    rw [putField, ih h.2]
    by_cases hname : field.1 = name
    · subst hname
      have hrest : (fields.map fun other =>
          (other.1, (([(field.1, a)] : List (String × α)).lookup other.1).getD other.2)) =
          fields := by
        refine (List.map_congr_left fun other hother => ?_).trans (List.map_id fields)
        have hne : other.1 ≠ field.1 := fun heq => h.1 (heq ▸ List.mem_map_of_mem hother)
        rw [lookup_eq_none_iff.mpr (by simpa using hne)]
        rfl
      rw [if_pos rfl, overlay, List.map_cons, hrest]
      simp
    · have hfirst : (field.1 == name) = false := by simpa using hname
      have hlast : (name == field.1) = false := by simpa using Ne.symm hname
      have hskip : (field :: fields).lookup name = fields.lookup name := by
        rw [List.lookup_cons, hlast]
      have hrest : ([(name, a)].filter fun other => ((field :: fields).lookup other.1).isNone) =
          [(name, a)].filter fun other => (fields.lookup other.1).isNone := by
        simp only [List.filter_cons, hskip, List.filter_nil]
      rw [if_neg hname, overlay, overlay, List.map_cons, hrest, List.lookup_cons, hfirst]
      rfl

theorem nodup_overlay {fields others : List (String × α)} (h : (fields.map (·.1)).Nodup)
    (h' : (others.map (·.1)).Nodup) : ((overlay fields others).map (·.1)).Nodup := by
  have hfirst : (fields.map fun field => (field.1, (others.lookup field.1).getD field.2)).map
      (·.1) = fields.map (·.1) := by
    rw [List.map_map]
    rfl
  rw [overlay, List.map_append, hfirst]
  refine List.nodup_append.mpr ⟨h, h'.sublist (List.filter_sublist.map _), ?_⟩
  rintro name hname _ hother rfl
  obtain ⟨field, hfield, rfl⟩ := List.mem_map.mp hother
  have hnone := Option.isNone_iff_eq_none.mp (List.mem_filter.mp hfield).2
  exact lookup_eq_none_iff.mp hnone hname

/-- Fields that are written one after the other are laid over those that are there. -/
theorem foldl_putField {fields others : List (String × α)} (h : (fields.map (·.1)).Nodup)
    (h' : (others.map (·.1)).Nodup) :
    others.foldl (fun fields other => putField other.1 other.2 fields) fields =
      overlay fields others := by
  induction others generalizing fields with
  | nil => exact (overlay_nil fields).symm
  | cons other others ih =>
    rw [List.map_cons, List.nodup_cons] at h'
    have hone : overlay [other] others = other :: others := by
      have hnone : others.lookup other.1 = none := lookup_eq_none_iff.mpr h'.1
      have hall : (others.filter fun field => (([other] : List (String × α)).lookup field.1).isNone)
          = others := by
        refine List.filter_eq_self.mpr fun field hfield => ?_
        have hne : field.1 ≠ other.1 := fun heq => h'.1 (heq ▸ List.mem_map_of_mem hfield)
        simpa using hne
      rw [overlay, hall]
      simp [hnone]
    rw [List.foldl_cons, putField_eq h, ih (nodup_overlay h (by simp)) h'.2, overlay_overlay, hone]

/-- The fields of an overlay are those of the others, and those that have no counterpart there. -/
theorem mem_overlay_iff {fields others : List (String × α)} (h : (fields.map (·.1)).Nodup)
    (h' : (others.map (·.1)).Nodup) {field : String × α} :
    field ∈ overlay fields others ↔ field ∈ besides fields others ∨ field ∈ others := by
  obtain ⟨name, a⟩ := field
  rw [mem_iff_lookup (nodup_overlay h h'), lookup_overlay, besides, List.mem_filter,
    mem_iff_lookup h, mem_iff_lookup h', Option.isNone_iff_eq_none]
  cases others.lookup name <;> simp

/-- What is made of each field does not matter to how fields are laid over others. -/
theorem map_overlay (f : α → β) (fields others : List (String × α)) :
    (overlay fields others).map (fun field => (field.1, f field.2)) =
      overlay (fields.map fun field => (field.1, f field.2))
        (others.map fun field => (field.1, f field.2)) := by
  have hothers (name : String) := lookup_map (fun _ => f) others name
  have hfields (name : String) := lookup_map (fun _ => f) fields name
  rw [overlay, overlay, List.map_append, List.map_map, List.map_map, List.filter_map]
  refine congrArg₂ (· ++ ·) (List.map_congr_left fun field _ => ?_) ?_
  · simp only [Function.comp_apply, hothers, Option.getD_map]
  · refine congrArg (List.map _) (List.filter_congr fun field _ => ?_)
    simp only [Function.comp_apply, hfields, Option.isNone_map]

theorem map_besides (f : α → β) (fields others : List (String × α)) :
    (besides fields others).map (fun field => (field.1, f field.2)) =
      besides (fields.map fun field => (field.1, f field.2))
        (others.map fun field => (field.1, f field.2)) := by
  have hothers (name : String) := lookup_map (fun _ => f) others name
  rw [besides, besides, List.filter_map]
  refine congrArg (List.map _) (List.filter_congr fun field _ => ?_)
  simp only [Function.comp_apply, hothers, Option.isNone_map]

end Overlay

/-! ### Extended objects -/

namespace Descriptor

open Value (overwrite)

variable {fields others : List (String × Descriptor)}

theorem put_fieldEntries (name : String) (d : Descriptor) (fields : List (String × Descriptor)) :
    Value.put (.string name) (.descriptor d) (fieldEntries fields) =
      fieldEntries (putField name d fields) := by
  induction fields with
  | nil => rfl
  | cons field fields ih =>
    have hequal : (Value.string field.1).equal (.string name) = (field.1 == name) := rfl
    have hentries (others : List (String × Descriptor)) : fieldEntries (field :: others) =
        (.string field.1, .descriptor field.2) :: fieldEntries others := rfl
    rw [hentries, Value.put, hequal, putField, ih]
    by_cases hname : field.1 = name
    · rw [if_pos (beq_iff_eq.mpr hname), if_pos hname]
      rfl
    · rw [if_neg (by simpa using hname), if_neg hname, hentries]

/-- Entries of fields that are written over others are laid over them. -/
theorem overwrite_overlay (h : (fields.map (·.1)).Nodup) (h' : (others.map (·.1)).Nodup) :
    overwrite (fieldEntries fields) (fieldEntries others) =
      fieldEntries (overlay fields others) := by
  rw [← foldl_putField h h']
  clear h h'
  induction others generalizing fields with
  | nil => rfl
  | cons other others ih =>
    rw [List.foldl_cons, ← ih, ← put_fieldEntries]
    rfl

/-- An object is extended by what updates its fields. -/
theorem extend?_of_updates? {extra : Value} (h : (fields.map (·.1)).Nodup)
    (h' : (others.map (·.1)).Nodup) (hextra : updates? extra = .ok (fieldEntries others)) :
    extend? fields extra = .ok (.object (overlay fields others)) := by
  have hobject : object? (.dict (fieldEntries (overlay fields others))) =
      .ok (.object (overlay fields others)) :=
    object?_eq_ok_iff.mpr ⟨_, .entries rfl, nodup_overlay h h', rfl⟩
  rw [← overwrite_overlay h h'] at hobject
  rw [extend?, hextra]
  exact hobject

/-- An extended object accepts what the fields that are left and the new ones accept. -/
theorem accepts_overlay (h : (fields.map (·.1)).Nodup) (h' : (others.map (·.1)).Nodup) {v : Value} :
    Accepts (.object (overlay fields others)) v ↔
      Accepts (.object (besides fields others)) v ∧ Accepts (.object others) v := by
  have hall (entries : List (Value × Value)) : AcceptAll (overlay fields others) entries ↔
      AcceptAll (besides fields others) entries ∧ AcceptAll others entries := by
    simp only [acceptAll_iff, mem_overlay_iff h h', or_imp, forall_and]
  constructor
  · rintro ⟨entries, hentries, haccept⟩
    obtain ⟨hleft, hnew⟩ := (hall entries).mp haccept
    exact ⟨⟨entries, hentries, hleft⟩, ⟨entries, hentries, hnew⟩⟩
  · rintro ⟨⟨entries, hentries, hleft⟩, ⟨entries', hentries', hnew⟩⟩
    obtain rfl := Option.some.inj (hentries.symm.trans hentries')
    exact ⟨entries, hentries, (hall entries).mpr ⟨hleft, hnew⟩⟩

theorem isBuilt_overlay (h : (fields.map (·.1)).Nodup)
    (hleft : (object (besides fields others)).IsBuilt) (hnew : (object others).IsBuilt) :
    (object (overlay fields others)).IsBuilt := by
  refine ⟨nodup_overlay h hnew.1, (fieldsBuilt_iff _).mpr fun field hfield => ?_⟩
  rcases (mem_overlay_iff h hnew.1).mp hfield with hmem | hmem
  · exact (fieldsBuilt_iff _).mp hleft.2 field hmem
  · exact (fieldsBuilt_iff _).mp hnew.2 field hmem

theorem heightOfFields_le_iff {fields : List (String × Descriptor)} {n : Nat} :
    heightOfFields fields ≤ n ↔ ∀ field ∈ fields, field.2.height < n := by
  induction fields with
  | nil => simp [heightOfFields]
  | cons field fields ih =>
    rw [List.forall_mem_cons, ← ih, heightOfFields]
    omega

end Descriptor

open Descriptor

/-- Where there are levels enough for the fields that are left and for the new ones, there are for
the extended object. -/
theorem Settings.Reach.overlay {settings : Settings} {fields others : List (String × Descriptor)}
    (h : (fields.map (·.1)).Nodup) (h' : (others.map (·.1)).Nodup)
    (hleft : settings.Reach (.object (besides fields others)))
    (hnew : settings.Reach (.object others)) :
    settings.Reach (.object (overlay fields others)) := by
  obtain ⟨levels, hlevels, hleft⟩ := hleft
  obtain ⟨levels', hlevels', hnew⟩ := hnew
  obtain rfl := Option.some.inj (hlevels.symm.trans hlevels')
  refine ⟨levels, hlevels, heightOfFields_le_iff.mpr fun field hfield => ?_⟩
  rcases (mem_overlay_iff h h').mp hfield with hmem | hmem
  · exact heightOfFields_le_iff.mp hleft field hmem
  · exact heightOfFields_le_iff.mp hnew field hmem

/-- Of three descriptors there is an answer about all values and all objects with no fraction that
is too large, and the first is answered for as the two others together. -/
structure Descriptor.Conjoins (settings : Settings) (d left right : Descriptor) : Prop where
  values (v : Value) (hv : v.everywhere Value.fitsFloat = true) :
    ∃ ok ok', validate settings left v = .ok ok ∧ validate settings right v = .ok ok' ∧
      validate settings d v = .ok (ok && ok')
  objects (store : Store) (hproper : store.Proper) (r s t x : Ref)
    (hr : store.descriptorTree? r = some d) (hs : store.descriptorTree? s = some left)
    (ht : store.descriptorTree? t = some right) (hx : store.Everywhere Value.fitsFloat x) :
    ∃ ok ok', store.validate settings s x = .ok ok ∧ store.validate settings t x = .ok ok' ∧
      store.validate settings r x = .ok (ok && ok')

theorem conjoins_overlay {settings : Settings} {fields others : List (String × Descriptor)}
    (h : (fields.map (·.1)).Nodup) (hleft : (object (besides fields others)).IsBuilt)
    (hnew : (object others).IsBuilt) (hreach : settings.Reach (.object (besides fields others)))
    (hreach' : settings.Reach (.object others)) :
    (object (overlay fields others)).Conjoins settings (.object (besides fields others))
      (.object others) := by
  have hvalues (v : Value) (hv : v.everywhere Value.fitsFloat = true) :
      ∃ ok ok', validate settings (.object (besides fields others)) v = .ok ok ∧
        validate settings (.object others) v = .ok ok' ∧
        validate settings (.object (overlay fields others)) v = .ok (ok && ok') := by
    obtain ⟨ok, hok, hiff⟩ := hreach.answers hleft hv
    obtain ⟨ok', hok', hiff'⟩ := hreach'.answers hnew hv
    obtain ⟨both, hboth, hiff''⟩ :=
      (hreach.overlay h hnew.1 hreach').answers (isBuilt_overlay h hleft hnew) hv
    have heq : both = (ok && ok') := by
      rw [Bool.eq_iff_iff, Bool.and_eq_true, hiff, hiff', hiff'']
      exact accepts_overlay h hnew.1
    exact ⟨ok, ok', hok, hok', heq ▸ hboth⟩
  refine ⟨hvalues, fun store hproper r s t x hr hs ht hx => ?_⟩
  have hshows := Store.shows_unroll hproper (settings.depth.limit.bound + 2) x
  rw [Store.validate_eq hproper settings hr hshows, Store.validate_eq hproper settings hs hshows,
    Store.validate_eq hproper settings ht hshows]
  exact hvalues _ (Store.fitsFloat_unroll hproper hx _)

end DataSchema
