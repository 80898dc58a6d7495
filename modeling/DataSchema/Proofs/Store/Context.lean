import DataSchema.Proofs.Store.Conformance
import DataSchema.Proofs.Totality

/-!
Descriptors inside of descriptors. A variant asks of the descriptors it holds only what they accept:
if one of them is replaced by another that accepts more, then what is around it accepts more, too,
at whatever depth. Two that accept the same can stand for each other.
-/

namespace DataSchema

namespace Descriptor

/-- A descriptor with a hole in it. -/
inductive Context where
  | hole
  | list (inner : Context)
  | record (inner : Context)
  | object (before : List (String × Descriptor)) (name : String) (inner : Context)
    (after : List (String × Descriptor))
  | optional (inner : Context)
  | union (before : List Descriptor) (inner : Context) (after : List Descriptor)

namespace Context

/-- The descriptor with another in its hole. -/
def fill (d : Descriptor) : Context → Descriptor
  | hole => d
  | list inner => .list (inner.fill d)
  | record inner => .record (inner.fill d)
  | object before name inner after => .object (before ++ (name, inner.fill d) :: after)
  | optional inner => .optional (inner.fill d)
  | union before inner after => .union (before ++ inner.fill d :: after)

theorem isBuilt_of_fill {d : Descriptor} (context : Context) (h : (context.fill d).IsBuilt) :
    d.IsBuilt := by
  induction context with
  | hole => exact h
  | list inner ih | record inner ih | optional inner ih => exact ih h
  | object before name inner after ih =>
    exact ih ((fieldsBuilt_iff _).mp h.2 (name, inner.fill d) (by simp))
  | union before inner after ih => exact ih ((allBuilt_iff _).mp h.2 (inner.fill d) (by simp))

end Context

end Descriptor

open Descriptor

/-- Whatever stands in the hole counts only for what it accepts: accepting more there is accepting
more as a whole. -/
theorem accepts_fill {d e : Descriptor}
    (h : ∀ v : Value, v.everywhere Value.fitsFloat = true → Accepts d v → Accepts e v)
    (context : Context) {v : Value} (hv : v.everywhere Value.fitsFloat = true)
    (hd : Accepts (context.fill d) v) : Accepts (context.fill e) v := by
  induction context generalizing v with
  | hole => exact h v hv hd
  | list inner ih =>
    obtain ⟨items, hitems, hall⟩ := hd
    exact ⟨items, hitems, fun w hw =>
      ih (Value.everywhere_elements hv hitems w hw) (hall w hw)⟩
  | record inner ih =>
    obtain ⟨entries, hentries, hall⟩ := hd
    refine ⟨entries, hentries, fun entry hentry => ⟨(hall entry hentry).1, ?_⟩⟩
    exact ih (Value.everywhere_entries hv hentries entry hentry) (hall entry hentry).2
  | object before name inner after ih =>
    obtain ⟨entries, hentries, hall⟩ := hd
    rw [acceptAll_iff, List.forall_mem_append, List.forall_mem_cons] at hall
    obtain ⟨hbefore, hfield, hafter⟩ := hall
    refine ⟨entries, hentries, ?_⟩
    rw [acceptAll_iff, List.forall_mem_append, List.forall_mem_cons]
    exact ⟨hbefore, ih (Value.everywhere_entryOrNull rfl hv hentries name) hfield, hafter⟩
  | optional inner ih => exact hd.imp id (ih hv)
  | union before inner after ih =>
    obtain ⟨c, hc, haccepts⟩ := (acceptsSome_iff _ _).mp hd
    refine (acceptsSome_iff _ _).mpr ?_
    rcases List.mem_append.mp hc with hbefore | hrest
    · exact ⟨c, List.mem_append_left _ hbefore, haccepts⟩
    · rcases List.mem_cons.mp hrest with rfl | hafter
      · exact ⟨inner.fill e, by simp, ih hv haccepts⟩
      · exact ⟨c, by simp [hafter], haccepts⟩

/-! ### Validation -/

/-- There are as many levels as a descriptor is high. -/
def Settings.Reach (settings : Settings) (d : Descriptor) : Prop :=
  ∃ levels, settings.depth.limit.levels = some levels ∧ d.height ≤ levels

/-- All values that one descriptor accepts the other accepts, too, among those with no fraction that
is too large. -/
def Descriptor.Refines (settings : Settings) (d e : Descriptor) : Prop :=
  ∀ v : Value, v.everywhere Value.fitsFloat = true → validate settings d v = .ok true →
    validate settings e v = .ok true

variable {settings settings' : Settings} {d e : Descriptor} {v : Value}

theorem Settings.Reach.answers (h : settings.Reach d) (hd : d.IsBuilt)
    (hv : v.everywhere Value.fitsFloat = true) :
    ∃ ok, validate settings d v = .ok ok ∧ (ok = true ↔ Accepts d v) := by
  obtain ⟨levels, hlevels, hheight⟩ := h
  exact validate_answers hlevels hd hheight hv

theorem Settings.Reach.validate_iff (h : settings.Reach d) (hd : d.IsBuilt)
    (hv : v.everywhere Value.fitsFloat = true) :
    validate settings d v = .ok true ↔ Accepts d v := by
  obtain ⟨ok, hok, hiff⟩ := h.answers hd hv
  rw [hok, Except.ok.injEq, hiff]

/-! ### Objects -/

/-- Of both descriptors there is an answer about all values and all objects with no fraction that is
too large, and the two answers are related. -/
structure Descriptor.Compares (settings : Settings) (R : Bool → Bool → Prop) (d e : Descriptor) :
    Prop where
  values (v : Value) (hv : v.everywhere Value.fitsFloat = true) :
    ∃ ok ok', validate settings d v = .ok ok ∧ validate settings e v = .ok ok' ∧ R ok ok'
  objects (store : Store) (hproper : store.Proper) (r r' x : Ref)
    (hr : store.descriptorTree? r = some d) (hr' : store.descriptorTree? r' = some e)
    (hx : store.Everywhere Value.fitsFloat x) :
    ∃ ok ok', store.validate settings r x = .ok ok ∧ store.validate settings r' x = .ok ok' ∧
      R ok ok'

/-- An object is answered about as a value that it shows, so it is enough to know of values. -/
theorem compares_of_values {R : Bool → Bool → Prop}
    (h : ∀ v : Value, v.everywhere Value.fitsFloat = true →
      ∃ ok ok', validate settings d v = .ok ok ∧ validate settings e v = .ok ok' ∧ R ok ok') :
    d.Compares settings R e := by
  refine ⟨h, fun store hproper r r' x hr hr' hx => ?_⟩
  have hshows := Store.shows_unroll hproper (settings.depth.limit.bound + 2) x
  rw [Store.validate_eq hproper settings hr hshows, Store.validate_eq hproper settings hr' hshows]
  exact h _ (Store.fitsFloat_unroll hproper hx _)

/-! ### Replacement -/

/-- Two descriptors that can stand in the hole of a context, with levels enough to ask about both by
themselves under some settings, and about the wholes under others. -/
structure Descriptor.Context.Hosts (context : Context) (settings settings' : Settings)
    (d e : Descriptor) : Prop where
  built : (context.fill d).IsBuilt
  built' : (context.fill e).IsBuilt
  reach : settings.Reach d
  reach' : settings.Reach e
  whole : settings'.Reach (context.fill d)
  whole' : settings'.Reach (context.fill e)

namespace Descriptor.Context.Hosts

variable {context : Context}

theorem symm (h : context.Hosts settings settings' d e) : context.Hosts settings settings' e d :=
  ⟨h.built', h.built, h.reach', h.reach, h.whole', h.whole⟩

theorem refines_iff (h : context.Hosts settings settings' d e) : d.Refines settings e ↔
    ∀ v : Value, v.everywhere Value.fitsFloat = true → Accepts d v → Accepts e v := by
  have hd (v : Value) := h.reach.validate_iff (v := v) (context.isBuilt_of_fill h.built)
  have he (v : Value) := h.reach'.validate_iff (v := v) (context.isBuilt_of_fill h.built')
  constructor
  · exact fun hrefines v hv haccepts => (he v hv).mp (hrefines v hv ((hd v hv).mpr haccepts))
  · exact fun haccepts v hv hvalid => (he v hv).mpr (haccepts v hv ((hd v hv).mp hvalid))

/-- The wholes are answered about, and what the answers say is what the wholes accept. -/
theorem compares {R : Bool → Bool → Prop} (h : context.Hosts settings settings' d e)
    (hR : ∀ (v : Value) (ok ok' : Bool), v.everywhere Value.fitsFloat = true →
      (ok = true ↔ Accepts (context.fill d) v) → (ok' = true ↔ Accepts (context.fill e) v) →
      R ok ok') : (context.fill d).Compares settings' R (context.fill e) := by
  refine compares_of_values fun v hv => ?_
  obtain ⟨ok, hok, hiff⟩ := h.whole.answers h.built hv
  obtain ⟨ok', hok', hiff'⟩ := h.whole'.answers h.built' hv
  exact ⟨ok, ok', hok, hok', hR v ok ok' hv hiff hiff'⟩

theorem implies (h : context.Hosts settings settings' d e) (hrefines : d.Refines settings e) :
    (context.fill d).Compares settings' (fun ok ok' => ok = true → ok' = true)
      (context.fill e) :=
  h.compares fun _ _ _ hv hiff hiff' hok =>
    hiff'.mpr (accepts_fill (h.refines_iff.mp hrefines) context hv (hiff.mp hok))

theorem same (h : context.Hosts settings settings' d e) (hrefines : d.Refines settings e)
    (hrefines' : e.Refines settings d) :
    (context.fill d).Compares settings' (· = ·) (context.fill e) := by
  have hd := h.refines_iff.mp hrefines
  have he := h.symm.refines_iff.mp hrefines'
  refine h.compares fun v ok ok' hv hiff hiff' => Bool.eq_iff_iff.mpr ?_
  rw [hiff, hiff']
  exact ⟨accepts_fill hd context hv, accepts_fill he context hv⟩

end Descriptor.Context.Hosts

/-! ### Main statement -/

namespace Store

/-- Lists of anything, lists of such lists, and a list that holds itself. -/
def hosted : Store := ⟨#[.plain .null, .plain (.descriptor .any), .descriptor .list 1,
  .descriptor .list 2, .list [4]]⟩

theorem hosted_proper : hosted.Proper := .of_mem rfl (by decide)

theorem hosted_fitsFloat : hosted.Everywhere Value.fitsFloat 4 := by
  refine ⟨fun r => r = 0 ∨ r = 4, .inr rfl, ⟨.inl rfl, ?_, ?_⟩, ?_⟩
  · rintro r (rfl | rfl) items hitems <;> cases hitems
    decide
  · rintro r (rfl | rfl) entries hentries <;> cases hentries
  · rintro r (rfl | rfl) <;> rfl

end Store

end DataSchema
