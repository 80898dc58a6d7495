import DataSchema.Proofs.Rearrangement
import DataSchema.Proofs.Store.Alternatives
import DataSchema.Proofs.Store.Context

/-!
Unions and optionals as objects, which may hold themselves, that choose among the same descriptors.
Main statement: whenever there are answers about both, the answers are the same, and there are
answers where there are as many levels as both descriptors are high.
-/

namespace DataSchema

namespace Store

variable {store : Store} {r r' : Ref}

/-- Two ways to write one choice as objects. Alternatives may change places and be repeated; those
of a union among them may stand in its place; an optional is a union with the absent value; and one
optional does for two, one inside the other. -/
inductive Rearranges (store : Store) : Ref → Ref → Prop where
  | members {r r' : Ref} (hr : store.kind? r = some .union) (hr' : store.kind? r' = some .union)
    (h : ∀ x, x ∈ store.alternatives r ↔ x ∈ store.alternatives r') : Rearranges store r r'
  | splice {r r' u : Ref} {before after : List Ref} (hr : store.kind? r = some .union)
    (hr' : store.kind? r' = some .union) (hu : store.kind? u = some .union)
    (h : store.alternatives r = before ++ u :: after)
    (h' : store.alternatives r' = before ++ store.alternatives u ++ after) : Rearranges store r r'
  | optional {r r' t n : Ref} (hr : store.cell r = .descriptor .optional t)
    (hr' : store.kind? r' = some .union) (hn : store.cell n = .plain (.descriptor .null))
    (h : store.alternatives r' = [n, t]) : Rearranges store r r'
  | twice {r s t : Ref} (hr : store.cell r = .descriptor .optional s)
    (hs : store.cell s = .descriptor .optional t) : Rearranges store r s

theorem chooses_union (hr : store.IsSchema (.object r)) (hkind : store.kind? r = some .union)
    (v : Ref) : store.engine.Chooses (.object r) v ((store.alternatives r).map .object) := by
  have hunion := hr.isUnion hkind
  exact Engine.chooses_of_oneOf (engine_derived? hunion.derived?) (hunion.plan v)

/-- What an optional that is a schema holds is a schema. -/
theorem IsSchema.inner (hr : store.IsSchema (.object r)) {t : Ref}
    (hcell : store.cell r = .descriptor .optional t) : store.IsSchema (.object t) := by
  obtain ⟨member, hmem, hclosed⟩ := hr
  cases hclosed r hmem with
  | optional hheld h =>
    obtain ⟨-, rfl⟩ := Cell.descriptor.inj (hheld.symm.trans hcell)
    exact ⟨member, h, hclosed⟩
  | leaf hheld => simp [hcell] at hheld
  | file _ hheld => simp [hcell] at hheld
  | _ hheld => simp [hcell] at hheld

theorem IsSchema.isSome_kind? (hr : store.IsSchema (.object r)) :
    (store.kind? r).isSome = true := by
  obtain ⟨member, hmem, hclosed⟩ := hr
  exact (hclosed r hmem).kind?

theorem chooses_optional (hr : store.IsSchema (.object r)) {t : Ref}
    (hcell : store.cell r = .descriptor .optional t) (v : Ref) :
    store.engine.Chooses (.object r) v [.object t, .shape .null] := by
  have hderived : store.derived? (.object r) = .ok (some (.orAbsent t)) := by
    simp only [derived?, hcell, (hr.inner hcell).isSome_kind?, if_true]
  have hplan : store.engine.plan (.object r) v = .every [] := by
    simp only [engine, plan, form, hcell, formOf]
    rfl
  have hshape : store.engine.Chooses (.object r) v ([] ++ .orAbsent t :: []) :=
    Engine.chooses_of_shape (engine_derived? hderived) hplan
  exact hshape.splice (Engine.chooses_of_oneOf rfl rfl)

/-- The object that accepts the absent value is no other than the shape that optionals derive. -/
theorem chooses_null {n : Ref} (hn : store.cell n = .plain (.descriptor .null)) (v : Ref) :
    store.engine.Chooses (.object n) v [.shape .null] := by
  have hderived : store.derived? (.object n) = .ok none := by simp only [derived?, hn]; rfl
  have hkind : store.kindOf? (.object n) = .ok .null := by
    simp only [kindOf?, kind?, face, hn]
    rfl
  refine Engine.chooses_of_settles fun ok h =>
    h.congr (engine_derived? hderived) rfl (subjectKind_eq hkind) ?_
  simp only [engine, plan, form, hn]

theorem Rearranges.answers_eq (h : store.Rearranges r r') (hr : store.IsSchema (.object r))
    (hr' : store.IsSchema (.object r')) {v : Ref} {ok ok' : Bool}
    (hd : store.engine.Settles (.object r) v ok) (hd' : store.engine.Settles (.object r') v ok') :
    ok = ok' := by
  cases h with
  | members hkind hkind' h =>
    refine (chooses_union hr hkind v).answers_eq (chooses_union hr' hkind' v) (fun s => ?_) hd hd'
    simp only [List.mem_map, h]
  | @splice u before after hkind hkind' hu h h' =>
    have hchoice := chooses_union hr hkind v
    have hchoice' := chooses_union hr' hkind' v
    rw [h, List.map_append, List.map_cons] at hchoice
    rw [h', List.map_append, List.map_append] at hchoice'
    have hschema := (hr.isUnion hkind).alternatives u (by simp [h])
    exact (hchoice.splice (chooses_union hschema hu v)).answers_eq hchoice' (fun _ => .rfl) hd hd'
  | @optional t n hcell hkind' hn h =>
    have hchoice' := chooses_union hr' hkind' v
    rw [h] at hchoice'
    have hspliced : store.engine.Chooses (.object r') v ([] ++ [.shape .null] ++ [.object t]) :=
      Engine.Chooses.splice hchoice' (chooses_null hn v)
    refine (chooses_optional hr hcell v).answers_eq hspliced (fun s => ?_) hd hd'
    simp [or_comm]
  | @twice t hcell hinner =>
    have hone := chooses_optional hr' hinner v
    have htwo : store.engine.Chooses (.object r) v
        ([] ++ [.object t, .shape .null] ++ [.shape .null]) :=
      Engine.Chooses.splice (chooses_optional hr hcell v) hone
    refine htwo.answers_eq hone (fun s => ?_) hd hd'
    simp

theorem settles_of_validate (hproper : store.Proper) (hr : store.IsSchema (.object r))
    {settings : Settings} {v : Ref} {ok : Bool} (h : store.validate settings r v = .ok ok) :
    store.engine.Settles (.object r) v ok :=
  ⟨_, _, (validate_eq_verdict hproper hr settings v).symm.trans h⟩

/-- Alternatives of which one is a list of the union itself, in two orders, and a list that holds
itself. -/
def rearranged : Store := ⟨#[.plain .null, .plain (.descriptor .any), .descriptor .list 1,
  .descriptor .list 5, .tuple [2, 3], .descriptor .union 4, .tuple [3, 2, 3], .descriptor .union 6,
  .list [8]]⟩

theorem rearranged_proper : rearranged.Proper := .of_mem rfl (by decide)

theorem rearranged_isSchema {r : Ref} (h : r ∈ [1, 2, 3, 5, 7]) :
    rearranged.IsSchema (.object r) := by
  refine ⟨(· ∈ [1, 2, 3, 5, 7]), h, fun x hx => ?_⟩
  simp only [List.mem_cons, List.not_mem_nil, or_false] at hx
  rcases hx with rfl | rfl | rfl | rfl | rfl
  · exact .leaf (d := .any) rfl rfl trivial
  · exact .list rfl (by decide)
  · exact .list rfl (by decide)
  · exact .union rfl rfl (by decide)
  · exact .union rfl rfl (by decide)

theorem rearranged_rearranges : rearranged.Rearranges 5 7 := by
  refine .members rfl rfl fun x => ?_
  simp only [alternatives, elements?, rearranged, cell]
  simp
  tauto

end Store

end DataSchema
