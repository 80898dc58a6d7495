import DataSchema.Proofs.Engine
import DataSchema.Proofs.Equality
import DataSchema.Value.Hash

/-!
Equal descriptors do the same. Equality goes by what literals expect and not by how they are
written, so two descriptors may be equal and yet not one; but a check cannot tell them apart, apart
from what it says of a literal.
-/

namespace DataSchema

/-- Two issues in one place and of one kind. Only those of literals may be put in other words. -/
structure Issue.Akin (i j : Issue) : Prop where
  path : i.path = j.path
  kind : i.kind = j.kind
  message (h : i.kind ≠ .literal) : i.message = j.message

/-- The same failure, or reports that say the same apart from the words of literals. -/
inductive SameReport : Except Error Report → Except Error Report → Prop where
  | error (e : Error) : SameReport (.error e) (.error e)
  | report (kind : Kind) (ok : Bool) {issues issues' : List Issue}
    (h : List.Forall₂ Issue.Akin issues issues') :
    SameReport (.ok ⟨kind, ok, issues⟩) (.ok ⟨kind, ok, issues'⟩)

/-! ### Engines -/

/-- Records of the same failures have the same answer. -/
theorem Recorded.answer_eq {Match : Issue → Issue → Prop} {before before' : Array Issue}
    {r r' : Outcome} (h : Recorded Eq Match before before' r r') : r.map (·.1) = r'.map (·.1) := by
  cases h with
  | error he => exact he ▸ rfl
  | answer ok => rfl

namespace Engine

variable {D V : Type} {E : Engine D V} {R : D → D → Prop}

/-- An engine plans the same for descriptors that are related, apart from the reasons that literals
give. -/
structure Interchanges (E : Engine D V) (R : D → D → Prop) : Prop where
  kind {d d' : D} (h : R d d') : E.kind d = E.kind d'
  derived? {d d' : D} (h : R d d') : Option.Rel R (E.derived? d) (E.derived? d')
  plan {d d' : D} (h : R d d') (v : V) :
    Plan.Rel Eq Eq (fun e w e' w' => R e e' ∧ w = w') v v (E.plan d v) (E.plan d' v) ∨
      E.kind d = .literal ∧ ∃ holds below reason reason',
        E.plan d v = .answer holds below reason ∧ E.plan d' v = .answer holds below reason'

/-- The checks of related descriptors come out the same, with issues that are akin. -/
theorem check_akin (hE : E.Interchanges R) (limit : Limit) (levels : Nat) (mode : Recording)
    {d d' : D} (h : R d d') (v : V) (path : Path) :
    (E.check limit levels mode d v path).Records Eq Issue.Akin
      (E.check limit levels mode d' v path) := by
  induction levels generalizing mode d d' v path with
  | zero =>
    intro before before'
    rw [check, check, hE.kind h]
    exact .error rfl
  | succ levels ih =>
    have haccord : Accord mode mode [] Eq Eq (Test.Records Eq Issue.Akin)
        (Test.Records Eq Issue.Akin) := accord_records mode [] Eq Eq fun i j hij =>
      ⟨hij.path, hij.kind, fun _ => congrArg Reason.message hij.reason⟩
    change Test.Records Eq Issue.Akin (E.check limit (levels + 1) mode d v ([] ++ path)) _
    refine check_succ_of_run haccord ?_ ?_
    · have hderived := hE.derived? h
      generalize E.derived? d = derived, E.derived? d' = derived' at hderived
      cases hderived with
      | none => exact .none
      | some hshape => exact .some (ih mode hshape v path)
    · rw [← hE.kind h]
      rcases hE.plan h v with hplan | ⟨hliteral, holds, below, reason, reason', hd, hd'⟩
      · refine Plan.run_related haccord hplan ?_ ?_ _ path
        · rintro e w e' _ q ⟨he, rfl⟩
          exact ih mode he w q
        · rintro e w e' _ q ⟨he, rfl⟩
          exact ih .silent he w q
      · -- A literal answers at once, in its own words.
        rw [hd, hd']
        intro before before'
        cases holds with
        | true => exact .answer true (List.append_nil _).symm (List.append_nil _).symm .nil
        | false =>
          have hakin : Issue.Akin ⟨path ++ below, E.kind d, reason⟩
              ⟨path ++ below, E.kind d, reason'⟩ := ⟨rfl, rfl, fun hne => absurd hliteral hne⟩
          cases mode with
          | silent => exact .answer false (List.append_nil _).symm (List.append_nil _).symm .nil
          | first | all =>
            exact .answer false Array.toList_push Array.toList_push (.cons hakin .nil)

end Engine

/-! ### Equality of descriptors -/

/-- What a literal accepts are the primitives that equal what it expects. -/
theorem isLiteral_eq_any (p : Primitive) (v : Value) : isLiteral p v = v.primitive?.any p.same := by
  cases p with
  | bool a =>
    cases v with
    | bool b => cases a <;> cases b <;> rfl
    | float x => cases x <;> rfl
    | _ => rfl
  | string s =>
    cases v with
    | string t => simp [isLiteral, Value.primitive?, Primitive.same, Primitive.content,
        Primitive.isBool, beq_eq_decide]
    | float x => cases x <;> rfl
    | _ => rfl
  | int | float =>
    cases v with
    | int n => simp [isLiteral, Value.primitive?, Primitive.same, Primitive.content,
        Primitive.isBool, beq_eq_decide]
    | float x =>
      cases x <;> simp [isLiteral, Value.primitive?, Primitive.same, Primitive.content,
        Primitive.isBool, beq_eq_decide]
    | _ => rfl

theorem isLiteral_of_same {p q : Primitive} (h : p.same q = true) (v : Value) :
    isLiteral p v = isLiteral q v := by
  rw [isLiteral_eq_any, isLiteral_eq_any]
  cases v.primitive? with
  | none => rfl
  | some r =>
    refine Bool.eq_iff_iff.mpr ⟨fun hp => ?_, fun hq => ?_⟩
    · exact Primitive.same_trans (Primitive.same_symm h) hp
    · exact Primitive.same_trans h hq

namespace Descriptor

mutual

theorem same_symm (d e : Descriptor) (h : d.same e = true) : e.same d = true := by
  cases d <;> cases e <;> simp only [same, Bool.false_eq_true, Bool.and_eq_true, beq_iff_eq] at h
  case literal p q => exact Primitive.same_symm h
  case list d e | record d e | optional d e | type d e => exact same_symm d e h
  case object fs gs => exact sameFields_symm fs gs h
  case union ds es => exact sameAll_symm ds es h
  case file s t => simp [same, h]
  case outsider => simp [same, h]
  all_goals rfl

theorem sameFields_symm (fs gs : List (String × Descriptor)) (h : sameFields fs gs = true) :
    sameFields gs fs = true := by
  cases fs <;> cases gs <;>
    simp only [sameFields, Bool.false_eq_true, Bool.and_eq_true, beq_iff_eq] at h
  case nil => rfl
  case cons f fs g gs =>
    simp [sameFields, h.1.1, same_symm f.2 g.2 h.1.2, sameFields_symm fs gs h.2]

theorem sameAll_symm (ds es : List Descriptor) (h : sameAll ds es = true) :
    sameAll es ds = true := by
  cases ds <;> cases es <;> simp only [sameAll, Bool.false_eq_true, Bool.and_eq_true] at h
  case nil => rfl
  case cons d ds e es => simp [sameAll, same_symm d e h.1, sameAll_symm ds es h.2]

end

mutual

theorem same_trans (d e f : Descriptor) (h : d.same e = true) (k : e.same f = true) :
    d.same f = true := by
  cases d <;> cases e <;>
    simp only [same, Bool.false_eq_true, Bool.and_eq_true, beq_iff_eq] at h <;>
    cases f <;> simp only [same, Bool.false_eq_true, Bool.and_eq_true, beq_iff_eq] at k
  case literal p q r => exact Primitive.same_trans h k
  case list d e f | record d e f | optional d e f | type d e f => exact same_trans d e f h k
  case object fs gs hs => exact sameFields_trans fs gs hs h k
  case union ds es fs => exact sameAll_trans ds es fs h k
  case file r s t => simp [same, h, k]
  case outsider => simp [same, h, k]
  all_goals rfl
termination_by structural d

theorem sameFields_trans (fs gs hs : List (String × Descriptor)) (h : sameFields fs gs = true)
    (k : sameFields gs hs = true) : sameFields fs hs = true := by
  cases fs <;> cases gs <;>
    simp only [sameFields, Bool.false_eq_true, Bool.and_eq_true, beq_iff_eq] at h <;>
    cases hs <;> simp only [sameFields, Bool.false_eq_true, Bool.and_eq_true, beq_iff_eq] at k
  case nil => rfl
  case cons f fs g gs i hs =>
    simp [sameFields, h.1.1, k.1.1, same_trans f.2 g.2 i.2 h.1.2 k.1.2,
      sameFields_trans fs gs hs h.2 k.2]
termination_by structural fs

theorem sameAll_trans (ds es fs : List Descriptor) (h : sameAll ds es = true)
    (k : sameAll es fs = true) : sameAll ds fs = true := by
  cases ds <;> cases es <;> simp only [sameAll, Bool.false_eq_true, Bool.and_eq_true] at h <;>
    cases fs <;> simp only [sameAll, Bool.false_eq_true, Bool.and_eq_true] at k
  case nil => rfl
  case cons d ds e es f fs =>
    simp [sameAll, same_trans d e f h.1 k.1, sameAll_trans ds es fs h.2 k.2]
termination_by structural ds

end

theorem same_equivalence : Equivalence fun d e : Descriptor => d.same e = true where
  refl := same_refl
  symm := fun h => same_symm _ _ h
  trans := fun h k => same_trans _ _ _ h k

theorem kind_eq_of_same {d e : Descriptor} (h : d.same e = true) : d.kind = e.kind := by
  cases d <;> cases e <;> simp only [same, Bool.false_eq_true, Bool.and_eq_true, beq_iff_eq] at h
  case outsider => exact h.1
  all_goals rfl

theorem derived?_of_same {d e : Descriptor} (h : d.same e = true) :
    Option.Rel (fun d e => d.same e = true) d.derived? e.derived? := by
  cases d <;> cases e <;> simp only [same, Bool.false_eq_true, Bool.and_eq_true, beq_iff_eq] at h
  case optional d e => exact .some (by simp [same, sameAll, h])
  case file s t => exact h ▸ .some (same_refl _)
  case image => exact .some (same_refl _)
  all_goals exact .none

theorem plan_of_same {d e : Descriptor} (h : d.same e = true) (v : Value) :
    Plan.Rel Eq Eq (fun d v e w => d.same e = true ∧ v = w) v v (d.plan v) (e.plan v) ∨
      d.kind = .literal ∧ ∃ holds below reason reason',
        d.plan v = .answer holds below reason ∧ e.plan v = .answer holds below reason' := by
  cases d <;> cases e <;> simp only [same, Bool.false_eq_true, Bool.and_eq_true, beq_iff_eq] at h
  case literal p q =>
    exact .inr ⟨rfl, isLiteral p v, [], .notLiteral p.toValue v, .notLiteral q.toValue v, rfl,
      by rw [isLiteral_of_same h]; rfl⟩
  all_goals
    left
    have hself (d : Descriptor) (v : Value) : d.same d = true ∧ v = v := ⟨same_refl d, rfl⟩
  case list d e =>
    simp only [plan]
    cases v.elements? with
    | none => exact .answer _ _ rfl
    | some items =>
      refine .every ?_
      rw [List.mapIdx_eq_zipIdx_map, List.mapIdx_eq_zipIdx_map, List.forall₂_map_left_iff,
        List.forall₂_map_right_iff, List.forall₂_same]
      exact fun item _ => .part _ ⟨h, rfl⟩
  case record d e =>
    simp only [plan]
    cases v.entries? with
    | none => exact .answer _ _ rfl
    | some entries =>
      refine .every ?_
      rw [List.forall₂_map_left_iff, List.forall₂_map_right_iff, List.forall₂_same]
      rintro ⟨key, w⟩ _
      cases key with
      | string name => exact .part _ ⟨h, rfl⟩
      | _ => exact .blemish rfl
  case object fs gs =>
    simp only [plan]
    cases v.entries? with
    | none => exact .answer _ _ rfl
    | some entries =>
      refine .every ?_
      rw [List.forall₂_map_left_iff, List.forall₂_map_right_iff]
      refine ((sameFields_iff fs gs).mp h).imp ?_
      rintro ⟨name, d⟩ ⟨_, e⟩ ⟨rfl, hd⟩
      exact .part _ ⟨hd, rfl⟩
  case union ds es =>
    have hall := (sameAll_iff ds es).mp h
    have hkinds : ds.map (·.kind) = es.map (·.kind) := by
      rw [← List.forall₂_eq_eq_eq, List.forall₂_map_left_iff, List.forall₂_map_right_iff]
      exact hall.imp fun _ _ hd => kind_eq_of_same hd
    exact .oneOf (hall.imp fun _ _ hd => ⟨hd, rfl⟩) (congrArg Reason.noAlternative hkinds)
  case type d e =>
    simp only [plan, kind_eq_of_same h]
    cases v.descriptorKind? <;> exact .answer _ _ rfl
  case file s t => exact h ▸ Plan.rel_refl (fun _ => rfl) (fun _ => rfl) hself v _
  case outsider => exact .stuck (congrArg Error.noRule h.1)
  case optional => exact .every .nil
  all_goals exact Plan.rel_refl (fun _ => rfl) (fun _ => rfl) hself v _

theorem engine_interchanges : engine.Interchanges fun d e => d.same e = true where
  kind := kind_eq_of_same
  derived? := derived?_of_same
  plan := plan_of_same

end Descriptor

/-! ### Validation and explanation -/

/-- Walks for equal descriptors come out the same, with issues that are akin. -/
theorem runCheck_of_same {a b : Descriptor} (h : a.same b = true) (settings : Settings)
    (mode : Recording) (v : Value) : Recorded Eq Issue.Akin #[] #[] (runCheck settings mode a v)
      (runCheck settings mode b v) := by
  simp only [runCheck, check_eq]
  exact Engine.check_akin Descriptor.engine_interchanges _ _ mode h v [] #[] #[]

theorem validate_of_same {a b : Descriptor} (h : a.same b = true) (settings : Settings)
    (v : Value) : validate settings a v = validate settings b v := by
  unfold validate
  exact (runCheck_of_same h settings .silent v).answer_eq

theorem explain_of_same {a b : Descriptor} (h : a.same b = true) (settings : Settings)
    (v : Value) : SameReport (explain settings a v) (explain settings b v) := by
  have hrun := runCheck_of_same h settings
    (if settings.collectAll.truthy then .all else .first) v
  simp only [explain, Descriptor.kind_eq_of_same h]
  generalize runCheck settings _ a v = run, runCheck settings _ b v = run' at hrun
  cases hrun with
  | error he => exact he ▸ .error _
  | answer ok hnew hnew' hakin =>
    refine .report _ ok ?_
    rw [hnew, hnew']
    exact hakin

end DataSchema
