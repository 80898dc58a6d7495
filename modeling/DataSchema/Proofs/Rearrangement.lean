import DataSchema.Proofs.Alternatives
import DataSchema.Proofs.Build

/-!
Descriptors that choose among others: unions among their alternatives, and optionals between what
they hold and the absent value. An answer about such a descriptor depends on the set of those that
it chooses among, and not on their order, on how often one of them stands there, or on how deep in
other choices.
-/

namespace DataSchema

section Lists

variable {α : Type} {f : α → Except Error Bool} {as : List α}

theorem exists_of_anyOf (h : Store.anyOf f as = .ok true) : ∃ a ∈ as, f a = .ok true := by
  induction as with
  | nil => simp [Store.anyOf] at h
  | cons a as ih =>
    cases ha : f a with
    | error e => simp [anyOf_cons_error ha] at h
    | ok holds =>
      cases holds with
      | true => exact ⟨a, List.mem_cons_self, ha⟩
      | false =>
        rw [anyOf_cons_false ha] at h
        obtain ⟨b, hb, hpasses⟩ := ih h
        exact ⟨b, List.mem_cons_of_mem a hb, hpasses⟩

theorem forall_of_anyOf (h : Store.anyOf f as = .ok false) : ∀ a ∈ as, f a = .ok false := by
  induction as with
  | nil => simp
  | cons a as ih =>
    cases ha : f a with
    | error e => simp [anyOf_cons_error ha] at h
    | ok holds =>
      cases holds with
      | true => simp [anyOf_cons_true ha] at h
      | false =>
        rw [anyOf_cons_false ha] at h
        exact List.forall_mem_cons.mpr ⟨ha, ih h⟩

end Lists

/-! ### Engines -/

namespace Engine

variable {D V : Type} {E : Engine D V} {d : D} {v : V}

/-- Some check gives the answer. -/
def Settles (E : Engine D V) (d : D) (v : V) (ok : Bool) : Prop :=
  ∃ limit levels, E.verdict limit levels d v = .ok ok

/-- Whatever the limits, there are no two answers. -/
theorem Settles.unique {ok ok' : Bool} (h : E.Settles d v ok) (h' : E.Settles d v ok') :
    ok = ok' := by
  obtain ⟨limit, levels, h⟩ := h
  obtain ⟨limit', levels', h'⟩ := h'
  rcases Nat.le_total levels levels' with hle | hle
  · exact Except.ok.inj ((E.verdict_of_verdict hle h).symm.trans h')
  · exact Except.ok.inj (h.symm.trans (E.verdict_of_verdict hle h'))

/-- There is a check with a level to spend on the descriptor itself. -/
theorem Settles.exists_succ {ok : Bool} (h : E.Settles d v ok) :
    ∃ limit levels, E.verdict limit (levels + 1) d v = .ok ok := by
  obtain ⟨limit, levels, h⟩ := h
  exact ⟨limit, levels, E.verdict_of_verdict (Nat.le_succ levels) h⟩

/-- Descriptors with the same plan are answered about in the same way. -/
theorem Settles.congr {e : D} {ok : Bool} (h : E.Settles d v ok) (hd : E.derived? d = none)
    (he : E.derived? e = none) (hkind : E.kind d = E.kind e) (hplan : E.plan d v = E.plan e v) :
    E.Settles e v ok := by
  obtain ⟨limit, levels, h⟩ := h.exists_succ
  refine ⟨limit, levels + 1, ?_⟩
  rwa [verdict, E.check_of_none limit levels .silent v [] hd, hkind, hplan,
    ← E.check_of_none limit levels .silent v [] he] at h

/-- A yes comes of a yes about one of some descriptors, and a no of a no about each of them. -/
structure Chooses (E : Engine D V) (d : D) (v : V) (ds : List D) : Prop where
  yes (h : E.Settles d v true) : ∃ e ∈ ds, E.Settles e v true
  no (h : E.Settles d v false) : ∀ e ∈ ds, E.Settles e v false

theorem chooses_of_oneOf (hd : E.derived? d = none) {ds : List D} {reason : Reason}
    (hplan : E.plan d v = .oneOf ds reason) : E.Chooses d v ds where
  yes h := by
    obtain ⟨limit, levels, h⟩ := h.exists_succ
    rw [E.verdict_oneOf levels hd hplan] at h
    obtain ⟨e, he, hyes⟩ := exists_of_anyOf h
    exact ⟨e, he, limit, levels, hyes⟩
  no h e he := by
    obtain ⟨limit, levels, h⟩ := h.exists_succ
    rw [E.verdict_oneOf levels hd hplan] at h
    exact ⟨limit, levels, forall_of_anyOf h e he⟩

/-- Where the rule has nothing to ask, the derived shape decides one level further down. -/
theorem verdict_of_shape {shape : D} (hd : E.derived? d = some shape)
    (hplan : E.plan d v = .every []) (limit : Limit) (levels : Nat) :
    E.verdict limit (levels + 1) d v = E.verdict limit levels shape v := by
  unfold verdict
  rw [E.check_of_some limit levels .silent v [] hd, hplan]
  change (Outcome.andThen (E.check limit levels .silent shape v [] #[]) _).map (·.1) = _
  rcases E.check limit levels .silent shape v [] #[] with e | ⟨ok, after⟩
  · rfl
  · cases ok <;> rfl

theorem chooses_of_settles {e : D} (h : ∀ ok, E.Settles d v ok → E.Settles e v ok) :
    E.Chooses d v [e] where
  yes hd := ⟨e, List.mem_cons_self, h true hd⟩
  no hd := by
    rintro e' he'
    obtain rfl := List.mem_singleton.mp he'
    exact h false hd

theorem chooses_of_shape {shape : D} (hd : E.derived? d = some shape)
    (hplan : E.plan d v = .every []) : E.Chooses d v [shape] := by
  refine chooses_of_settles fun ok h => ?_
  obtain ⟨limit, levels, h⟩ := h.exists_succ
  exact ⟨limit, levels, (verdict_of_shape hd hplan limit levels).symm.trans h⟩

namespace Chooses

variable {ds es before after : List D}

/-- A choice among others stands for those. -/
theorem splice {e : D} (h : E.Chooses d v (before ++ e :: after)) (he : E.Chooses e v es) :
    E.Chooses d v (before ++ es ++ after) where
  yes hd := by
    obtain ⟨c, hc, hyes⟩ := h.yes hd
    rcases List.mem_append.mp hc with hbefore | hrest
    · exact ⟨c, by simp [hbefore], hyes⟩
    · rcases List.mem_cons.mp hrest with rfl | hafter
      · obtain ⟨c', hc', hyes'⟩ := he.yes hyes
        exact ⟨c', by simp [hc'], hyes'⟩
      · exact ⟨c, by simp [hafter], hyes⟩
  no hd c hc := by
    have hall := h.no hd
    rw [List.forall_mem_append, List.forall_mem_cons] at hall
    obtain ⟨hbefore, hchoice, hafter⟩ := hall
    rcases List.mem_append.mp hc with hfront | hback
    · exact (List.mem_append.mp hfront).elim (hbefore c) (he.no hchoice c)
    · exact hafter c hback

/-- Two choices among the same descriptors are answered about in the same way. -/
theorem answers_eq {d' : D} {ok ok' : Bool} (h : E.Chooses d v ds) (h' : E.Chooses d' v es)
    (hmem : ∀ e, e ∈ ds ↔ e ∈ es) (hd : E.Settles d v ok) (hd' : E.Settles d' v ok') :
    ok = ok' := by
  cases ok with
  | true =>
    obtain ⟨e, he, hyes⟩ := h.yes hd
    cases ok' with
    | true => rfl
    | false => exact hyes.unique (h'.no hd' e ((hmem e).mp he))
  | false =>
    cases ok' with
    | false => rfl
    | true =>
      obtain ⟨e, he, hyes⟩ := h'.yes hd'
      exact (h.no hd e ((hmem e).mpr he)).unique hyes

end Chooses

end Engine

/-! ### Descriptors -/

namespace Descriptor

/-- Two ways to write one choice. Alternatives may change places and be repeated; those of a union
among them may stand in its place; an optional is a union with the absent value; and one optional
does for two, one inside the other. -/
inductive Rearranges : Descriptor → Descriptor → Prop where
  | members {ds es : List Descriptor} (h : ∀ d, d ∈ ds ↔ d ∈ es) : Rearranges (union ds) (union es)
  | splice (before ds after : List Descriptor) :
    Rearranges (union (before ++ union ds :: after)) (union (before ++ ds ++ after))
  | optional (d : Descriptor) : Rearranges (optional d) (union [null, d])
  | twice (d : Descriptor) : Rearranges (optional (optional d)) (optional d)

theorem chooses_union (ds : List Descriptor) (v : Value) : engine.Chooses (union ds) v ds :=
  Engine.chooses_of_oneOf rfl rfl

theorem chooses_optional (d : Descriptor) (v : Value) :
    engine.Chooses (optional d) v [d, null] := by
  have hshape : engine.Chooses (optional d) v ([] ++ union [d, null] :: []) :=
    Engine.chooses_of_shape rfl rfl
  exact hshape.splice (chooses_union [d, null] v)

namespace Rearranges

variable {d e : Descriptor}

theorem answers_eq (h : d.Rearranges e) {v : Value} {ok ok' : Bool} (hd : engine.Settles d v ok)
    (he : engine.Settles e v ok') : ok = ok' := by
  cases h with
  | @members ds es h => exact (chooses_union ds v).answers_eq (chooses_union es v) h hd he
  | splice before ds after =>
    have hchoice := (chooses_union (before ++ union ds :: after) v).splice (chooses_union ds v)
    exact hchoice.answers_eq (chooses_union _ v) (fun _ => .rfl) hd he
  | optional d =>
    refine (chooses_optional d v).answers_eq (chooses_union [null, d] v) (fun c => ?_) hd he
    simp [or_comm]
  | twice d =>
    have hchoice : engine.Chooses (.optional (.optional d)) v ([] ++ [d, null] ++ [null]) :=
      Engine.Chooses.splice (chooses_optional (.optional d) v) (chooses_optional d v)
    refine hchoice.answers_eq (chooses_optional d v) (fun c => ?_) hd he
    simp

theorem isBuilt (h : d.Rearranges e) (hd : d.IsBuilt) : e.IsBuilt := by
  cases h with
  | @members ds es h =>
    obtain ⟨hne, hall⟩ := hd
    obtain ⟨c, hc⟩ := List.exists_mem_of_ne_nil ds hne
    refine ⟨List.ne_nil_of_mem ((h c).mp hc), (allBuilt_iff es).mpr fun c hc => ?_⟩
    exact (allBuilt_iff ds).mp hall c ((h c).mpr hc)
  | splice before ds after =>
    have hall := (allBuilt_iff _).mp hd.2
    rw [List.forall_mem_append, List.forall_mem_cons] at hall
    obtain ⟨hbefore, ⟨hne, hds⟩, hafter⟩ := hall
    refine ⟨by simp [hne], (allBuilt_iff _).mpr ?_⟩
    rw [List.forall_mem_append, List.forall_mem_append]
    exact ⟨⟨hbefore, (allBuilt_iff ds).mp hds⟩, hafter⟩
  | optional d => exact ⟨by simp, trivial, hd, trivial⟩
  | twice d => exact hd

end Rearranges

end Descriptor

theorem settles_of_validate {settings : Settings} {d : Descriptor} {v : Value} {ok : Bool}
    (h : validate settings d v = .ok ok) : Descriptor.engine.Settles d v ok :=
  ⟨_, _, (validate_eq_verdict settings d v).symm.trans h⟩

end DataSchema
