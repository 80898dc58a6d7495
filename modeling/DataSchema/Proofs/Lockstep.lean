import DataSchema.Proofs.Levels
import DataSchema.Proofs.Test

/-!
Two runs of the engine compared test by test. A relation between tests that all ways of putting
tests together respect holds between the rules of a variant as soon as it holds between the checks
of its parts, and so between the checks of one level as soon as it holds one level below. Laws about
two runs choose the relation and start the induction on the levels. The first run may be made below
a base, which then stands before its paths.
-/

namespace DataSchema

/-- What a relation between the tests of two runs has to respect, the first of which is made below a
base. Alternatives are tested silently in both runs, and what is then between them is a relation of
its own. -/
structure Lockstep (one two : Recording) (base : Path) (Silent Related : Test → Test → Prop) :
    Prop where
  pass : Related .pass .pass
  fail (path : Path) (kind : Kind) (reason : Reason) :
    Related (.fail one ⟨base ++ path, kind, reason⟩) (.fail two ⟨path, kind, reason⟩)
  raise {e : Error} (h : e.family ≠ .nesting) : Related (.raise e) (.raise e)
  andThen {s s' t t' : Test} (hs : Related s s') (ht : Related t t') :
    Related (s.andThen t) (s'.andThen t')
  orElse {s s' t t' : Test} (hs : Silent s s') (ht : Related t t') :
    Related (s.orElse t) (s'.orElse t')
  also {s s' t t' : Test} (hs : Related s s') (ht : Related t t') :
    Related (.also one s t) (.also two s' t')

namespace Lockstep

variable {one two : Recording} {base : Path} {Silent Related : Test → Test → Prop}

theorem demand (h : Lockstep one two base Silent Related) (holds : Bool) (path : Path)
    (kind : Kind) (reason : Reason) : Related (.demand one holds ⟨base ++ path, kind, reason⟩)
      (.demand two holds ⟨path, kind, reason⟩) := by
  cases holds with
  | true => exact h.pass
  | false => exact h.fail path kind reason

/-- What fails for another reason than a want of levels fails alike in both runs. -/
theorem raise_of_error {α : Type} (h : Lockstep one two base Silent Related) {r : Except Error α}
    {e : Error} (hlevels : ¬LacksLevels r) (hr : r = .error e) :
    Related (.raise e) (.raise e) := by
  apply h.raise
  intro he
  exact hlevels ⟨e, hr, he⟩

theorem all_map {α : Type} (h : Lockstep one two base Silent Related) (xs : List α)
    {f g : α → Test} (hfg : ∀ x ∈ xs, Related (f x) (g x)) :
    Related (.all one (xs.map f)) (.all two (xs.map g)) := by
  induction xs with
  | nil => exact h.pass
  | cons x xs ih =>
    rw [List.map_cons, List.map_cons, Test.all_cons, Test.all_cons]
    have hxs : ∀ y ∈ xs, Related (f y) (g y) := fun y hy => hfg y (List.mem_cons_of_mem x hy)
    exact h.also (hfg x List.mem_cons_self) (ih hxs)

theorem all_mapIdx {α : Type} (h : Lockstep one two base Silent Related) (xs : List α)
    {f g : Nat → α → Test} (hfg : ∀ i, ∀ x ∈ xs, Related (f i x) (g i x)) :
    Related (.all one (xs.mapIdx f)) (.all two (xs.mapIdx g)) := by
  rw [List.mapIdx_eq_zipIdx_map, List.mapIdx_eq_zipIdx_map]
  apply h.all_map
  intro x hx
  exact hfg x.2 x.1 (List.fst_mem_of_mem_zipIdx hx)

theorem orElse_map {α : Type} (h : Lockstep one two base Silent Related) (xs : List α)
    {f g : α → Test} {last last' : Test} (hfg : ∀ x ∈ xs, Silent (f x) (g x))
    (hlast : Related last last') :
    Related ((xs.map f).foldr .orElse last) ((xs.map g).foldr .orElse last') := by
  induction xs with
  | nil => exact hlast
  | cons x xs ih =>
    have hxs : ∀ y ∈ xs, Silent (f y) (g y) := fun y hy => hfg y (List.mem_cons_of_mem x hy)
    exact h.orElse (hfg x List.mem_cons_self) (ih hxs)

theorem lengthRule (h : Lockstep one two base Silent Related) (v : Value) (path : Path) :
    Related (lengthRule one v (base ++ path)) (lengthRule two v path) := by
  unfold DataSchema.lengthRule
  simp only [List.append_assoc]
  cases v.entries? with
  | none => exact h.raise (by decide)
  | some entries =>
    cases hl : Value.lookup "length" entries with
    | none => simpa only [hl] using h.raise (by simp [Error.family])
    | some length =>
      cases hn : length.number? with
      | none => simpa only [hl, hn] using h.raise (by decide)
      | some n => simpa only [hl, hn] using h.demand _ _ _ _

end Lockstep

namespace Descriptor

/-- The descriptors that a rule hands parts of the value to. -/
def parts : Descriptor → List Descriptor
  | list d | record d => [d]
  | object fields => fields.map (·.2)
  | union ds => ds
  | _ => []

/-- The descriptors that a check hands on to the next level. -/
def nextLevel (d : Descriptor) : List Descriptor := d.derived?.toList ++ d.parts

end Descriptor

theorem isNumber_error {v : Value} {e : Error} (h : isNumber v = .error e) :
    e = .numberTooLarge := by
  unfold isNumber at h
  split at h
  · contradiction
  · contradiction
  · split at h
    · contradiction
    · exact (Except.error.inj h).symm
  · contradiction

variable {one two : Recording} {base : Path} {Silent Related : Test → Test → Prop}

/-- The rules of a variant keep two runs in lockstep if the checks of its parts do. -/
theorem rule_related (h : Lockstep one two base Silent Related) {part part' : PartCheck}
    (d : Descriptor) (v : Value) (path : Path)
    (hpart : ∀ e ∈ d.parts, ∀ w q, Related (part one e w (base ++ q)) (part' two e w q))
    (hsilent : ∀ e ∈ d.parts, ∀ w q,
      Silent (part .silent e w (base ++ q)) (part' .silent e w q)) :
    Related (rule part one d v (base ++ path)) (rule part' two d v path) := by
  cases d with
  | null | void | boolean | string | literal => exact h.demand _ _ _ _
  | any | image | optional => exact h.pass
  | number =>
    cases hn : isNumber v with
    | ok holds => simpa only [rule, hn] using h.demand _ _ _ _
    | error e =>
      have he : e.family ≠ .nesting := by rw [isNumber_error hn]; decide
      simpa only [rule, hn] using h.raise he
  | list item =>
    cases hv : v.elements? with
    | none => simpa only [rule, hv] using h.fail _ _ _
    | some items =>
      simp only [rule, hv, List.append_assoc]
      apply h.all_mapIdx
      intro i w _
      exact hpart item (by simp [Descriptor.parts]) w _
  | record item =>
    cases hv : v.entries? with
    | none => simpa only [rule, hv] using h.fail _ _ _
    | some entries =>
      simp only [rule, hv, List.append_assoc]
      apply h.all_map
      rintro ⟨key, w⟩ _
      cases key with
      | string name => exact hpart item (by simp [Descriptor.parts]) w _
      | _ => exact h.fail _ _ _
  | object fields =>
    cases hv : v.entries? with
    | none => simpa only [rule, hv] using h.fail _ _ _
    | some entries =>
      simp only [rule, hv, List.append_assoc]
      apply h.all_map
      rintro ⟨name, d⟩ hd
      exact hpart d (List.mem_map_of_mem hd) _ _
  | union alternatives =>
    apply h.orElse_map
    · intro d hd
      exact hsilent d hd v path
    · exact h.fail _ _ _
  | type described =>
    cases hv : v.descriptorKind? with
    | none => simpa only [rule, hv] using h.fail _ _ _
    | some kind => simpa only [rule, hv] using h.demand _ _ _ _
  | file tag => exact h.lengthRule v path
  | outsider kind _ _ => exact h.raise (by simp [Error.family])

/-- One level of two runs that are in lockstep a level below. -/
theorem check_succ_related (h : Lockstep one two base Silent Related) {limit limit' : Limit}
    {levels levels' : Nat} (d : Descriptor) (v : Value) (path : Path)
    (hnext : ∀ e ∈ d.nextLevel, ∀ w q,
      Related (check limit levels one e w (base ++ q)) (check limit' levels' two e w q))
    (hsilent : ∀ e ∈ d.nextLevel, ∀ w q,
      Silent (check limit levels .silent e w (base ++ q)) (check limit' levels' .silent e w q)) :
    Related (check limit (levels + 1) one d v (base ++ path))
      (check limit' (levels' + 1) two d v path) := by
  have hrule : Related (rule (check limit levels) one d v (base ++ path))
      (rule (check limit' levels') two d v path) := by
    apply rule_related h
    · exact fun e he => hnext e (List.mem_append_right _ he)
    · exact fun e he => hsilent e (List.mem_append_right _ he)
  cases hd : d.derived? with
  | none => simpa only [check, hd] using hrule
  | some shape =>
    have hshape : shape ∈ d.nextLevel := by simp [Descriptor.nextLevel, hd]
    simpa only [check, hd] using h.andThen (hnext shape hshape v path) hrule

end DataSchema
