import DataSchema.Proofs.Lockstep
import DataSchema.Proofs.Store.Reading

/-!
Two runs of the engine for objects compared test by test. As for values, a relation that all ways of
putting tests together respect holds at one level as soon as it holds one level below. The fields of
an object are left to the law, because not every name can be written down.
-/

namespace DataSchema.Store

variable {one two : Recording} {base : Path} {Silent Related : Test → Test → Prop}

theorem failShowing_eq (store : Store) (mode : Recording) (v : Ref) (path : Path) (kind : Kind)
    (reason : Value → Reason) :
    store.failShowing mode v path kind reason =
      Test.fail mode ⟨path, kind, reason (store.tree v)⟩ := by
  cases mode <;> rfl

theorem checkField_of_step {part : SubjectCheck} {name : Value} {step : Step}
    (h : Step.ofValue? name = some step) (mode : Recording) (d : Subject) (v : Ref) (path : Path) :
    checkField part mode name d v path = part mode d v (path ++ [step]) := by
  simp only [checkField, h]

/-- Fields whose names are steps of a path are in lockstep if the checks of their values are. -/
theorem checkField_related {part part' : SubjectCheck}
    (hpart : ∀ e w q, Related (part one e w q) (part' two e w q)) {name : Value} {step : Step}
    (h : Step.ofValue? name = some step) (d : Subject) (v : Ref) (path : Path) :
    Related (checkField part one name d v path) (checkField part' two name d v path) := by
  rw [checkField_of_step h, checkField_of_step h]
  exact hpart d v _

/-- What an object is on its surface tells numbers, and what is no number is shown as a whole. -/
theorem settledRule_number (store : Store) (mode : Recording) (v : Ref) (path : Path) :
    store.settledRule mode .number v path = match isNumber (store.surface v) with
      | .ok holds => .demand mode holds ⟨path, .number, .notNumber (store.tree v)⟩
      | .error e => .raise e := by
  unfold settledRule
  cases hn : isNumber (store.surface v) with
  | error e => simp [rule, hn, Test.raise]
  | ok holds =>
    cases holds with
    | true => simp [rule, hn, Test.demand, Test.pass]
    | false => simp [rule, hn, Test.demand, Test.fail, failShowing_eq]

theorem settledRule_related (store : Store) (h : Lockstep one two base Silent Related)
    (hpass : Silent .pass .pass) (d : Descriptor) (v : Ref) (path : Path) :
    Related (store.settledRule one d v (base ++ path)) (store.settledRule two d v path) := by
  have hrule : Related (rule (fun _ _ _ _ => .pass) one d (store.surface v) (base ++ path))
      (rule (fun _ _ _ _ => .pass) two d (store.surface v) path) :=
    rule_related h d _ path (fun _ _ _ _ => h.pass) (fun _ _ _ _ => hpass)
  cases d with
  | number =>
    rw [settledRule_number, settledRule_number]
    cases hn : isNumber (store.surface v) with
    | error e => simpa only [rule, hn] using hrule
    | ok holds => exact h.demand _ _ _ _
  | _ => exact hrule

/-- The subjects that a rule hands parts of the object to. -/
def Form.subjects : Form → List Subject
  | .list item | .record item => [item]
  | .object (.ok fields) => fields.filterMap fun field => field.toOption.map (·.2)
  | .union alternatives => alternatives
  | _ => []

/-- The subjects that a check hands on to the next level. -/
def nextLevel (store : Store) (d : Subject) : List Subject :=
  ((store.derived? d).toOption.getD none).toList ++ (store.form d).subjects

theorem mem_nextLevel_of_field {store : Store} {d : Subject}
    {fields : List (Except Error (Value × Subject))} (h : store.form d = .object (.ok fields))
    {name : Value} {e : Subject} (he : .ok (name, e) ∈ fields) : e ∈ store.nextLevel d := by
  apply List.mem_append_right
  rw [h]
  exact List.mem_filterMap.mpr ⟨.ok (name, e), he, rfl⟩

/-- The rules of a subject keep two runs in lockstep if the checks of its parts do. -/
theorem ruleOf_related (store : Store) (h : Lockstep one two base Silent Related)
    (hpass : Silent .pass .pass) {part part' : SubjectCheck} (d : Subject) (v : Ref) (path : Path)
    (hpart : ∀ e ∈ (store.form d).subjects, ∀ w q,
      Related (part one e w (base ++ q)) (part' two e w q))
    (hsilent : ∀ e ∈ (store.form d).subjects, ∀ w q,
      Silent (part .silent e w (base ++ q)) (part' .silent e w q))
    (hfield : ∀ fields, store.form d = .object (.ok fields) → ∀ name e, .ok (name, e) ∈ fields →
      ∀ w, Related (checkField part one name e w (base ++ path))
        (checkField part' two name e w path)) :
    Related (store.ruleOf part one d v (base ++ path)) (store.ruleOf part' two d v path) := by
  have hlevels := store.form_neverLacksLevels d
  unfold ruleOf
  cases hform : store.form d with
  | settled d => exact settledRule_related store h hpass d v path
  | literal expected =>
    dsimp only
    cases hliteral : isAlteredLiteral? expected (store.face v) with
    | error e =>
      exact h.raise_of_error (not_lacksLevels_isAlteredLiteral? expected (store.face v)) hliteral
    | ok holds =>
      cases holds with
      | true => exact h.pass
      | false =>
        dsimp only
        rw [failShowing_eq, failShowing_eq]
        exact h.fail _ _ _
  | list item =>
    have hitem : item ∈ (store.form d).subjects := by simp [hform, Form.subjects]
    dsimp only
    cases store.elements? v with
    | none => exact h.fail _ _ _
    | some items =>
      simp only [List.append_assoc]
      exact h.all_mapIdx items fun i w _ => hpart item hitem w _
  | record item =>
    have hitem : item ∈ (store.form d).subjects := by simp [hform, Form.subjects]
    dsimp only
    cases store.entries? v with
    | none => exact h.fail _ _ _
    | some entries =>
      apply h.all_map
      rintro ⟨key, w⟩ _
      simp only [List.append_assoc]
      cases store.name? key with
      | some name => exact hpart item hitem w _
      | none =>
        dsimp only
        rw [failShowing_eq, failShowing_eq]
        exact h.fail _ _ _
  | object fields =>
    rw [hform] at hlevels
    dsimp only
    cases store.entries? v with
    | none => exact h.fail _ _ _
    | some entries =>
      cases fields with
      | error e => exact h.raise_of_error hlevels rfl
      | ok fields =>
        apply h.all_map
        intro field hmem
        rcases field with e | ⟨name, e⟩
        · exact h.raise_of_error (hlevels _ hmem) rfl
        · exact hfield fields hform name e hmem _
  | union alternatives =>
    apply h.orElse_map
    · intro e he
      exact hsilent e (by simpa [hform, Form.subjects] using he) v path
    · have hkinds : ¬LacksLevels (store.kindsOf? alternatives) :=
        sequential_lacksLevels.mapM fun e _ => store.not_lacksLevels_kindOf? e
      cases hk : store.kindsOf? alternatives with
      | error e => exact h.raise_of_error hkinds hk
      | ok kinds => exact h.fail _ _ _
  | type described =>
    dsimp only
    cases store.kind? v with
    | none => exact h.fail _ _ _
    | some kind =>
      cases hk : store.kindOf? described with
      | error e => exact h.raise_of_error (store.not_lacksLevels_kindOf? described) hk
      | ok expected => exact h.demand _ _ _ _
  | broken cause =>
    rw [hform] at hlevels
    exact h.raise hlevels

/-- One level of two runs that are in lockstep a level below. -/
theorem check_succ_related (store : Store) (h : Lockstep one two base Silent Related)
    (hpass : Silent .pass .pass) {limit limit' : Limit} {levels levels' : Nat} (d : Subject)
    (v : Ref) (path : Path)
    (hnext : ∀ e ∈ store.nextLevel d, ∀ w q,
      Related (store.check limit levels one e w (base ++ q))
        (store.check limit' levels' two e w q))
    (hsilent : ∀ e ∈ store.nextLevel d, ∀ w q,
      Silent (store.check limit levels .silent e w (base ++ q))
        (store.check limit' levels' .silent e w q))
    (hfield : ∀ fields, store.form d = .object (.ok fields) → ∀ name e, .ok (name, e) ∈ fields →
      ∀ w, Related (checkField (store.check limit levels) one name e w (base ++ path))
        (checkField (store.check limit' levels') two name e w path)) :
    Related (store.check limit (levels + 1) one d v (base ++ path))
      (store.check limit' (levels' + 1) two d v path) := by
  have hrule : Related (store.ruleOf (store.check limit levels) one d v (base ++ path))
      (store.ruleOf (store.check limit' levels') two d v path) := by
    apply ruleOf_related store h hpass d v path
    · exact fun e he => hnext e (List.mem_append_right _ he)
    · exact fun e he => hsilent e (List.mem_append_right _ he)
    · exact hfield
  rw [check, check]
  cases hd : store.derived? d with
  | error e => exact h.raise_of_error (store.not_lacksLevels_derived? d) hd
  | ok derived =>
    cases derived with
    | none => exact hrule
    | some shape =>
      have hshape : shape ∈ store.nextLevel d := by simp [nextLevel, hd, Except.toOption]
      exact h.andThen (hnext shape hshape v path) hrule

/-- What is no descriptor fails in the same way with however many levels. -/
theorem check_of_kindOf?_error (store : Store) {d : Subject} {e : Error}
    (h : store.kindOf? d = .error e) (limit : Limit) (levels : Nat) (mode : Recording) (v : Ref)
    (path : Path) : store.check limit levels mode d v path = .raise e := by
  cases levels with
  | zero => simp only [check, h]
  | succ levels =>
    cases d with
    | shape | orAbsent => contradiction
    | nothing =>
      obtain rfl := Except.error.inj h
      rfl
    | object r =>
      simp only [kindOf?, kind?, face] at h
      simp only [check, derived?, ruleOf, form]
      cases hc : store.cell r with
      | descriptor kind held => simp [hc, Cell.face, Value.descriptorKind?] at h
      | plain w =>
        cases w with
        | descriptor | altered => simp [hc, Cell.face, Value.descriptorKind?] at h
        | _ =>
          simp only [hc, Cell.face, Value.descriptorKind?] at h
          obtain rfl := Except.error.inj h
          rfl
      | _ =>
        simp only [hc, Cell.face, Value.descriptorKind?] at h
        obtain rfl := Except.error.inj h
        rfl

end DataSchema.Store
