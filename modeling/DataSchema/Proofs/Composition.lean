import DataSchema.Proofs.Store.Explanation
import DataSchema.Proofs.Store.File

/-!
Explanations that list all failures are put together from the explanations of parts, in the order of
the parts. Nothing of a part is lost, nothing is said of an alternative, and a derived shape speaks
for what derives it.
-/

namespace DataSchema

/-- Issues that are found for some parts, one part after the other. -/
def Concatenates {α : Type} (Found : α → List Issue → Prop) (parts : List α)
    (issues : List Issue) : Prop :=
  ∃ found, List.Forall₂ Found parts found ∧ issues = found.flatten

/-! ### Engines -/

section Engine

variable {D V : Type} {E : Engine D V} {limit : Limit} {d : D} {v : V} {issues : List Issue}

/-- What a check with all levels of a limit lists. -/
def Engine.Lists (E : Engine D V) (limit : Limit) (d : D) (v : V) (ok : Bool)
    (issues : List Issue) : Prop :=
  E.Finds limit (limit.bound + 1) .all d v ok issues

/-- What is listed for an item: for a part what a check of it lists, under its step. -/
inductive Item.Lists (E : Engine D V) (limit : Limit) (kind : Kind) :
    Item D V → List Issue → Prop where
  | part {d : D} {v : V} {step : Step} {ok : Bool} {issues : List Issue}
    (h : E.Lists limit d v ok issues) :
    Lists E limit kind (.part d v step) (issues.map (·.under [step]))
  | blemish (reason : Reason) : Lists E limit kind (.blemish reason) [⟨[], kind, reason⟩]

theorem Item.Lists.of_part {kind : Kind} {step : Step}
    (h : (Item.part d v step).Lists E limit kind issues) :
    ∃ ok found, E.Lists limit d v ok found ∧ issues = found.map (·.under [step]) := by
  cases h with
  | part hpart => exact ⟨_, _, hpart, rfl⟩

theorem Item.Finds.lists {item : Item D V} {kind : Kind} {ok : Bool}
    (h : item.Finds E limit limit.bound .all kind ok issues) : item.Lists E limit kind issues := by
  cases h with
  | part hpart => exact .part (hpart.more (Nat.le_succ _) limit)
  | blemish reason => exact .blemish reason

namespace Engine

variable {ok : Bool}

theorem Lists.of_every (h : E.Lists limit d v ok issues) (hd : E.derived? d = none)
    {items : List (Item D V)} (hplan : E.plan d v = .every items) :
    Concatenates (Item.Lists E limit (E.kind d)) items issues := by
  rw [Lists, Finds, E.check_of_none limit _ .all v [] hd, hplan] at h
  obtain ⟨taken, rest, found, hitems, hrest, hfound, -, rfl⟩ := finds_of_every (by decide) h
  obtain rfl := hrest (.inl rfl)
  rw [List.append_nil] at hitems
  subst hitems
  refine ⟨_, ?_, rfl⟩
  rw [List.forall₂_map_right_iff]
  exact hfound.imp fun item answer hanswer => hanswer.lists

theorem Lists.of_oneOf (h : E.Lists limit d v ok issues) (hd : E.derived? d = none)
    {alternatives : List D} {reason : Reason} (hplan : E.plan d v = .oneOf alternatives reason) :
    ok = true ∧ issues = [] ∨ ok = false ∧ issues = [⟨[], E.kind d, reason⟩] := by
  rw [Lists, Finds, E.check_of_none limit _ .all v [] hd, hplan] at h
  exact finds_of_oneOf (by decide) h

/-- Where the rule has nothing to add, the derived shape speaks for it. -/
theorem Lists.of_shape (h : E.Lists limit d v ok issues) {shape : D}
    (hd : E.derived? d = some shape) (hplan : E.plan d v = .every []) :
    E.Lists limit shape v ok issues := by
  rcases finds_of_derived (by decide) hd h with ⟨hshape, rfl⟩ | ⟨hshape, hrule⟩
  · exact hshape.more (Nat.le_succ _) limit
  · rw [hplan] at hrule
    obtain ⟨rfl, hissues⟩ := Prod.mk.inj (Except.ok.inj hrule)
    obtain rfl : issues = [] := by simpa using hissues.symm
    exact hshape.more (Nat.le_succ _) limit

/-- Where the rule gives an answer to what the derived shape lets pass, a no is added. -/
theorem Lists.of_answer (h : E.Lists limit d v ok issues) {shape : D}
    (hd : E.derived? d = some shape) {holds : Bool} {below : Path} {reason : Reason}
    (hplan : E.Passes shape v → E.plan d v = .answer holds below reason) :
    ∃ passed found, E.Lists limit shape v passed found ∧
      issues = found ++ if passed && !holds then [⟨below, E.kind d, reason⟩] else [] := by
  rcases finds_of_derived (by decide) hd h with ⟨hshape, rfl⟩ | ⟨hshape, hrule⟩
  · exact ⟨false, issues, hshape.more (Nat.le_succ _) limit, by simp⟩
  · rw [hplan (passes_of_check hshape)] at hrule
    obtain ⟨-, rfl⟩ := finds_of_answer (by decide) hrule
    refine ⟨true, [], hshape.more (Nat.le_succ _) limit, ?_⟩
    cases holds <;> rfl

end Engine

end Engine

/-! ### Values -/

/-- An explanation of a value lists issues. -/
def Explains (settings : Settings) (d : Descriptor) (v : Value) (ok : Bool)
    (issues : List Issue) : Prop :=
  explain settings d v = .ok ⟨d.kind, ok, issues⟩

/-- The issues that an explanation of a part lists, under the step that leads to the part. -/
def ExplainsUnder (settings : Settings) (step : Step) (d : Descriptor) (v : Value)
    (issues : List Issue) : Prop :=
  ∃ ok found, Explains settings d v ok found ∧ issues = found.map (·.under [step])

theorem explains_iff {settings : Settings} (h : settings.collectAll.truthy = true)
    (d : Descriptor) (v : Value) (ok : Bool) (issues : List Issue) :
    Explains settings d v ok issues ↔
      Descriptor.engine.Lists settings.depth.limit d v ok issues := by
  unfold Explains explain Engine.Lists Engine.Finds
  simp only [h, if_true, runCheck, check_eq]
  generalize Descriptor.engine.check _ _ .all d v [] #[] = outcome
  rcases outcome with e | ⟨answer, written⟩
  · simp [Except.map]
  · have hlist : written.toList = issues ↔ written = issues.toArray := by
      constructor
      · rintro rfl
        rfl
      · rintro rfl
        rfl
    simp [Except.map, hlist]

/-- How explanations that list all failures are put together. -/
structure Composition (settings : Settings) : Prop where
  /-- Elements are explained in their order. -/
  list {item : Descriptor} {v : Value} {items : List Value} (hv : v.elements? = some items)
    {ok : Bool} {issues : List Issue} (h : Explains settings (.list item) v ok issues) :
    Concatenates (fun part => ExplainsUnder settings (.index part.2) item part.1) items.zipIdx
      issues
  /-- Fields are explained in the order in which they are declared. -/
  object {fields : List (String × Descriptor)} {v : Value} {entries : List (Value × Value)}
    (hv : v.entries? = some entries) {ok : Bool} {issues : List Issue}
    (h : Explains settings (.object fields) v ok issues) :
    Concatenates (fun field => ExplainsUnder settings (.key field.1) field.2
      (Value.entryOrNull field.1 entries)) fields issues
  /-- Entries are explained in their order; of one without a name only that is said. -/
  record {item : Descriptor} {v : Value} {entries : List (Value × Value)}
    (hv : v.entries? = some entries) {ok : Bool} {issues : List Issue}
    (h : Explains settings (.record item) v ok issues) :
    Concatenates (fun entry part => match entry.1 with
      | .string name => ExplainsUnder settings (.key name) item entry.2 part
      | key => part = [⟨[], .record, .keyNotText key⟩]) entries issues
  /-- Of an image that is said which is said of its shape. -/
  image {v : Value} {ok : Bool} {issues : List Issue} (h : Explains settings .image v ok issues) :
    Explains settings Descriptor.imageShape v ok issues
  /-- Of a file that is said which is said of its shape; a negative length is added. -/
  file {tag : Option String} {v : Value} {ok : Bool} {issues : List Issue}
    (h : Explains settings (.file tag) v ok issues) :
    ∃ passed found, Explains settings (Descriptor.fileShape tag) v passed found ∧
      issues = found ++ if passed && v.hasNegativeLength
        then [⟨[.key "length"], .file, .negativeLength⟩] else []
  /-- Of what has alternatives no more is said than that none matched. -/
  union {alternatives : List Descriptor} {v : Value} {ok : Bool} {issues : List Issue}
    (h : Explains settings (.union alternatives) v ok issues) :
    issues = [] ∨ ∃ reason, issues = [⟨[], .union, reason⟩]
  optional {inner : Descriptor} {v : Value} {ok : Bool} {issues : List Issue}
    (h : Explains settings (.optional inner) v ok issues) :
    issues = [] ∨ ∃ reason, issues = [⟨[], .union, reason⟩]

theorem explainsUnder_of_lists {settings : Settings} (h : settings.collectAll.truthy = true)
    {step : Step} {d : Descriptor} {v : Value} {kind : Kind} {issues : List Issue}
    (hlists : (Item.part d v step).Lists Descriptor.engine settings.depth.limit kind issues) :
    ExplainsUnder settings step d v issues := by
  obtain ⟨ok, found, hpart, hissues⟩ := hlists.of_part
  exact ⟨ok, found, (explains_iff h d v ok found).mpr hpart, hissues⟩

theorem composition_values {settings : Settings} (h : settings.collectAll.truthy = true) :
    Composition settings where
  list := by
    intro item v items hv ok issues hexplains
    have hplan : Descriptor.engine.plan (.list item) v =
        .every (items.zipIdx.map fun part => .part item part.1 (.index part.2)) := by
      simp only [Descriptor.engine, Descriptor.plan, hv, List.mapIdx_eq_zipIdx_map]
    obtain ⟨found, hfound, rfl⟩ := ((explains_iff h _ _ _ _).mp hexplains).of_every rfl hplan
    rw [List.forall₂_map_left_iff] at hfound
    exact ⟨found, hfound.imp fun part new hnew => explainsUnder_of_lists h hnew, rfl⟩
  object := by
    intro fields v entries hv ok issues hexplains
    have hplan : Descriptor.engine.plan (.object fields) v = .every (fields.map fun field =>
        .part field.2 (Value.entryOrNull field.1 entries) (.key field.1)) := by
      simp only [Descriptor.engine, Descriptor.plan, hv]
    obtain ⟨found, hfound, rfl⟩ := ((explains_iff h _ _ _ _).mp hexplains).of_every rfl hplan
    rw [List.forall₂_map_left_iff] at hfound
    exact ⟨found, hfound.imp fun field new hnew => explainsUnder_of_lists h hnew, rfl⟩
  record := by
    intro item v entries hv ok issues hexplains
    have hplan := Descriptor.plan_record item hv
    obtain ⟨found, hfound, rfl⟩ := ((explains_iff h _ _ _ _).mp hexplains).of_every rfl hplan
    rw [List.forall₂_map_left_iff] at hfound
    refine ⟨found, hfound.imp ?_, rfl⟩
    rintro ⟨key, w⟩ new hnew
    cases key with
    | string name => exact explainsUnder_of_lists h hnew
    | _ =>
      cases hnew
      rfl
  image := by
    intro v ok issues hexplains
    have hlists := (explains_iff h _ _ _ _).mp hexplains
    exact (explains_iff h _ _ _ _).mpr (hlists.of_shape rfl rfl)
  file := by
    intro tag v ok issues hexplains
    have hplan : Descriptor.engine.Passes (Descriptor.fileShape tag) v →
        Descriptor.engine.plan (.file tag) v =
          .answer (!v.hasNegativeLength) [.key "length"] .negativeLength := by
      intro hpasses
      obtain ⟨entries, length, q, -, -, -, hq⟩ := Descriptor.length_of_passes hpasses
      exact lengthPlan_eq hq
    obtain ⟨passed, found, hshape, hissues⟩ :=
      ((explains_iff h _ _ _ _).mp hexplains).of_answer rfl hplan
    refine ⟨passed, found, (explains_iff h _ _ _ _).mpr hshape, ?_⟩
    rwa [Bool.not_not] at hissues
  union := by
    intro alternatives v ok issues hexplains
    rcases ((explains_iff h _ _ _ _).mp hexplains).of_oneOf rfl rfl with ⟨-, rfl⟩ | ⟨-, rfl⟩
    · exact .inl rfl
    · exact .inr ⟨_, rfl⟩
  optional := by
    intro inner v ok issues hexplains
    have hshape := ((explains_iff h _ _ _ _).mp hexplains).of_shape rfl rfl
    rcases hshape.of_oneOf rfl rfl with ⟨-, rfl⟩ | ⟨-, rfl⟩
    · exact .inl rfl
    · exact .inr ⟨_, rfl⟩

/-! ### Objects -/

namespace Store

/-- A walk over an object that lists issues. -/
def Told (store : Store) (settings : Settings) (s : Subject) (v : Ref) (ok : Bool)
    (issues : List Issue) : Prop :=
  store.runCheck settings .all s v = .ok (ok, issues.toArray)

/-- The issues that a walk over a part lists, under the step that leads to the part. -/
def ToldUnder (store : Store) (settings : Settings) (step : Step) (s : Subject) (v : Ref)
    (issues : List Issue) : Prop :=
  ∃ ok found, store.Told settings s v ok found ∧ issues = found.map (·.under [step])

/-- How explanations of objects that list all failures are put together. An explanation reports what
a walk over the object lists. -/
structure Composition (store : Store) (settings : Settings) : Prop where
  explained {r : Ref} (hr : store.IsSchema (.object r)) (v : Ref) :
    store.Reported r (store.runCheck settings .all (.object r) v) (store.explain settings r v)
  list {s item : Subject} (hs : store.IsSchema s) (hform : store.form s = .list item) {v : Ref}
    {items : List Ref} (hv : store.elements? v = some items) {ok : Bool} {issues : List Issue}
    (h : store.Told settings s v ok issues) :
    Concatenates (fun part => store.ToldUnder settings (.index part.2) item part.1) items.zipIdx
      issues
  object {s : Subject} (hs : store.IsSchema s)
    {declared : Except Error (List (Except Error (Value × Subject)))}
    (hform : store.form s = .object declared) {v : Ref} {entries : List (Ref × Ref)}
    (hv : store.entries? v = some entries) {ok : Bool} {issues : List Issue}
    (h : store.Told settings s v ok issues) : ∃ fields : List (String × Subject),
      declared = .ok (fields.map fun (name, t) => .ok (.string name, t)) ∧
      Concatenates (fun field => store.ToldUnder settings (.key field.1) field.2
        (store.lookup (.string field.1) entries)) fields issues
  record {s item : Subject} (hs : store.IsSchema s) (hform : store.form s = .record item) {v : Ref}
    {entries : List (Ref × Ref)} (hv : store.entries? v = some entries) {ok : Bool}
    {issues : List Issue} (h : store.Told settings s v ok issues) :
    Concatenates (fun entry part => match store.name? entry.1 with
      | some name => store.ToldUnder settings (.key name) item entry.2 part
      | none => part = [⟨[], .record, .keyNotText (store.tree entry.1)⟩]) entries issues
  image {s : Subject} (hs : store.IsSchema s) (hform : store.form s = .settled .image) {v : Ref}
    {ok : Bool} {issues : List Issue} (h : store.Told settings s v ok issues) :
    store.Told settings (.shape Descriptor.imageShape) v ok issues
  file {s : Subject} (hs : store.IsSchema s) {held : Option String}
    (hform : store.form s = .settled (.file held)) {v : Ref} {ok : Bool} {issues : List Issue}
    (h : store.Told settings s v ok issues) : ∃ tag passed found,
      store.derived? s = .ok (some (.shape (Descriptor.fileShape tag))) ∧
      store.Told settings (.shape (Descriptor.fileShape tag)) v passed found ∧
      issues = found ++ if passed && (store.surface v).hasNegativeLength
        then [⟨[.key "length"], .file, .negativeLength⟩] else []
  union {s : Subject} (hs : store.IsSchema s) {alternatives : List Subject}
    (hform : store.form s = .union alternatives) {v : Ref} {ok : Bool} {issues : List Issue}
    (h : store.Told settings s v ok issues) :
    issues = [] ∨ ∃ reason, issues = [⟨[], .union, reason⟩]
  optional {s : Subject} (hs : store.IsSchema s) {c : Descriptor}
    (hform : store.form s = .settled (.optional c)) {v : Ref} {ok : Bool} {issues : List Issue}
    (h : store.Told settings s v ok issues) :
    issues = [] ∨ ∃ reason, issues = [⟨[], .union, reason⟩]

section Told

variable {store : Store} {settings : Settings} {P : Subject → Prop}

theorem told_iff (hread : ∀ s, P s → store.Readable P s) {s : Subject} (hs : P s) (v : Ref)
    (ok : Bool) (issues : List Issue) : store.Told settings s v ok issues ↔
      store.engine.Lists settings.depth.limit s v ok issues := by
  unfold Told runCheck Engine.Lists Engine.Finds
  dsimp only
  rw [check_eq hread _ _ .all hs]

theorem toldUnder_of_lists (hread : ∀ s, P s → store.Readable P s) {s : Subject} (hs : P s)
    {step : Step} {v : Ref} {kind : Kind} {issues : List Issue}
    (h : (Item.part s v step).Lists store.engine settings.depth.limit kind issues) :
    store.ToldUnder settings step s v issues := by
  obtain ⟨ok, found, hpart, hissues⟩ := h.of_part
  exact ⟨ok, found, (told_iff hread hs v ok found).mpr hpart, hissues⟩

/-- What is known of a subject that is read, and of what a walk for it lists. -/
theorem IsSchema.opened {s : Subject} (hs : store.IsSchema s) {v : Ref} {ok : Bool}
    {issues : List Issue} (h : store.Told settings s v ok issues) :
    ∃ (P : Subject → Prop) (kind : Kind) (shape : Option Subject),
      (∀ s, P s → store.Readable P s) ∧ store.subjectKind s = kind ∧
      store.derived? s = .ok shape ∧ store.engine.derived? s = shape ∧
      Form.Closed P kind shape (store.form s) ∧
      store.engine.Lists settings.depth.limit s v ok issues := by
  obtain ⟨member, hmem, hclosed⟩ := hs
  have hread := fun s => readable_of_closed hclosed (s := s)
  obtain ⟨kind, shape, hkind, hshape, hform⟩ := hread s hmem
  exact ⟨_, kind, shape, hread, subjectKind_eq hkind, hshape, engine_derived? hshape, hform,
    (told_iff hread hmem v ok issues).mp h⟩

end Told

theorem composition_objects {store : Store} (hproper : store.Proper) {settings : Settings}
    (h : settings.collectAll.truthy = true) : store.Composition settings where
  explained := by
    intro r hr v
    have hreported := explain_reported hproper hr settings v
    rwa [if_pos h] at hreported
  list := by
    intro s item hs hform v items hv ok issues htold
    obtain ⟨P, kind, shape, hread, hkind, -, hderived, hclosed, hlists⟩ := hs.opened htold
    rw [hform] at hclosed
    cases hclosed with
    | list hitem =>
      have hplan : store.engine.plan s v =
          .every (items.zipIdx.map fun part => .part item part.1 (.index part.2)) := by
        simp only [engine, plan, hform, hv, List.mapIdx_eq_zipIdx_map]
      obtain ⟨found, hfound, rfl⟩ := hlists.of_every hderived hplan
      rw [List.forall₂_map_left_iff] at hfound
      exact ⟨found, hfound.imp fun part new hnew => toldUnder_of_lists hread hitem hnew, rfl⟩
  object := by
    intro s hs declared hform v entries hv ok issues htold
    obtain ⟨P, kind, shape, hread, hkind, -, hderived, hclosed, hlists⟩ := hs.opened htold
    rw [hform] at hclosed
    cases hclosed with
    | @object fields hfields =>
      have hplan : store.engine.plan s v = .every (fields.map fun field =>
          .part field.2 (store.lookup (.string field.1) entries) (.key field.1)) := by
        simp only [engine, plan, hform, hv, List.map_map]
        rfl
      obtain ⟨found, hfound, rfl⟩ := hlists.of_every hderived hplan
      rw [List.forall₂_map_left_iff] at hfound
      refine ⟨fields, rfl, found, ?_, rfl⟩
      exact ((List.forall₂_and_left _ _).mpr ⟨hfields, hfound⟩).imp
        fun field new hnew => toldUnder_of_lists hread hnew.1 hnew.2
  record := by
    intro s item hs hform v entries hv ok issues htold
    obtain ⟨P, kind, shape, hread, hkind, -, hderived, hclosed, hlists⟩ := hs.opened htold
    rw [hform] at hclosed
    cases hclosed with
    | record hitem =>
      have hplan := plan_record hform hv
      obtain ⟨found, hfound, rfl⟩ := hlists.of_every hderived hplan
      rw [List.forall₂_map_left_iff] at hfound
      refine ⟨found, hfound.imp ?_, rfl⟩
      rintro ⟨key, w⟩ new hnew
      dsimp only at hnew ⊢
      cases hname : store.name? key with
      | some name =>
        rw [hname] at hnew
        exact toldUnder_of_lists hread hitem hnew
      | none =>
        rw [hname] at hnew
        cases hnew
        exact congrArg (fun kind => [Issue.mk [] kind _]) hkind
  image := by
    intro s hs hform v ok issues htold
    obtain ⟨P, kind, shape, hread, -, -, hderived, hclosed, hlists⟩ := hs.opened htold
    rw [hform] at hclosed
    cases hclosed with
    | plain _ hd => simp [Descriptor.derived?] at hd
    | image hshape =>
      have hplan : store.engine.plan s v = .every [] := by
        simp only [engine, plan, hform, settledPlan, Descriptor.plan, Plan.bare]
      exact (told_iff hread hshape _ _ _).mpr (hlists.of_shape hderived hplan)
  file := by
    intro s hs held hform v ok issues htold
    obtain ⟨P, kind, shape, hread, hkind, hshape, hderived, hclosed, hlists⟩ := hs.opened htold
    rw [hform] at hclosed
    cases hclosed with
    | plain _ hd => simp [Descriptor.derived?] at hd
    | file _ tag hfile =>
      have hplan : store.engine.Passes (.shape (Descriptor.fileShape tag)) v →
          store.engine.plan s v =
            .answer (!(store.surface v).hasNegativeLength) [.key "length"] .negativeLength := by
        intro hpasses
        obtain ⟨entries, entry, q, -, -, -, -, -, hq⟩ := length_of_passes hproper hpasses
        simp only [engine, plan, hform, settledPlan, Descriptor.plan, lengthPlan_eq hq, Plan.bare]
      obtain ⟨passed, found, hfound, hissues⟩ := hlists.of_answer hderived hplan
      refine ⟨tag, passed, found, hshape, (told_iff hread hfile _ _ _).mpr hfound, ?_⟩
      have hengine : store.engine.kind s = .file := hkind
      rwa [Bool.not_not, hengine] at hissues
  union := by
    intro s hs alternatives hform v ok issues htold
    obtain ⟨P, kind, shape, -, hkind, -, hderived, hclosed, hlists⟩ := hs.opened htold
    rw [hform] at hclosed
    cases hclosed with
    | union =>
      have hplan : store.engine.plan s v = .oneOf alternatives
          (.noAlternative (alternatives.map store.subjectKind)) := by
        simp only [engine, plan, hform]
      rcases hlists.of_oneOf hderived hplan with ⟨-, rfl⟩ | ⟨-, rfl⟩
      · exact .inl rfl
      · exact .inr ⟨_, congrArg (fun kind => [Issue.mk [] kind _]) hkind⟩
  optional := by
    intro s hs c hform v ok issues htold
    obtain ⟨P, kind, shape, hread, hkind, -, hderived, hclosed, hlists⟩ := hs.opened htold
    rw [hform] at hclosed
    have hplan : store.engine.plan s v = .every [] := by
      simp only [engine, plan, hform, settledPlan, Descriptor.plan, Plan.bare]
    cases hclosed with
    | plain _ hd => simp [Descriptor.derived?] at hd
    | optional | optionalShape =>
      have hshape := hlists.of_shape hderived hplan
      rcases hshape.of_oneOf rfl rfl with ⟨-, rfl⟩ | ⟨-, rfl⟩
      · exact .inl rfl
      · exact .inr ⟨_, rfl⟩

end Store

/-- Explanations that list all failures are put together from those of the parts, for values and for
objects that may hold themselves. -/
theorem explanation_composes {settings : Settings} (h : settings.collectAll.truthy = true) :
    Composition settings ∧ ∀ store : Store, store.Proper → store.Composition settings :=
  ⟨composition_values h, fun _ hproper => Store.composition_objects hproper h⟩

/-- A record with a key that is no text and two failures under another, and lists of lists of
numbers against a list that holds itself and a number. -/
theorem explanation_composes_loop :
    let entries : List (Value × Value) :=
      [(.int 1, .null), (.string "a", .list [.int 2, .null, .string "b"])]
    let listed : List Issue := [⟨[], .record, .keyNotText (.int 1)⟩,
      ⟨[.key "a", .index 1], .number, .notNumber .null⟩,
      ⟨[.key "a", .index 2], .number, .notNumber (.string "b")⟩]
    let store := Store.looped
    let told : List Issue := [⟨[.index 0, .index 0], .number, .notNumber (store.tree 4)⟩,
      ⟨[.index 1], .list, .notSequence (.int 5)⟩]
    Settings.default.collectAll.truthy = true ∧
      Explains .default (.record (.list .number)) (.dict entries) false listed ∧
      Concatenates (fun entry part => match entry.1 with
        | .string name => ExplainsUnder .default (.key name) (.list .number) entry.2 part
        | key => part = [⟨[], .record, .keyNotText key⟩]) entries listed ∧
      store.Proper ∧ store.IsSchema (.object 3) ∧ store.Told .default (.object 3) 4 false told ∧
      Concatenates (fun part => store.ToldUnder .default (.index part.2) (.object 2) part.1)
        [4, 5].zipIdx told := by
  intro entries listed store told
  have hall : Settings.default.collectAll.truthy = true := rfl
  obtain ⟨hvalues, hobjects⟩ := explanation_composes hall
  have hexplains : Explains .default (.record (.list .number)) (.dict entries) false listed := rfl
  have htold : store.Told .default (.object 3) 4 false told := rfl
  have helements : store.elements? 4 = some [4, 5] := rfl
  exact ⟨hall, hexplains, hvalues.record rfl hexplains, Store.looped_proper,
    Store.looped_isSchema, htold,
    (hobjects store Store.looped_proper).list Store.looped_isSchema rfl helements htold⟩

end DataSchema
