import DataSchema.Proofs.Everywhere
import DataSchema.Proofs.Store.Explanation
import DataSchema.Proofs.Store.File

/-!
Where failures are. The path of an issue leads down the value and down the descriptor alike, and
what it leads to do not conform to each other. Only a file puts its failure one step below itself,
at the length that it finds negative.
-/

namespace DataSchema

/-! ### Engines -/

section Engine

variable {D V : Type} {E : Engine D V} {limit : Limit} {d e : D} {v w : V} {path : Path}
  {i : Issue}

/-- A path from a descriptor and a value to those that the engine comes to on it. Derived shapes
are for the same value. -/
inductive Engine.Leads (E : Engine D V) : D → V → Path → D → V → Prop where
  | here (d : D) (v : V) : Leads E d v [] d v
  | derived {d shape e : D} {v w : V} {path : Path} (hd : E.derived? d = some shape)
    (h : Leads E shape v path e w) : Leads E d v path e w
  | part {d c e : D} {v u w : V} {step : Step} {path : Path} {items : List (Item D V)}
    (hplan : E.plan d v = .every items) (hmem : .part c u step ∈ items)
    (h : Leads E c u path e w) : Leads E d v (step :: path) e w

/-- With all levels of a limit the value is found not to conform. -/
def Engine.Rejects (E : Engine D V) (limit : Limit) (d : D) (v : V) : Prop :=
  ∃ issues, E.check limit (limit.bound + 1) .silent d v [] #[] = .ok (false, issues)

/-- Where an issue comes from: its path leads to a descriptor of its kind and a value which that
rejects, or ends below these where the rule of the descriptor puts its failure. -/
inductive Engine.Located (E : Engine D V) (limit : Limit) (d : D) (v : V) (i : Issue) : Prop where
  | own {e : D} {w : V} (hleads : E.Leads d v i.path e w) (hkind : i.kind = E.kind e)
    (hrejects : E.Rejects limit e w)
  | below {e : D} {w : V} {path below : Path} (hpath : i.path = path ++ below)
    (hbelow : below ≠ []) (hleads : E.Leads d v path e w) (hkind : i.kind = E.kind e)
    (hrejects : E.Rejects limit e w) (hplan : E.plan e w = .answer false below i.reason)
    (hpasses : ∀ shape, E.derived? e = some shape → E.Passes shape w)

namespace Engine

theorem Located.derived {shape : D} (h : E.Located limit shape v i)
    (hd : E.derived? d = some shape) : E.Located limit d v i := by
  cases h with
  | own hleads hkind hrejects => exact .own (.derived hd hleads) hkind hrejects
  | below hpath hbelow hleads hkind hrejects hplan hpasses =>
    exact .below hpath hbelow (.derived hd hleads) hkind hrejects hplan hpasses

theorem Located.part {c : D} {u : V} {step : Step} {items : List (Item D V)}
    (h : E.Located limit c u i) (hplan : E.plan d v = .every items)
    (hmem : .part c u step ∈ items) : E.Located limit d v (i.under [step]) := by
  cases h with
  | own hleads hkind hrejects => exact .own (.part hplan hmem hleads) hkind hrejects
  | @below e w path below hpath hbelow hleads hkind hrejects hanswer hpasses =>
    refine .below ?_ hbelow (.part hplan hmem hleads) hkind hrejects hanswer hpasses
    simp [Issue.under, hpath]

variable {levels : Nat} {mode : Recording}

/-- A check that finds a failure with some levels finds it silently with all. -/
theorem Finds.rejects {issues : List Issue} (h : E.Finds limit levels mode d v false issues)
    (hle : levels ≤ limit.bound + 1) : E.Rejects limit d v := by
  have hfull := h.more hle limit
  unfold Finds at hfull
  cases hmode : mode.stopsEarly with
  | true =>
    have hquiet : Recording.silent.stopsEarly = true := rfl
    have hsame := E.check_sameAnswer limit (limit.bound + 1) hquiet hmode d v [] #[] #[]
    rw [hfull] at hsame
    unfold Rejects
    generalize E.check limit (limit.bound + 1) .silent d v [] #[] = silent at hsame ⊢
    cases hsame with
    | answer _ rest => exact ⟨rest, rfl⟩
  | false =>
    obtain rfl : mode = .all := by cases mode <;> simp_all [Recording.stopsEarly]
    have htold := E.check_foretells limit (limit.bound + 1) d v [] #[] #[]
    rw [hfull] at htold
    unfold Rejects
    generalize E.check limit (limit.bound + 1) .silent d v [] #[] = silent at htold ⊢
    cases htold with
    | answer _ rest => exact ⟨rest, rfl⟩

/-- What a rule writes down about a value that it rejects is located if what its parts write down
is. -/
theorem located_of_run (hmode : mode ≠ .silent)
    (hpart : ∀ c u ok found, E.Finds limit levels mode c u ok found →
      ∀ j ∈ found, E.Located limit c u j)
    (hrejects : E.Rejects limit d v)
    (hpasses : ∀ shape, E.derived? d = some shape → E.Passes shape v)
    {ok : Bool} {issues : List Issue}
    (h : (E.plan d v).run (E.check limit levels) mode (E.kind d) v [] #[] =
      .ok (ok, issues.toArray)) :
    ∀ i ∈ issues, E.Located limit d v i := by
  intro i hi
  rcases own_or_every hmode h with rfl | ⟨below, reason, rfl, -, hbelow⟩ | ⟨items, hplan, hrun⟩
  · simp at hi
  · obtain rfl := List.mem_singleton.mp hi
    by_cases hroot : below = []
    · subst hroot
      exact .own (.here d v) rfl hrejects
    · exact .below rfl hroot (.here d v) rfl hrejects (hbelow.resolve_left hroot) hpasses
  · obtain ⟨taken, rest, found, rfl, -, hfound, -, rfl⟩ := finds_of_every hmode hrun
    obtain ⟨item, hitem, ok, new, hfinds, hi⟩ := exists_finds_of_mem hfound hi
    cases hfinds with
    | @part c u step _ js hjs =>
      obtain ⟨j, hj, rfl⟩ := List.mem_map.mp hi
      exact (hpart c u _ js hjs j hj).part hplan (List.mem_append_left rest hitem)
    | blemish reason =>
      obtain rfl := List.mem_singleton.mp hi
      exact .own (.here d v) rfl hrejects

/-- Every issue that a check writes down is located, level by level. -/
theorem Finds.located (hmode : mode ≠ .silent) (hle : levels ≤ limit.bound + 1) {ok : Bool}
    {issues : List Issue} (h : E.Finds limit levels mode d v ok issues) :
    ∀ i ∈ issues, E.Located limit d v i := by
  induction levels generalizing d v ok issues with
  | zero => contradiction
  | succ levels ih =>
    intro i hi
    have hok : ok = false := by
      obtain ⟨new, hnew, hiff⟩ := E.check_blames hmode (levels + 1) d v [] _ _ _ h
      obtain rfl : issues = new := by simpa using hnew
      have hne : issues ≠ [] := List.ne_nil_of_mem hi
      simpa using mt hiff.mp hne
    subst hok
    have hrejects := h.rejects hle
    have hpart : ∀ c u ok found, E.Finds limit levels mode c u ok found →
        ∀ j ∈ found, E.Located limit c u j := fun c u ok found hfound => ih (by omega) hfound
    rcases h.shape_or_rule hmode with ⟨shape, hd, hshape⟩ | ⟨hpasses, hrule⟩
    · exact (hpart _ _ _ _ hshape i hi).derived hd
    · exact located_of_run hmode hpart hrejects hpasses hrule i hi

end Engine

end Engine

/-! ### Values -/

namespace Value

/-- What a step leads to: an element inside of the bounds of a sequence, or an entry of a mapping,
which is absent if there is none. -/
def stepTo? (v : Value) : Step → Option Value
  | .index position => do
    let items ← v.elements?
    if 0 ≤ position then items[position.toNat]? else none
  | .key name => v.entries?.map (entryOrNull name)

/-- What a path leads to. -/
def follow? (v : Value) : Path → Option Value
  | [] => some v
  | step :: path => do (← v.stepTo? step).follow? path

/-- The names among the keys of entries. -/
def names (entries : List (Value × Value)) : List String :=
  entries.filterMap fun (key, _) => match key with
    | .string name => some name
    | _ => none

/-- A mapping has no two entries under one name. -/
def namesOnce (v : Value) : Bool := (names (v.entries?.getD [])).Nodup

theorem lookup_of_mem {name : String} {v : Value} {entries : List (Value × Value)}
    (h : (names entries).Nodup) (hmem : (.string name, v) ∈ entries) :
    lookup name entries = some v := by
  induction entries with
  | nil => simp at hmem
  | cons entry entries ih =>
    obtain ⟨key, w⟩ := entry
    have hrest : ∀ s u, (.string s, u) ∈ entries → s ∈ names entries :=
      fun s u hu => List.mem_filterMap.mpr ⟨_, hu, rfl⟩
    rcases List.mem_cons.mp hmem with heq | hlater
    · obtain ⟨rfl, rfl⟩ := Prod.mk.inj heq
      exact lookup_cons_self name v entries
    · by_cases hkey : key = .string name
      · subst hkey
        exact absurd (hrest name v hlater) (List.nodup_cons.mp h).1
      · rw [lookup_cons_of_ne hkey]
        refine ih ?_ hlater
        cases key with
        | string s => exact (List.nodup_cons.mp h).2
        | _ => exact h

end Value

namespace Descriptor

/-- A path down a descriptor: through elements, entries and declared fields, and from what derives a
shape to the shape. -/
inductive Reaches : Descriptor → Path → Descriptor → Prop where
  | here (d : Descriptor) : Reaches d [] d
  | derived {d shape e : Descriptor} {path : Path} (hd : d.derived? = some shape)
    (h : Reaches shape path e) : Reaches d path e
  | element {item e : Descriptor} {path : Path} (position : Int) (h : Reaches item path e) :
    Reaches (list item) (.index position :: path) e
  | entry {item e : Descriptor} {path : Path} (name : String) (h : Reaches item path e) :
    Reaches (record item) (.key name :: path) e
  | field {fields : List (String × Descriptor)} {name : String} {d e : Descriptor} {path : Path}
    (hmem : (name, d) ∈ fields) (h : Reaches d path e) :
    Reaches (object fields) (.key name :: path) e

/-- What the variants hand on: elements, entries, fields, or nothing. -/
inductive HandsOn (v : Value) : Descriptor → List (Item Descriptor Value) → Prop where
  | elements (item : Descriptor) {elements : List Value} (hv : v.elements? = some elements) :
    HandsOn v (list item) (elements.mapIdx fun i w => .part item w (.index i))
  | entries (item : Descriptor) {entries : List (Value × Value)}
    (hv : v.entries? = some entries) :
    HandsOn v (record item) (entries.map fun (key, w) => match key with
      | .string name => .part item w (.key name)
      | _ => .blemish (.keyNotText key))
  | fields (fields : List (String × Descriptor)) {entries : List (Value × Value)}
    (hv : v.entries? = some entries) :
    HandsOn v (object fields) (fields.map fun (name, d) =>
      .part d (Value.entryOrNull name entries) (.key name))
  | nothing (d : Descriptor) (h : d.kind ≠ .record) : HandsOn v d []

theorem handsOn_of_plan {d : Descriptor} {v : Value} {items : List (Item Descriptor Value)}
    (h : d.plan v = .every items) : HandsOn v d items := by
  cases d with
  | list item =>
    simp only [plan] at h
    cases hv : v.elements? with
    | none => simp [hv] at h
    | some elements =>
      rw [hv] at h
      obtain rfl := Plan.every.inj h
      exact .elements item hv
  | record item =>
    cases hv : v.entries? with
    | none => simp [plan, hv] at h
    | some entries =>
      rw [plan_record item hv] at h
      obtain rfl := Plan.every.inj h
      exact .entries item hv
  | object fields =>
    simp only [plan] at h
    cases hv : v.entries? with
    | none => simp [hv] at h
    | some entries =>
      rw [hv] at h
      obtain rfl := Plan.every.inj h
      exact .fields fields hv
  | any | image | optional =>
    obtain rfl := Plan.every.inj h
    exact .nothing _ (by simp [kind])
  | number | type | file =>
    simp only [plan, lengthPlan] at h
    repeat' split at h
    all_goals contradiction
  | _ => simp [plan] at h

/-- A part that is handed on lies under its step in the descriptor and in the value alike. -/
theorem reaches_part {d c : Descriptor} {v u : Value} {step : Step}
    {items : List (Item Descriptor Value)} (hnames : v.everywhere Value.namesOnce = true)
    (hplan : d.plan v = .every items) (hmem : .part c u step ∈ items) :
    (∀ path e, Reaches c path e → Reaches d (step :: path) e) ∧ v.stepTo? step = some u ∧
      u.everywhere Value.namesOnce = true := by
  cases handsOn_of_plan hplan with
  | elements item hv =>
    obtain ⟨i, hi, heq⟩ := List.mem_mapIdx.mp hmem
    obtain ⟨rfl, rfl, rfl⟩ := Item.part.inj heq
    refine ⟨fun path e h => .element i h, ?_, ?_⟩
    · simp [Value.stepTo?, hv, hi]
    · exact Value.everywhere_elements hnames hv _ (List.getElem_mem hi)
  | @entries item entries hv =>
    obtain ⟨⟨key, w⟩, hentry, heq⟩ := List.mem_map.mp hmem
    cases key with
    | string name =>
      obtain ⟨rfl, rfl, rfl⟩ := Item.part.inj heq
      have honce : (Value.names entries).Nodup := by
        have hself := Value.everywhere_self hnames
        simpa [Value.namesOnce, hv] using hself
      refine ⟨fun path e h => .entry name h, ?_, Value.everywhere_entries hnames hv _ hentry⟩
      simp [Value.stepTo?, hv, Value.entryOrNull, Value.lookup_of_mem honce hentry]
    | _ => contradiction
  | fields fields hv =>
    obtain ⟨⟨name, d⟩, hfield, heq⟩ := List.mem_map.mp hmem
    obtain ⟨rfl, rfl, rfl⟩ := Item.part.inj heq
    refine ⟨fun path e h => .field hfield h, ?_, ?_⟩
    · simp [Value.stepTo?, hv]
    · exact Value.everywhere_entryOrNull rfl hnames hv name
  | nothing => simp at hmem

theorem reaches_of_leads {d e : Descriptor} {v w : Value} {path : Path}
    (h : engine.Leads d v path e w) (hnames : v.everywhere Value.namesOnce = true) :
    d.Reaches path e ∧ v.follow? path = some w := by
  induction h with
  | here d v => exact ⟨.here d, rfl⟩
  | derived hd _ ih =>
    obtain ⟨hreaches, hfollow⟩ := ih hnames
    exact ⟨.derived hd hreaches, hfollow⟩
  | part hplan hmem _ ih =>
    obtain ⟨hlift, hstep, hbelow⟩ := reaches_part hnames hplan hmem
    obtain ⟨hreaches, hfollow⟩ := ih hbelow
    exact ⟨hlift _ _ hreaches, by simpa [Value.follow?, hstep] using hfollow⟩

end Descriptor

theorem Value.follow?_append (v : Value) (path path' : Path) :
    v.follow? (path ++ path') = (v.follow? path).bind (·.follow? path') := by
  induction path generalizing v with
  | nil => rfl
  | cons step path ih =>
    simp only [List.cons_append, Value.follow?]
    cases v.stepTo? step with
    | none => rfl
    | some w => exact ih w

/-- Only the rule of files puts its failure below the value. -/
theorem Descriptor.file_of_below {e : Descriptor} {w : Value} {holds : Bool} {below : Path}
    {reason : Reason} (hplan : e.plan w = .answer holds below reason) (hbelow : below ≠ []) :
    ∃ tag, e = .file tag := by
  cases e with
  | file tag => exact ⟨tag, rfl⟩
  | number | list | record | object | type =>
    simp only [plan] at hplan
    split at hplan
    all_goals
      first
      | contradiction
      | exact absurd (Plan.answer.inj hplan).2.1.symm hbelow
  | null | void | boolean | string | literal =>
    exact absurd (Plan.answer.inj hplan).2.1.symm hbelow
  | _ => contradiction

/-- Where an issue is: its path leads to a descriptor of its kind and a value which that rejects.
The exception is the failure of a file with a negative length, which is at the length. -/
inductive Placed (settings : Settings) (d : Descriptor) (v : Value) (i : Issue) : Prop where
  | own {e : Descriptor} {w : Value} (hreaches : d.Reaches i.path e)
    (hfollow : v.follow? i.path = some w) (hkind : i.kind = e.kind)
    (hrejects : validate settings e w = .ok false)
  | length {path : Path} {tag : Option String} {w n : Value} {q : Rat}
    (hpath : i.path = path ++ [.key "length"]) (hkind : i.kind = .file)
    (hreason : i.message = Reason.negativeLength.message) (hreaches : d.Reaches path (.file tag))
    (hfollow : v.follow? path = some w) (hrejects : validate settings (.file tag) w = .ok false)
    (hlength : v.follow? i.path = some n) (hreal : n.real? = some q) (hnegative : q < 0)

theorem validate_of_rejects {settings : Settings} {d : Descriptor} {v : Value}
    (h : Descriptor.engine.Rejects settings.depth.limit d v) :
    validate settings d v = .ok false := by
  obtain ⟨issues, hcheck⟩ := h
  simp only [validate, runCheck, check_eq, hcheck]
  rfl

theorem placed_of_located {settings : Settings} {d : Descriptor} {v : Value} {i : Issue}
    (h : Descriptor.engine.Located settings.depth.limit d v i)
    (hnames : v.everywhere Value.namesOnce = true) : Placed settings d v i := by
  cases h with
  | own hleads hkind hrejects =>
    obtain ⟨hreaches, hfollow⟩ := Descriptor.reaches_of_leads hleads hnames
    exact .own hreaches hfollow hkind (validate_of_rejects hrejects)
  | @below e w path below hpath hbelow hleads hkind hrejects hplan hpasses =>
    obtain ⟨hreaches, hfollow⟩ := Descriptor.reaches_of_leads hleads hnames
    obtain ⟨tag, rfl⟩ := Descriptor.file_of_below hplan hbelow
    obtain ⟨entries, n, q, hw, hlookup, hreal, hq⟩ :=
      Descriptor.length_of_passes (hpasses _ rfl)
    obtain ⟨hsign, rfl, hreason⟩ := Plan.answer.inj ((lengthPlan_eq hq).symm.trans hplan)
    have hnegative : q < 0 := by simpa [Value.hasNegativeLength, hq] using hsign
    have hlength : w.follow? [.key "length"] = some n := by
      simp [Value.follow?, Value.stepTo?, hw, Value.entryOrNull, hlookup]
    refine .length hpath hkind (congrArg Reason.message hreason.symm) hreaches hfollow
      (validate_of_rejects hrejects) ?_ hreal hnegative
    rw [hpath, Value.follow?_append, hfollow]
    exact hlength

/-- An explanation writes down what it finds. -/
theorem Settings.writes (settings : Settings) :
    (if settings.collectAll.truthy then Recording.all else .first) ≠ .silent := by
  split <;> decide

/-- What an explanation reports is what the engine finds. -/
theorem finds_of_explain {settings : Settings} {d : Descriptor} {v : Value} {report : Report}
    (h : explain settings d v = .ok report) :
    Descriptor.engine.Finds settings.depth.limit (settings.depth.limit.bound + 1)
      (if settings.collectAll.truthy then .all else .first) d v report.ok report.issues := by
  unfold explain at h
  simp only [runCheck, check_eq] at h
  obtain ⟨⟨ok, issues⟩, hcheck, rfl⟩ := exists_of_map_eq_ok h
  exact hcheck

theorem placed_values {settings : Settings} {d : Descriptor} {v : Value} {report : Report}
    (h : explain settings d v = .ok report) (hnames : v.everywhere Value.namesOnce = true) :
    ∀ i ∈ report.issues, Placed settings d v i := by
  intro i hi
  have hlocated := (finds_of_explain h).located settings.writes (Nat.le_refl _) i hi
  exact placed_of_located hlocated hnames

/-! ### Objects -/

namespace Store

/-- What a step leads to, as for values. -/
def stepTo? (store : Store) (v : Ref) : Step → Option Ref
  | .index position => do
    let items ← store.elements? v
    if 0 ≤ position then items[position.toNat]? else none
  | .key name => (store.entries? v).map (store.lookup (.string name))

def follow? (store : Store) (v : Ref) : Path → Option Ref
  | [] => some v
  | step :: path => do store.follow? (← store.stepTo? v step) path

/-- The names among the keys of entries. -/
def names (store : Store) (entries : List (Ref × Ref)) : List String :=
  entries.filterMap fun (key, _) => store.name? key

/-- No mapping of a set of objects has two entries under one name. -/
def NamedOnce (store : Store) (Q : Ref → Prop) : Prop :=
  ∀ v, Q v → ∀ entries, store.entries? v = some entries → (store.names entries).Nodup

/-- No mapping that can be come to from an object has two entries under one name. -/
def NamesOnce (store : Store) (v : Ref) : Prop :=
  ∃ Q : Ref → Prop, Q v ∧ store.Whole Q ∧ store.NamedOnce Q

/-- A path down a subject: through elements, entries and fields, and from what derives a shape to
the shape. -/
inductive Reaches (store : Store) : Subject → Path → Subject → Prop where
  | here (s : Subject) : Reaches store s [] s
  | derived {s shape t : Subject} {path : Path} (hd : store.derived? s = .ok (some shape))
    (h : Reaches store shape path t) : Reaches store s path t
  | element {s item t : Subject} {path : Path} (hform : store.form s = .list item)
    (position : Int) (h : Reaches store item path t) : Reaches store s (.index position :: path) t
  | entry {s item t : Subject} {path : Path} (hform : store.form s = .record item) (name : String)
    (h : Reaches store item path t) : Reaches store s (.key name :: path) t
  | field {s c t : Subject} {fields : List (Except Error (Value × Subject))} {name : String}
    {path : Path} (hform : store.form s = .object (.ok fields))
    (hmem : .ok (.string name, c) ∈ fields) (h : Reaches store c path t) :
    Reaches store s (.key name :: path) t

/-- A validation that ends with a no; that of a shape which no object holds is a walk. -/
def Rejects (store : Store) (settings : Settings) : Subject → Ref → Prop
  | .object r, v => store.validate settings r v = .ok false
  | s, v => ∃ issues, store.runCheck settings .silent s v = .ok (false, issues)

/-- Where an issue of an explanation of an object is, as for values. -/
inductive Placed (store : Store) (settings : Settings) (s : Subject) (v : Ref) (i : Issue) :
    Prop where
  | own {t : Subject} {w : Ref} (hreaches : store.Reaches s i.path t)
    (hfollow : store.follow? v i.path = some w) (hkind : store.kindOf? t = .ok i.kind)
    (hrejects : store.Rejects settings t w)
  | length {path : Path} {t : Subject} {held : Option String} {w n : Ref} {q : Rat}
    (hpath : i.path = path ++ [.key "length"]) (hkind : i.kind = .file)
    (hreason : i.message = Reason.negativeLength.message) (hreaches : store.Reaches s path t)
    (hfile : store.form t = .settled (.file held)) (hfollow : store.follow? v path = some w)
    (hrejects : store.Rejects settings t w) (hlength : store.follow? v i.path = some n)
    (hreal : (store.face n).real? = some q) (hnegative : q < 0)

variable {store : Store} {P : Subject → Prop} {Q : Ref → Prop}

theorem follow?_append (v : Ref) (path path' : Path) :
    store.follow? v (path ++ path') = (store.follow? v path).bind (store.follow? · path') := by
  induction path generalizing v with
  | nil => rfl
  | cons step path ih =>
    simp only [List.cons_append, follow?]
    cases store.stepTo? v step with
    | none => rfl
    | some w => exact ih w

theorem lookup_of_mem {name : String} {key v : Ref} {entries : List (Ref × Ref)}
    (h : (store.names entries).Nodup) (hmem : (key, v) ∈ entries)
    (hname : store.name? key = some name) : store.lookup (.string name) entries = v := by
  induction entries with
  | nil => simp at hmem
  | cons entry entries ih =>
    obtain ⟨other, w⟩ := entry
    rcases List.mem_cons.mp hmem with heq | hlater
    · obtain ⟨rfl, rfl⟩ := Prod.mk.inj heq
      simp [lookup, hname]
    · have hin : name ∈ store.names entries := List.mem_filterMap.mpr ⟨_, hlater, hname⟩
      cases hother : store.name? other with
      | none =>
        simp only [names, List.filterMap_cons, hother] at h
        simpa [lookup, hother] using ih h hlater
      | some s =>
        simp only [names, List.filterMap_cons, hother] at h
        obtain ⟨hs, hrest⟩ := List.nodup_cons.mp h
        have hne : (store.name? other == some name) = false := by
          rw [hother, beq_eq_false_iff_ne]
          intro heq
          exact hs (Option.some.inj heq ▸ hin)
        have hlookup := ih hrest hlater
        simp only [lookup] at hlookup ⊢
        simpa only [List.find?_cons, hne] using hlookup

theorem mem_of_stays {c : Subject} {v u : Ref} {step : Step} {items : List (Item Subject Ref)}
    (h : Plan.Rel Eq Eq (Subject.Stays P Q) v v (.every items) (.every items))
    (hmem : .part c u step ∈ items) : P c ∧ Q u := by
  cases h with
  | every hitems =>
    have hitem := List.forall₂_same.mp hitems _ hmem
    cases hitem with
    | part _ hstays => exact hstays.1

theorem settledPlan_every {d : Descriptor} {v : Ref} {items : List (Item Subject Ref)}
    (h : store.settledPlan d v = .every items) : items = [] := by
  have hbare : ∀ plan : Plan Descriptor Value, plan.bare = .every items → items = [] := by
    intro plan hplan
    cases plan with
    | every => exact (Plan.every.inj hplan).symm
    | _ => contradiction
  unfold settledPlan at h
  split at h
  · contradiction
  · exact hbare _ h

/-- What subjects hand on, as descriptors do. -/
inductive HandsOn (store : Store) (v : Ref) : Subject → List (Item Subject Ref) → Prop where
  | elements {s item : Subject} (hform : store.form s = .list item) {elements : List Ref}
    (hv : store.elements? v = some elements) :
    HandsOn store v s (elements.mapIdx fun i w => .part item w (.index i))
  | entries {s item : Subject} (hform : store.form s = .record item) {entries : List (Ref × Ref)}
    (hv : store.entries? v = some entries) :
    HandsOn store v s (entries.map fun (key, w) => match store.name? key with
      | some name => .part item w (.key name)
      | none => .blemish (.keyNotText (store.tree key)))
  | fields {s : Subject} {fields : List (String × Subject)}
    (hform : store.form s = .object (.ok (fields.map fun (name, c) => .ok (.string name, c))))
    {entries : List (Ref × Ref)} (hv : store.entries? v = some entries) :
    HandsOn store v s (fields.map fun (name, c) =>
      .part c (store.lookup (.string name) entries) (.key name))
  | nothing (s : Subject) (h : store.subjectKind s ≠ .record) : HandsOn store v s []

theorem handsOn_of_plan {s : Subject} (hread : store.Readable P s) {v : Ref}
    {items : List (Item Subject Ref)} (hplan : store.plan s v = .every items) :
    store.HandsOn v s items := by
  obtain ⟨kind, shape, hkind, -, hclosed⟩ := hread
  unfold plan at hplan
  cases hform : store.form s with
  | list item =>
    simp only [hform] at hplan
    cases hv : store.elements? v with
    | none => simp [hv] at hplan
    | some elements =>
      rw [hv] at hplan
      obtain rfl := Plan.every.inj hplan
      exact .elements hform hv
  | record item =>
    simp only [hform] at hplan
    cases hv : store.entries? v with
    | none => simp [hv] at hplan
    | some entries =>
      rw [hv] at hplan
      obtain rfl := Plan.every.inj hplan
      exact .entries hform hv
  | object declared =>
    simp only [hform] at hplan hclosed
    cases hclosed with
    | @object fields =>
      cases hv : store.entries? v with
      | none => simp [hv] at hplan
      | some entries =>
        rw [hv] at hplan
        obtain rfl := Plan.every.inj hplan
        rw [List.map_map]
        exact .fields hform hv
  | settled d =>
    simp only [hform] at hplan
    obtain rfl := settledPlan_every hplan
    rw [hform] at hclosed
    obtain ⟨rfl, hsettled⟩ := hclosed.settled
    refine .nothing s ?_
    rw [subjectKind_eq hkind]
    cases d <;> simp_all [Descriptor.IsSettled, Descriptor.kind]
  | literal expected =>
    simp only [hform] at hplan
    split at hplan <;> contradiction
  | type described =>
    simp only [hform] at hplan
    split at hplan <;> contradiction
  | union | broken => simp [hform] at hplan

/-- A part that is handed on lies under its step in the subject and in the object alike. -/
theorem reaches_part (hread : ∀ s, P s → store.Readable P s)
    (honce : store.NamedOnce Q) {s c : Subject} {v u : Ref} (hs : P s) (hv : Q v) {step : Step}
    {items : List (Item Subject Ref)} (hplan : store.plan s v = .every items)
    (hmem : .part c u step ∈ items) :
    (∀ path t, store.Reaches c path t → store.Reaches s (step :: path) t) ∧
      store.stepTo? v step = some u := by
  cases handsOn_of_plan (hread s hs) hplan with
  | elements hform hitems =>
    obtain ⟨i, hi, heq⟩ := List.mem_mapIdx.mp hmem
    obtain ⟨rfl, rfl, rfl⟩ := Item.part.inj heq
    refine ⟨fun path t h => .element hform i h, ?_⟩
    simp [stepTo?, hitems, hi]
  | @entries item hform entries hentries =>
    obtain ⟨⟨key, w⟩, hentry, heq⟩ := List.mem_map.mp hmem
    dsimp only at heq
    cases hname : store.name? key with
    | none =>
      rw [hname] at heq
      contradiction
    | some name =>
      rw [hname] at heq
      obtain ⟨rfl, rfl, rfl⟩ := Item.part.inj heq
      refine ⟨fun path t h => .entry hform name h, ?_⟩
      simp [stepTo?, hentries, lookup_of_mem (honce v hv entries hentries) hentry hname]
  | @fields fields hform entries hentries =>
    obtain ⟨⟨name, c⟩, hfield, heq⟩ := List.mem_map.mp hmem
    obtain ⟨rfl, rfl, rfl⟩ := Item.part.inj heq
    refine ⟨fun path t h => .field hform (List.mem_map.mpr ⟨_, hfield, rfl⟩) h, ?_⟩
    simp [stepTo?, hentries]
  | nothing => simp at hmem

theorem reaches_of_leads (hread : ∀ s, P s → store.Readable P s) (hwhole : store.Whole Q)
    (honce : store.NamedOnce Q) {s t : Subject} {v w : Ref} {path : Path}
    (h : store.engine.Leads s v path t w) (hs : P s) (hv : Q v) :
    store.Reaches s path t ∧ store.follow? v path = some w ∧ P t := by
  induction h with
  | here s v => exact ⟨.here s, rfl, hs⟩
  | @derived s shape t v w path hd _ ih =>
    obtain ⟨kind, shape', -, hshape, hclosed⟩ := hread s hs
    obtain rfl := (engine_derived? hshape).symm.trans hd
    obtain ⟨hreaches, hfollow, ht⟩ := ih (hclosed.shape _ rfl) hv
    exact ⟨.derived hshape hreaches, hfollow, ht⟩
  | part hplan hmem _ ih =>
    obtain ⟨hlift, hstep⟩ := reaches_part hread honce hs hv hplan hmem
    have hstays := plan_stays hread hwhole hs hv fun e _ => Eq.refl e
    obtain ⟨hc, hu⟩ := mem_of_stays ((show store.plan _ _ = _ from hplan) ▸ hstays) hmem
    obtain ⟨hreaches, hfollow, ht⟩ := ih hc hu
    exact ⟨hlift _ _ hreaches, by simpa [follow?, hstep] using hfollow, ht⟩

/-- Only the rule of files puts its failure below the object. -/
theorem file_of_below (hread : ∀ s, P s → store.Readable P s) {t : Subject} (ht : P t) {w : Ref}
    {holds : Bool} {below : Path} {reason : Reason}
    (hplan : store.plan t w = .answer holds below reason) (hbelow : below ≠ []) :
    ∃ held tag, store.form t = .settled (.file held) ∧
      store.derived? t = .ok (some (.shape (Descriptor.fileShape tag))) := by
  obtain ⟨kind, shape, -, hshape, hclosed⟩ := hread t ht
  unfold plan at hplan
  generalize store.form t = form at hplan hclosed
  cases hclosed with
  | file held tag => exact ⟨held, tag, rfl, hshape⟩
  | @plain d hsettled hd =>
    cases d with
    | number =>
      simp only [settledPlan] at hplan
      split at hplan
      · exact absurd (Plan.answer.inj hplan).2.1.symm hbelow
      · simp only [Descriptor.plan] at hplan
        split at hplan
        · exact absurd (Plan.answer.inj hplan).2.1.symm hbelow
        · contradiction
    | null | void | boolean | string => exact absurd (Plan.answer.inj hplan).2.1.symm hbelow
    | any => contradiction
    | optional | file | image => contradiction
    | _ => exact hsettled.elim
  | literal p =>
    simp only [isAlteredLiteral?_toValue] at hplan
    exact absurd (Plan.answer.inj hplan).2.1.symm hbelow
  | list | record | object | type =>
    dsimp only at hplan
    split at hplan
    all_goals
      first
      | contradiction
      | exact absurd (Plan.answer.inj hplan).2.1.symm hbelow
  | optional | optionalShape | image | union => contradiction

theorem rejects_of_engine (hproper : store.Proper) (hread : ∀ s, P s → store.Readable P s)
    {settings : Settings} {t : Subject} (ht : P t) {w : Ref}
    (h : store.engine.Rejects settings.depth.limit t w) : store.Rejects settings t w := by
  obtain ⟨issues, hcheck⟩ := h
  have hrun : store.runCheck settings .silent t w = .ok (false, issues) := by
    unfold runCheck
    dsimp only
    rw [check_eq hread _ _ .silent ht, hcheck]
  cases t with
  | object r =>
    change store.validate settings r w = .ok false
    rw [validate_eq_walk hproper, hrun]
    rfl
  | _ => exact ⟨issues, hrun⟩

theorem placed_of_located (hproper : store.Proper) (hread : ∀ s, P s → store.Readable P s)
    (hwhole : store.Whole Q) (honce : store.NamedOnce Q) {settings : Settings} {s : Subject}
    {v : Ref} {i : Issue} (h : store.engine.Located settings.depth.limit s v i) (hs : P s)
    (hv : Q v) : store.Placed settings s v i := by
  have hkindOf : ∀ {t kind}, P t → kind = store.engine.kind t → store.kindOf? t = .ok kind := by
    rintro t _ ht rfl
    obtain ⟨kind, shape, hkind, -⟩ := hread t ht
    exact hkind.trans (congrArg Except.ok (subjectKind_eq hkind).symm)
  cases h with
  | own hleads hkind hrejects =>
    obtain ⟨hreaches, hfollow, ht⟩ := reaches_of_leads hread hwhole honce hleads hs hv
    exact .own hreaches hfollow (hkindOf ht hkind) (rejects_of_engine hproper hread ht hrejects)
  | @below t w path below hpath hbelow hleads hkind hrejects hplan hpasses =>
    obtain ⟨hreaches, hfollow, ht⟩ := reaches_of_leads hread hwhole honce hleads hs hv
    obtain ⟨held, tag, hform, hshape⟩ := file_of_below hread ht hplan hbelow
    obtain ⟨entries, entry, q, hentries, -, -, hlookup, hreal, hq⟩ :=
      length_of_passes hproper (hpasses _ (engine_derived? hshape))
    have hanswer : store.plan t w =
        .answer (!(store.surface w).hasNegativeLength) [.key "length"] .negativeLength := by
      simp only [plan, hform, settledPlan, Descriptor.plan, lengthPlan_eq hq, Plan.bare]
    obtain ⟨hsign, rfl, hreason⟩ := Plan.answer.inj (hanswer.symm.trans hplan)
    have hnegative : q < 0 := by simpa [Value.hasNegativeLength, hq] using hsign
    have hlength : store.follow? w [.key "length"] = some entry.2 := by
      simp [follow?, stepTo?, hentries, hlookup]
    have hfile : i.kind = .file := by
      have hfound := hkindOf ht hkind
      obtain ⟨kind, shape, hkind', -, hclosed⟩ := hread t ht
      rw [hform] at hclosed
      obtain rfl := Except.ok.inj (hfound.symm.trans hkind')
      exact hclosed.settled.1
    refine .length hpath hfile (congrArg Reason.message hreason.symm) hreaches hform hfollow
      (rejects_of_engine hproper hread ht hrejects) ?_ hreal hnegative
    rw [hpath, follow?_append, hfollow]
    exact hlength

theorem Placed.of_alike {settings : Settings} {s : Subject} {v : Ref} {i j : Issue}
    (h : store.Placed settings s v i) (halike : i.Alike j) : store.Placed settings s v j := by
  obtain ⟨hpath, hkind, hreason⟩ := halike
  rw [List.nil_append] at hpath
  cases h with
  | own hreaches hfollow hkindOf hrejects =>
    rw [hpath] at hreaches hfollow
    exact .own hreaches hfollow (hkind ▸ hkindOf) hrejects
  | length hend hfile hnegative hreaches hform hfollow hrejects hlength hreal hsign =>
    rw [hpath] at hend hlength
    exact .length hend (hkind ▸ hfile) (hreason.symm.trans hnegative) hreaches hform hfollow
      hrejects hlength hreal hsign

/-- What an explanation of an object reports is alike to what the engine finds. -/
theorem finds_of_explain (hproper : store.Proper) {settings : Settings} {r v : Ref}
    (hr : store.IsSchema (.object r)) {report : Report}
    (h : store.explain settings r v = .ok report) :
    ∃ found, List.Forall₂ Issue.Alike found report.issues ∧
      store.engine.Finds settings.depth.limit (settings.depth.limit.bound + 1)
        (if settings.collectAll.truthy then .all else .first) (.object r) v report.ok found := by
  have hreported := explain_reported hproper hr settings v
  rw [h, runCheck_eq_check hr] at hreported
  generalize hrun : store.engine.check _ _ _ (.object r) v [] #[] = walk at hreported
  cases hreported with
  | report _ ok halike => exact ⟨_, halike, hrun⟩

theorem placed_objects (hproper : store.Proper) {settings : Settings} {r v : Ref}
    (hr : store.IsSchema (.object r)) (hv : store.NamesOnce v) {report : Report}
    (h : store.explain settings r v = .ok report) :
    ∀ i ∈ report.issues, store.Placed settings (.object r) v i := by
  intro i hi
  obtain ⟨found, hall, hfinds⟩ := finds_of_explain hproper hr h
  obtain ⟨j, hj, halike⟩ := exists_of_mem_left hall.flip hi
  obtain ⟨member, hmem, hclosed⟩ := hr
  obtain ⟨Q, hQ, hwhole, honce⟩ := hv
  have hread := fun s => readable_of_closed hclosed (s := s)
  have hlocated := hfinds.located settings.writes (Nat.le_refl _) j hj
  exact (placed_of_located hproper hread hwhole honce hlocated hmem hQ).of_alike halike

end Store

/-- Every issue of an explanation is where its path says: what the path leads to do not conform to
each other, down the value and the descriptor, and down objects that may hold themselves. -/
theorem issues_are_placed :
    (∀ settings d v report, v.everywhere Value.namesOnce = true →
      explain settings d v = .ok report → ∀ i ∈ report.issues, Placed settings d v i) ∧
    ∀ store : Store, store.Proper → ∀ settings r v report, store.IsSchema (.object r) →
      store.NamesOnce v → store.explain settings r v = .ok report →
      ∀ i ∈ report.issues, store.Placed settings (.object r) v i :=
  ⟨fun _ _ _ _ hnames h => placed_values h hnames,
    fun _ hproper _ _ _ _ hr hv h => Store.placed_objects hproper hr hv h⟩

/-- A list of images with a file of negative length and with what is no image, and lists of lists of
numbers against a list that holds itself and a number. -/
theorem issues_are_placed_loop :
    let file := Value.dict [(.string "name", .string "a"), (.string "length", .int (-1)),
      (.string "mimeType", .string "image/jpeg"), (.string "dataUrl", .string "data:,"),
      (.string "type", .string "jpg")]
    let v := Value.tuple [.view [(.string "file", file)], .bool true]
    let listed : List Issue := [⟨[.index 0, .key "file", .key "length"], .file, .negativeLength⟩,
      ⟨[.index 1], .object, .notMapping (.bool true)⟩]
    let store := Store.looped
    let told : List Issue := [⟨[.index 0, .index 0], .number, .notNumber (store.tree 4)⟩,
      ⟨[.index 1], .list, .notSequence (.int 5)⟩]
    v.everywhere Value.namesOnce = true ∧
      explain .default (.list .image) v = .ok ⟨.list, false, listed⟩ ∧
      (∀ i ∈ listed, Placed .default (.list .image) v i) ∧
      store.Proper ∧ store.IsSchema (.object 3) ∧ store.NamesOnce 4 ∧
      store.explain .default 3 4 = .ok ⟨.list, false, told⟩ ∧
      ∀ i ∈ told, store.Placed .default (.object 3) 4 i := by
  intro file v listed store told
  obtain ⟨hvalues, hobjects⟩ := issues_are_placed
  have hnames : v.everywhere Value.namesOnce = true := by decide
  have hlisted : explain .default (.list .image) v = .ok ⟨.list, false, listed⟩ := rfl
  have honce : store.NamesOnce 4 := by
    refine ⟨fun _ => True, trivial, Store.whole_all, ?_⟩
    intro r _ entries hentries
    match r with
    | 0 | 1 | 2 | 3 | 4 | 5 | _ + 6 => contradiction
  have htold : store.explain .default 3 4 = .ok ⟨.list, false, told⟩ := rfl
  exact ⟨hnames, hlisted, hvalues _ _ _ _ hnames hlisted, Store.looped_proper,
    Store.looped_isSchema, honce, htold,
    hobjects store Store.looped_proper _ _ _ _ Store.looped_isSchema honce htold⟩

end DataSchema
