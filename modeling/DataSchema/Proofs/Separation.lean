import DataSchema.Proofs.Location
import DataSchema.Proofs.Safety

/-!
Issues at different places. The parts that a plan hands on lie under different steps, so what is
found in one part is nowhere near what is found in another, and a descriptor fails only once at one
place. Only keys of a record that are no texts have no place of their own: for each of them there is
one issue at the record, and there is no other.
-/

namespace DataSchema

/-- Whether a reason is about a key of a record. -/
def Reason.isOfKey : Reason → Bool
  | keyNotText _ => true
  | _ => false

/-- Two issues that are not at one place, unless both are about keys. -/
def Issue.Apart (i j : Issue) : Prop :=
  i.path = j.path → i.reason.isOfKey = true ∧ j.reason.isOfKey = true

/-- The issues at a place. -/
def issuesAt (path : Path) (issues : List Issue) : List Issue :=
  issues.filter (·.path = path)

theorem issuesAt_under (step step' : Step) (path : Path) (issues : List Issue) :
    issuesAt (step' :: path) (issues.map (·.under [step])) =
      if step = step' then (issuesAt path issues).map (·.under [step]) else [] := by
  unfold issuesAt
  rw [List.filter_map]
  by_cases h : step = step'
  · subst h
    simp [Function.comp_def, Issue.under]
  · simp [Function.comp_def, Issue.under, h]

theorem issuesAt_nil_under (step : Step) (issues : List Issue) :
    issuesAt [] (issues.map (·.under [step])) = [] := by
  simp [issuesAt, Issue.under]

/-! ### Engines -/

section Engine

variable {D V : Type} {E : Engine D V} {X : Error → Error → Prop} {P : D → V → Prop}
  {limit : Limit} {levels : Nat} {mode : Recording} {d e : D} {v w : V} {path : Path}
  {items : List (Item D V)}

/-- The step that leads to a part. -/
def Item.step? : Item D V → Option Step
  | part _ _ step => some step
  | _ => none

/-- What shows of a part without a look into it. -/
def Item.blemish? : Item D V → Option Reason
  | blemish reason => some reason
  | _ => none

/-- How a plan tells parts apart: by their steps. What shows without a look into a part is about
keys of a record; nothing else is, and no derived shape leads to a record. -/
structure Engine.Parting (E : Engine D V) (P : D → V → Prop) : Prop where
  once {d : D} {v : V} (h : P d v) {items : List (Item D V)} (hplan : E.plan d v = .every items) :
    (items.filterMap Item.step?).Nodup
  blemish {d : D} {v : V} (h : P d v) {items : List (Item D V)} (hplan : E.plan d v = .every items)
    {reason : Reason} (hmem : .blemish reason ∈ items) :
    E.kind d = .record ∧ reason.isOfKey = true
  own {d : D} {v : V} (h : P d v) {reason : Reason}
    (hreason : (E.plan d v).reason? = some reason) : reason.isOfKey = false
  derived {d shape : D} {v : V} (h : P d v) (hd : E.derived? d = some shape) :
    E.kind d ≠ .record ∧ ∀ items, E.plan d v = .every items → items = []
  shape {d shape e : D} {v w : V} {path : Path} (h : P d v) (hd : E.derived? d = some shape)
    (hleads : E.Leads shape v path e w) : E.kind e ≠ .record

namespace Engine

theorem Confined.part (hE : E.Confined X P) (h : P d v)
    (hpasses : ∀ shape, E.derived? d = some shape → E.Passes shape v)
    (hplan : E.plan d v = .every items) {step : Step} (hmem : .part e w step ∈ items) : P e w := by
  have hrel := hE.plan h hpasses
  rw [hplan] at hrel
  cases hrel with
  | every hitems =>
    have hitem := List.forall₂_same.mp hitems _ hmem
    cases hitem with
    | part _ hpart => exact hpart.1

/-- What is found in a part is under the step to it. What shows without a look into it is not. -/
theorem step_or_blemish {kind : Kind} {item : Item D V} {ok : Bool} {new : List Issue}
    (h : item.Finds E limit levels mode kind ok new) {i : Issue} (hi : i ∈ new) :
    (∃ step path, item.step? = some step ∧ i.path = step :: path) ∨
      item = .blemish i.reason ∧ i.path = [] := by
  cases h with
  | part =>
    obtain ⟨j, -, rfl⟩ := List.mem_map.mp hi
    exact .inl ⟨_, _, rfl, rfl⟩
  | blemish =>
    obtain rfl := List.mem_singleton.mp hi
    exact .inr ⟨rfl, rfl⟩

/-- What parts under different steps find is apart if what each of them finds is. -/
theorem apart_of_every (hparting : E.Parting P) (hdv : P d v) (hplan : E.plan d v = .every items)
    (hmode : mode ≠ .silent)
    (hpart : ∀ c u step, .part c u step ∈ items →
      ∀ ok found, E.Finds limit levels mode c u ok found → found.Pairwise Issue.Apart)
    {ok : Bool} {issues : List Issue}
    (h : (Plan.every items).run (E.check limit levels) mode (E.kind d) v [] #[] =
      .ok (ok, issues.toArray)) : issues.Pairwise Issue.Apart := by
  obtain ⟨taken, rest, found, rfl, -, hfound, -, rfl⟩ := finds_of_every hmode h
  have hmem : ∀ item ∈ taken, item ∈ taken ++ rest := fun _ => List.mem_append_left rest
  have hsteps : taken.Pairwise fun a b =>
      ∀ step, a.step? = some step → ∀ step', b.step? = some step' → step ≠ step' := by
    have hnodup := hparting.once hdv hplan
    rw [List.filterMap_append] at hnodup
    exact List.pairwise_filterMap.mp (List.nodup_append.mp hnodup).1
  have hall := forall₂_with hfound hmem fun _ _ => trivial
  rw [List.pairwise_flatten]
  constructor
  · intro new hnew
    obtain ⟨answer, hanswer, rfl⟩ := List.mem_map.mp hnew
    obtain ⟨item, -, hitem, -, hfinds⟩ := exists_of_mem_left hall.flip hanswer
    generalize answer.1 = ok, answer.2 = new at hfinds
    cases hfinds with
    | part hfinds =>
      rw [List.pairwise_map]
      refine (hpart _ _ _ hitem _ _ hfinds).imp fun hij heq => ?_
      exact hij (List.append_cancel_left heq)
    | blemish => exact List.pairwise_singleton _ _
  · rw [List.pairwise_map]
    refine pairwise_of_forall₂ hall hsteps ?_
    rintro a b answer answer' hdiffer ⟨ha, -, hnew⟩ ⟨hb, -, hnew'⟩ i hi j hj heq
    rcases step_or_blemish hnew hi with ⟨step, path, hstep, hpath⟩ | ⟨rfl, hpath⟩
    · rcases step_or_blemish hnew' hj with ⟨step', path', hstep', hpath'⟩ | ⟨rfl, hpath'⟩
      · rw [hpath, hpath'] at heq
        exact absurd (List.cons.inj heq).1 (hdiffer step hstep step' hstep')
      · rw [hpath, hpath'] at heq
        contradiction
    · rcases step_or_blemish hnew' hj with ⟨step', path', hstep', hpath'⟩ | ⟨rfl, -⟩
      · rw [hpath, hpath'] at heq
        contradiction
      · exact ⟨(hparting.blemish hdv hplan ha).2, (hparting.blemish hdv hplan hb).2⟩

/-- No two issues that a check writes down are at one place, unless they are about keys. -/
theorem Finds.apart (hE : E.Confined X P) (hparting : E.Parting P) (hmode : mode ≠ .silent)
    (hdv : P d v) {ok : Bool} {issues : List Issue}
    (h : E.Finds limit levels mode d v ok issues) : issues.Pairwise Issue.Apart := by
  induction levels generalizing d v ok issues with
  | zero => contradiction
  | succ levels ih =>
    rcases h.shape_or_rule hmode with ⟨shape, hd, hshape⟩ | ⟨hpasses, hrule⟩
    · exact ih (hE.derived? hdv hd) hshape
    · rcases own_or_every hmode hrule with rfl | ⟨below, reason, rfl, -⟩ | ⟨items, hplan, hrun⟩
      · exact .nil
      · exact List.pairwise_singleton _ _
      · refine apart_of_every hparting hdv hplan hmode ?_ hrun
        exact fun c u step hmem ok found => ih (hE.part hdv hpasses hplan hmem)

/-- An issue about a key is at a record, where the key shows without a look into the entry. -/
theorem Finds.blemished (hE : E.Confined X P) (hparting : E.Parting P) (hmode : mode ≠ .silent)
    (hdv : P d v) {ok : Bool} {issues : List Issue}
    (h : E.Finds limit levels mode d v ok issues) {i : Issue} (hi : i ∈ issues)
    (hkey : i.reason.isOfKey = true) :
    ∃ e w items, E.Leads d v i.path e w ∧ i.kind = E.kind e ∧ E.kind e = .record ∧
      E.plan e w = .every items ∧ .blemish i.reason ∈ items := by
  induction levels generalizing d v ok issues i with
  | zero => contradiction
  | succ levels ih =>
    rcases h.shape_or_rule hmode with ⟨shape, hd, hshape⟩ | ⟨hpasses, hrule⟩
    · obtain ⟨e, w, items, hleads, hfound⟩ := ih (hE.derived? hdv hd) hshape hi hkey
      exact ⟨e, w, items, .derived hd hleads, hfound⟩
    · rcases own_or_every hmode hrule with
        rfl | ⟨below, reason, rfl, hown, -⟩ | ⟨items, hplan, hrun⟩
      · simp at hi
      · obtain rfl := List.mem_singleton.mp hi
        exact absurd (hparting.own hdv hown) (by simp [hkey])
      · obtain ⟨taken, rest, found, rfl, -, hfound, -, rfl⟩ := finds_of_every hmode hrun
        obtain ⟨item, hitem, ok, new, hfinds, hi⟩ := exists_finds_of_mem hfound hi
        have hmem := List.mem_append_left rest hitem
        cases hfinds with
        | part hfinds =>
          obtain ⟨j, hj, rfl⟩ := List.mem_map.mp hi
          obtain ⟨e, w, items, hleads, hfound⟩ :=
            ih (hE.part hdv hpasses hplan hmem) hfinds hj hkey
          exact ⟨e, w, items, .part hplan hmem hleads, hfound⟩
        | blemish reason =>
          obtain rfl := List.mem_singleton.mp hi
          exact ⟨d, v, _, .here d v, rfl, (hparting.blemish hdv hplan hmem).1, hplan, hmem⟩

/-! #### All failures -/

/-- What is listed at a record itself. -/
theorem issuesAt_here {kind : Kind} {found : List (Bool × List Issue)}
    (h : List.Forall₂ (fun item answer => item.Finds E limit levels mode kind answer.1 answer.2)
      items found) :
    issuesAt [] (found.map (·.2)).flatten =
      (items.filterMap Item.blemish?).map fun reason => ⟨[], kind, reason⟩ := by
  induction h with
  | nil => rfl
  | @cons item answer items found hitem _ ih =>
    have hfirst : issuesAt [] answer.2 =
        (Item.blemish? item).toList.map fun reason => ⟨[], kind, reason⟩ := by
      generalize answer.1 = ok, answer.2 = new at hitem
      cases hitem with
      | part => exact issuesAt_nil_under _ _
      | blemish reason => rfl
    rw [List.map_cons, List.flatten_cons, issuesAt, List.filter_append]
    rw [← issuesAt, ← issuesAt, hfirst, ih]
    cases hblemish : item.blemish? <;> simp [hblemish]

/-- What is listed under a step to which no part belongs. -/
theorem issuesAt_elsewhere {kind : Kind} {found : List (Bool × List Issue)} {step : Step}
    (h : List.Forall₂ (fun item answer => item.Finds E limit levels mode kind answer.1 answer.2)
      items found) (hstep : step ∉ items.filterMap Item.step?) :
    issuesAt (step :: path) (found.map (·.2)).flatten = [] := by
  rw [issuesAt, List.filter_eq_nil_iff]
  intro i hi hat
  obtain ⟨item, hitem, ok, new, hfinds, hi⟩ := exists_finds_of_mem h hi
  have hpath : i.path = step :: path := by simpa using hat
  rcases step_or_blemish hfinds hi with ⟨step', path', hstep', hpath'⟩ | ⟨-, hpath'⟩
  · obtain ⟨rfl, -⟩ := List.cons.inj (hpath'.symm.trans hpath)
    exact hstep (List.mem_filterMap.mpr ⟨item, hitem, hstep'⟩)
  · rw [hpath'] at hpath
    contradiction

/-- What is listed under the step that leads to a part is what the part lists. -/
theorem issuesAt_part {kind : Kind} {found : List (Bool × List Issue)} {c : D} {u : V} {step : Step}
    (h : List.Forall₂ (fun item answer => item.Finds E limit levels mode kind answer.1 answer.2)
      items found) (honce : (items.filterMap Item.step?).Nodup)
    (hmem : .part c u step ∈ items) :
    ∃ ok new, E.Finds limit levels mode c u ok new ∧
      issuesAt (step :: path) (found.map (·.2)).flatten =
        (issuesAt path new).map (·.under [step]) := by
  induction h with
  | nil => simp at hmem
  | @cons item answer items found hitem hrest ih =>
    rw [List.map_cons, List.flatten_cons, issuesAt, List.filter_append]
    rw [← issuesAt, ← issuesAt]
    generalize answer.1 = ok, answer.2 = new at hitem
    rcases List.mem_cons.mp hmem with heq | hlater
    · subst heq
      cases hitem with
      | @part _ _ _ _ new hpart =>
        obtain ⟨hfirst, -⟩ := List.nodup_cons.mp honce
        refine ⟨ok, new, hpart, ?_⟩
        rw [issuesAt_under, if_pos rfl, issuesAt_elsewhere hrest hfirst, List.append_nil]
    · have hin : step ∈ items.filterMap Item.step? := List.mem_filterMap.mpr ⟨_, hlater, rfl⟩
      cases hitem with
      | @part _ _ step' _ new hpart =>
        obtain ⟨hfirst, honce⟩ := List.nodup_cons.mp honce
        have hne : step' ≠ step := by
          rintro rfl
          exact hfirst hin
        rw [issuesAt_under, if_neg hne, List.nil_append]
        exact ih honce hlater
      | blemish reason => exact ih honce hlater

/-- Where a path leads to a record, all and only the keys that show there are listed. -/
theorem Finds.issuesAt_record (hE : E.Confined X P) (hparting : E.Parting P) (hdv : P d v)
    {ok : Bool} {issues : List Issue} (h : E.Finds limit levels .all d v ok issues)
    (hleads : E.Leads d v path e w) (hkind : E.kind e = .record)
    (hplan : E.plan e w = .every items) :
    issuesAt path issues =
      (items.filterMap Item.blemish?).map fun reason => ⟨path, .record, reason⟩ := by
  have hmode : Recording.all ≠ .silent := by decide
  induction hleads generalizing levels ok issues with
  | here d v =>
    cases levels with
    | zero => contradiction
    | succ levels =>
      rcases h.shape_or_rule hmode with ⟨shape, hd, -⟩ | ⟨-, hrule⟩
      · exact absurd hkind (hparting.derived hdv hd).1
      · rw [hplan] at hrule
        obtain ⟨taken, rest, found, rfl, hrest, hfound, -, rfl⟩ := finds_of_every hmode hrule
        obtain rfl := hrest (.inl rfl)
        rw [issuesAt_here hfound, hkind, List.append_nil]
  | derived hd hleads => exact absurd hkind (hparting.shape hdv hd hleads)
  | @part d c e v u w step path others hothers hmem hleads ih =>
    cases levels with
    | zero => contradiction
    | succ levels =>
      rcases h.shape_or_rule hmode with ⟨shape, hd, -⟩ | ⟨hpasses, hrule⟩
      · rw [(hparting.derived hdv hd).2 others hothers] at hmem
        simp at hmem
      · rw [hothers] at hrule
        obtain ⟨taken, rest, found, rfl, hrest, hfound, -, rfl⟩ := finds_of_every hmode hrule
        obtain rfl := hrest (.inl rfl)
        rw [List.append_nil] at hmem hothers
        obtain ⟨ok, new, hnew, hat⟩ :=
          issuesAt_part hfound (hparting.once hdv hothers) hmem
        rw [hat, ih (hE.part hdv hpasses hothers hmem) hnew hkind hplan, List.map_map]
        rfl

/-- Positions are different. -/
theorem nodup_steps_elements (item : D) (elements : List V) :
    ((elements.mapIdx fun i w => Item.part item w (.index i)).filterMap Item.step?).Nodup := by
  have hsteps : (elements.mapIdx fun i w => Item.part item w (.index i)).filterMap Item.step? =
      (List.range' 0 elements.length).map fun i : Nat => Step.index i := by
    rw [List.mapIdx_eq_zipIdx_map, List.filterMap_map, ← List.zipIdx_map_snd 0 elements,
      List.map_map, ← List.filterMap_eq_map]
    rfl
  rw [hsteps]
  exact List.Nodup.map (fun i j hij => Int.ofNat.inj (Step.index.inj hij)) List.nodup_range'

/-- Names are different steps. -/
theorem nodup_steps_names {α : Type} {as : List α} {f : α → Item D V} {name? : α → Option String}
    (hf : ∀ a, (f a).step? = (name? a).map .key) (h : (as.filterMap name?).Nodup) :
    ((as.map f).filterMap Item.step?).Nodup := by
  have hsteps : (as.map f).filterMap Item.step? = (as.filterMap name?).map .key := by
    rw [List.filterMap_map, List.map_filterMap]
    exact List.filterMap_congr fun a _ => hf a
  rw [hsteps]
  exact h.map fun s t hst => Step.key.inj hst

end Engine

end Engine

/-! ### Values -/

namespace Value

/-- The keys of entries that are no texts. -/
def otherKeys (entries : List (Value × Value)) : List Value :=
  (entries.map (·.1)).filter (!·.isText)

end Value

namespace Descriptor

variable {d shape e : Descriptor} {v w : Value} {path : Path}

/-- No path leads down to a record. -/
def Recordless (d : Descriptor) : Prop := ∀ path e, d.Reaches path e → e.kind ≠ .record

theorem recordless_union (ds : List Descriptor) : Recordless (union ds) := by
  rintro path e (_ | ⟨hd, -⟩)
  · simp [kind]
  · contradiction

/-- What has no parts is as the shape that it derives, if there is one. -/
theorem recordless_leaf (hkind : d.kind ≠ .record) (hleaf : d.parts = [] ∨ d.kind = .optional)
    (hshape : ∀ shape, d.derived? = some shape → shape.Recordless) : Recordless d := by
  intro path e h
  cases h with
  | here => exact hkind
  | derived hd h => exact hshape _ hd _ _ h
  | element | entry => simp [parts, kind] at hleaf
  | field hmem =>
    rcases hleaf with hleaf | hleaf
    · rw [parts, List.map_eq_nil_iff] at hleaf
      simp [hleaf] at hmem
    · contradiction

theorem recordless_object {fields : List (String × Descriptor)}
    (h : ∀ field ∈ fields, field.2.Recordless) : Recordless (object fields) := by
  rintro path e (_ | ⟨hd, -⟩ | _ | _ | ⟨hmem, hfield⟩)
  · simp [kind]
  · contradiction
  · exact h _ hmem _ _ hfield

theorem recordless_fileShape (tag : Option String) : Recordless (fileShape tag) := by
  have hstring : Recordless string := recordless_leaf (by decide) (.inl rfl) (by simp [derived?])
  have hnumber : Recordless number := recordless_leaf (by decide) (.inl rfl) (by simp [derived?])
  have hcategory : ∀ category : Descriptor, category.Recordless → Recordless (object
      [("name", string), ("length", number), ("mimeType", string), ("dataUrl", string),
        ("type", category)]) := by
    intro category h
    exact recordless_object (by simp [hstring, hnumber, h])
  have habsent : Recordless (orAbsent string) := by
    refine recordless_leaf (by simp [orAbsent, kind]) (.inr rfl) ?_
    rintro shape hd
    obtain rfl := Option.some.inj hd
    exact recordless_union _
  unfold fileShape
  apply hcategory
  cases tag with
  | none => exact habsent
  | some t =>
    dsimp only
    split
    · exact habsent
    · exact recordless_leaf (by simp [kind]) (.inl rfl) (by simp [derived?])

/-- Derived shapes have no records among their parts. -/
theorem recordless_of_derived (hd : d.derived? = some shape) : Recordless shape := by
  cases d with
  | optional inner =>
    obtain rfl := Option.some.inj hd
    exact recordless_union _
  | file tag =>
    obtain rfl := Option.some.inj hd
    exact recordless_fileShape tag
  | image =>
    obtain rfl := Option.some.inj hd
    have hfile : Recordless (file (some imageTag)) := by
      refine recordless_leaf (by simp [kind]) (.inl rfl) ?_
      rintro shape hd
      obtain rfl := Option.some.inj hd
      exact recordless_fileShape _
    exact recordless_object (by simpa using hfile)
  | _ => simp [derived?] at hd

theorem isOfKey_own {reason : Reason} (h : (d.plan v).reason? = some reason) :
    reason.isOfKey = false := by
  cases d with
  | number | list | record | object | type | file =>
    simp only [plan, lengthPlan] at h
    repeat' split at h
    all_goals
      first
      | contradiction
      | exact Option.some.inj h ▸ rfl
  | null | void | boolean | string | literal | union => exact Option.some.inj h ▸ rfl
  | any | image | optional | outsider => contradiction

/-- Names of fields and of entries are met once, and so is each position. -/
theorem engine_parting :
    engine.Parting fun d v => d.IsBuilt ∧ v.everywhere Value.namesOnce = true where
  once := by
    rintro d v ⟨hd, hv⟩ items hplan
    cases handsOn_of_plan hplan with
    | elements item => exact Engine.nodup_steps_elements item _
    | @entries item entries hentries =>
      have honce : (Value.names entries).Nodup := by
        have hself := Value.everywhere_self hv
        simpa [Value.namesOnce, hentries] using hself
      refine Engine.nodup_steps_names ?_ honce
      rintro ⟨key, w⟩
      cases key <;> rfl
    | fields fields =>
      have hnames : (fields.filterMap fun field => some field.1).Nodup := by
        rw [List.filterMap_eq_map']
        exact hd.1
      exact Engine.nodup_steps_names (fun _ => rfl) hnames
    | nothing => exact .nil
  blemish := by
    rintro d v - items hplan reason hmem
    cases handsOn_of_plan hplan with
    | elements => simp at hmem
    | entries item hentries =>
      obtain ⟨⟨key, w⟩, -, heq⟩ := List.mem_map.mp hmem
      refine ⟨rfl, ?_⟩
      cases key with
      | string => contradiction
      | _ => exact Item.blemish.inj heq ▸ rfl
    | fields => simp at hmem
    | nothing => simp at hmem
  own := fun _ _ hreason => isOfKey_own hreason
  derived := by
    rintro d shape v - hd
    have hhands : ∀ items, engine.plan d v = .every items → d.HandsOn v items :=
      fun _ => handsOn_of_plan
    cases d with
    | optional | file | image =>
      refine ⟨by simp [engine, kind], fun items hplan => ?_⟩
      cases hhands items hplan
      rfl
    | _ => simp [engine, derived?] at hd
  shape := by
    rintro d shape e v w path ⟨-, hv⟩ hd hleads
    obtain ⟨hreaches, -⟩ := reaches_of_leads hleads hv
    exact recordless_of_derived hd path e hreaches

/-- A path down to a record is walked by the engine where there is a mapping at its end. -/
theorem leads_of_reaches (h : d.Reaches path e) (hfollow : v.follow? path = some w)
    (hw : w.entries? ≠ none) : engine.Leads d v path e w := by
  induction h generalizing v with
  | here d =>
    obtain rfl := Option.some.inj hfollow
    exact .here d v
  | derived hd _ ih => exact .derived hd (ih hfollow)
  | @element item e path position _ ih =>
    obtain ⟨u, hu, hbelow⟩ := Option.bind_eq_some_iff.mp hfollow
    obtain ⟨elements, hv, hu⟩ := Option.bind_eq_some_iff.mp hu
    split at hu
    · next hle =>
      obtain ⟨n, rfl⟩ := Int.eq_ofNat_of_zero_le hle
      have hplan : engine.plan (list item) v =
          .every (elements.mapIdx fun i w => .part item w (.index i)) := by
        simp only [engine, plan, hv]
      refine .part hplan ?_ (ih hbelow)
      obtain ⟨hlt, hget⟩ := List.getElem?_eq_some_iff.mp hu
      exact List.mem_mapIdx.mpr ⟨n, hlt, by rw [← hget]; rfl⟩
    · contradiction
  | @entry item e path name _ ih =>
    obtain ⟨u, hu, hbelow⟩ := Option.bind_eq_some_iff.mp hfollow
    obtain ⟨entries, hv, rfl⟩ := Option.map_eq_some_iff.mp hu
    refine .part (plan_record item hv) ?_ (ih hbelow)
    cases hlookup : Value.lookup name entries with
    | some u =>
      refine List.mem_map.mpr ⟨_, Value.mem_of_lookup hlookup, ?_⟩
      simp only [Value.entryOrNull, hlookup, Option.getD_some]
    | none =>
      -- below an entry that is not there a path leads to no mapping
      simp only [Value.entryOrNull, hlookup, Option.getD_none] at hbelow
      cases path with
      | nil =>
        obtain rfl := Option.some.inj hbelow
        exact absurd rfl hw
      | cons step path => cases step <;> contradiction
  | @field fields name d e path hmem _ ih =>
    obtain ⟨u, hu, hbelow⟩ := Option.bind_eq_some_iff.mp hfollow
    obtain ⟨entries, hv, rfl⟩ := Option.map_eq_some_iff.mp hu
    have hplan : engine.plan (object fields) v = .every (fields.map fun field =>
        .part field.2 (Value.entryOrNull field.1 entries) (.key field.1)) := by
      simp only [engine, plan, hv]
    exact .part hplan (List.mem_map.mpr ⟨_, hmem, rfl⟩) (ih hbelow)

end Descriptor

/-- A path leads to a record and to a mapping alike. -/
def RecordAt (d : Descriptor) (v : Value) (path : Path) (entries : List (Value × Value)) : Prop :=
  ∃ item w, d.Reaches path (.record item) ∧ v.follow? path = some w ∧ w.entries? = some entries

/-- No failing place is listed twice. -/
structure ListedOnce (settings : Settings) (d : Descriptor) (v : Value) (issues : List Issue) :
    Prop where
  /-- Of two issues at one place both are about keys. -/
  apart : issues.Pairwise Issue.Apart
  /-- An issue about a key is at the record that has the key. -/
  ofKey {i : Issue} (hi : i ∈ issues) (hkey : i.reason.isOfKey = true) :
    ∃ entries, RecordAt d v i.path entries ∧
      ∃ key ∈ Value.otherKeys entries, i = ⟨i.path, .record, .keyNotText key⟩
  /-- If all failures are listed, there is one issue for each such key, and there is no other. -/
  keys (hall : settings.collectAll.truthy = true) {path : Path} {entries : List (Value × Value)}
    (h : RecordAt d v path entries) :
    issuesAt path issues =
      (Value.otherKeys entries).map fun key => ⟨path, .record, .keyNotText key⟩

theorem blemishes_record (item : Descriptor) (entries : List (Value × Value)) :
    (entries.map fun (key, w) => match key with
      | .string name => Item.part item w (.key name)
      | _ => .blemish (.keyNotText key)).filterMap Item.blemish? =
        (Value.otherKeys entries).map .keyNotText := by
  unfold Value.otherKeys
  induction entries with
  | nil => rfl
  | cons entry entries ih =>
    obtain ⟨key, w⟩ := entry
    rw [List.map_cons, List.map_cons, List.filterMap_cons, List.filter_cons, ih]
    cases key <;> rfl

theorem listedOnce_values {settings : Settings} {d : Descriptor} {v : Value} {report : Report}
    (hd : d.IsBuilt) (hv : v.everywhere Value.namesOnce = true)
    (h : explain settings d v = .ok report) : ListedOnce settings d v report.issues := by
  have hconfined : Descriptor.engine.Confined (fun _ _ => True) fun d v =>
      d.IsBuilt ∧ v.everywhere Value.namesOnce = true :=
    Descriptor.engine_confined (Value.whole_everywhere rfl) fun _ _ _ _ => trivial
  have hparting := Descriptor.engine_parting
  have hmode := settings.writes
  have hfinds := finds_of_explain h
  refine ⟨hfinds.apart hconfined hparting hmode ⟨hd, hv⟩, ?_, ?_⟩
  · intro i hi hkey
    obtain ⟨e, w, items, hleads, hkind, hrecord, hplan, hmem⟩ :=
      hfinds.blemished hconfined hparting hmode ⟨hd, hv⟩ hi hkey
    obtain ⟨hreaches, hfollow⟩ := Descriptor.reaches_of_leads hleads hv
    cases Descriptor.handsOn_of_plan hplan with
    | elements | fields => contradiction
    | nothing e hother => exact absurd hrecord hother
    | @entries item entries hw =>
      refine ⟨entries, ⟨item, w, hreaches, hfollow, hw⟩, ?_⟩
      have hreason : i.reason ∈ (Value.otherKeys entries).map Reason.keyNotText := by
        rw [← blemishes_record item]
        exact List.mem_filterMap.mpr ⟨_, hmem, rfl⟩
      obtain ⟨key, hin, heq⟩ := List.mem_map.mp hreason
      refine ⟨key, hin, ?_⟩
      rw [heq, ← hrecord, ← hkind]
  · intro hall path entries hrecord
    obtain ⟨item, w, hreaches, hfollow, hw⟩ := hrecord
    rw [if_pos hall] at hfinds
    have hleads := Descriptor.leads_of_reaches hreaches hfollow (by simp [hw])
    calc issuesAt path report.issues
      _ = _ := hfinds.issuesAt_record hconfined hparting ⟨hd, hv⟩ hleads rfl
        (Descriptor.plan_record item hw)
      _ = ((Value.otherKeys entries).map .keyNotText).map fun reason => ⟨path, .record, reason⟩ :=
        congrArg (List.map _) (blemishes_record item entries)
      _ = _ := List.map_map

end DataSchema
