import DataSchema.Proofs.Canonical
import DataSchema.Proofs.Store.Equality

/-!
Fingerprints of equal schemas. Main statement: the fingerprints of two equal schemas agree if their
literals are of the same forms, and these are what it takes for the descriptions to agree.
-/

namespace DataSchema

namespace Description

mutual

/-- In the strict form there are no fewer levels. -/
theorem levels_false_le (d : Description) : d.levels false ≤ d.levels true := by
  obtain ⟨kind, configuration, children⟩ := d
  have hchildren := levelsOf_false_le children
  simp only [levels, if_true, Bool.false_eq_true, if_false]
  omega
termination_by structural d

theorem levelsOf_false_le (children : List (Step × Description)) :
    levelsOf false children ≤ levelsOf true children := by
  cases children with
  | nil => exact Nat.le_refl 0
  | cons child children =>
    have hchild := levels_false_le child.2
    have hchildren := levelsOf_false_le children
    simp only [levelsOf]
    omega
termination_by structural children

end

end Description

namespace Descriptor

/-- The configuration of a descriptor without children can be told as data. -/
theorem asData?_configuration {d : Descriptor} (h : d.children = []) :
    ∃ v, d.configuration.asData? true = .ok v ∧ v.IsJson := by
  cases d with
  | literal p => cases p <;> exact ⟨_, rfl, trivial⟩
  | file tag => cases tag <;> exact ⟨_, rfl, rfl, trivial, trivial⟩
  | object fields =>
    obtain rfl : fields = [] := by simpa [children] using h
    exact ⟨_, rfl, trivial⟩
  | union ds =>
    obtain rfl : ds = [] := by simpa [children] using h
    exact ⟨_, rfl, trivial⟩
  | list | record | optional | type => simp [children] at h
  | _ => exact ⟨_, rfl, trivial⟩

theorem allWithData?_isOk {children : List (Step × Description)}
    (h : ∀ child ∈ children, ∃ e, child.2.withData? true = .ok e ∧ e.toValue.IsJson) :
    ∃ data, Description.allWithData? true children = .ok data ∧
      Value.AllJson (Description.childValues data) := by
  induction children with
  | nil => exact ⟨[], rfl, trivial⟩
  | cons child children ih =>
    obtain ⟨e, he, hjson⟩ := h child List.mem_cons_self
    obtain ⟨data, hdata, hall⟩ := ih fun x hx => h x (List.mem_cons_of_mem child hx)
    refine ⟨(child.1, e) :: data, by rw [Description.allWithData?, he, hdata]; rfl, ?_, hall⟩
    refine ⟨rfl, ?_, rfl, hjson, trivial⟩
    cases child.1 <;> exact trivial

/-- What is told of a descriptor can be told as data. -/
theorem withData?_describe (d : Descriptor) :
    ∃ e, d.describe.withData? true = .ok e ∧ e.toValue.IsJson := by
  induction hn : d.depth using Nat.strong_induction_on generalizing d with
  | _ n ih =>
    subst hn
    have hchildren : ∀ child ∈ d.children.map fun child => (child.1, child.2.describe),
        ∃ e, child.2.withData? true = .ok e ∧ e.toValue.IsJson := by
      intro child hchild
      obtain ⟨c, hc, rfl⟩ := List.mem_map.mp hchild
      exact ih _ (depth_lt hc) c.2 rfl
    obtain ⟨data, hdata, hall⟩ := allWithData?_isOk hchildren
    have hconfiguration : ∃ v, Value.asData? true (if (d.children.map fun child =>
        (child.1, child.2.describe)).isEmpty then d.configuration else .null) = .ok v ∧
          v.IsJson := by
      by_cases hnone : d.children = []
      · simpa [hnone] using asData?_configuration hnone
      · exact ⟨.null, by simp [hnone, Value.asData?, Value.leafAsData?], trivial⟩
    obtain ⟨v, hv, hjson⟩ := hconfiguration
    refine ⟨.mk d.kind v data, ?_, rfl, trivial, rfl, hjson, rfl, hall, trivial⟩
    rw [describe_eq, describeWith, Description.withData?, hv, hdata]
    rfl

theorem canonical?_describe (d : Descriptor) : ∃ e : Description,
    d.describe.withData? true = .ok e ∧ d.describe.canonical? =
      if d.describe.levels true ≤ Description.maxLevels then .ok (Json.content e.toValue).text
      else .error .tooDeep := by
  obtain ⟨e, he, hjson⟩ := d.withData?_describe
  refine ⟨e, he, ?_⟩
  rw [Description.canonical?, Description.written?]
  split
  · next hdeep => rw [if_neg (Nat.not_le.mpr hdeep)]; rfl
  · next hlevels =>
    rw [if_pos (Nat.not_lt.mp hlevels), he]
    exact Json.canonical?_eq e.toValue hjson

/-- There is a text unless the description is nested too deep. -/
theorem exists_text_iff (d : Descriptor) : (∃ text, d.describe.canonical? = .ok text) ↔
    d.describe.levels true ≤ Description.maxLevels := by
  obtain ⟨e, -, htext⟩ := d.canonical?_describe
  rw [htext]
  split <;> simp_all

end Descriptor

namespace Store

/-- The text that the fingerprint of an object is the digest of. -/
def fingerprintText? (store : Store) (r : Ref) : Except Error String :=
  store.describe? r >>= Description.canonical?

variable {store : Store} {r s : Ref} {a b : Descriptor}

theorem fingerprintText?_of_describe? {e : Description} (h : store.describe? r = .ok e) :
    store.fingerprintText? r = e.canonical? := by
  rw [fingerprintText?, h]
  rfl

theorem depth_le_describeLevels (h : a.describe.levels true ≤ Description.maxLevels) :
    a.depth ≤ describeLevels :=
  (Description.levels_false_le a.describe).trans (h.trans (by decide))

/-- Schemas that are not nested too deep have a fingerprint. -/
theorem fingerprintText?_isOk (hr : store.IsSchema (.object r))
    (ha : store.descriptorTree? r = some a)
    (h : a.describe.levels true ≤ Description.maxLevels) :
    ∃ text, store.fingerprintText? r = .ok text := by
  have hdescribe := (describe?_of_tree hr ha).trans (if_pos (depth_le_describeLevels h))
  rw [fingerprintText?_of_describe? hdescribe]
  exact a.exists_text_iff.mpr h

theorem describe?_eq_of_forms (hr : store.IsSchema (.object r)) (hs : store.IsSchema (.object s))
    (ha : store.descriptorTree? r = some a) (hb : store.descriptorTree? s = some b)
    (h : a.same b = true) (hforms : a.forms = b.forms) : store.describe? r = store.describe? s := by
  have hdescribe := (Descriptor.describe_eq_iff a b h).mpr hforms
  rw [describe?_of_tree hr ha, describe?_of_tree hs hb, Descriptor.depth, Descriptor.depth,
    hdescribe]

theorem forms_eq_of_describe? (hr : store.IsSchema (.object r)) (hs : store.IsSchema (.object s))
    (ha : store.descriptorTree? r = some a) (hb : store.descriptorTree? s = some b)
    (h : a.same b = true) (hdepth : a.depth ≤ describeLevels)
    (heq : store.describe? r = store.describe? s) : a.forms = b.forms := by
  rw [describe?_of_tree hr ha, describe?_of_tree hs hb, if_pos hdepth] at heq
  split at heq
  · exact (Descriptor.describe_eq_iff a b h).mp (Except.ok.inj heq)
  · contradiction

theorem run_ofExcept {α : Type} (result : Except Error α) (workspace : Workspace) :
    ExceptT.run (ofExcept result : Workspace.Work α) workspace = (result, workspace) := by
  cases result <;> rfl

/-- A fingerprint is the digest of the text, and taking it changes nothing. -/
theorem run_fingerprint (workspace : Workspace) (r : Ref) :
    (Workspace.fingerprint r).run.run workspace =
      ((workspace.store.fingerprintText? r).map Sha256.hexDigest, workspace) := by
  have hrun : (Workspace.fingerprint r).run.run workspace =
      (ofExcept (workspace.store.describe? r) >>= fun d =>
        ofExcept d.fingerprint? : Workspace.Work String).run.run workspace := rfl
  rw [hrun, fingerprintText?]
  cases workspace.store.describe? r with
  | error e => rfl
  | ok d => exact run_ofExcept d.fingerprint? workspace

/-- Literals of the number one, the first and the third whole and the second not, and lists of the
whole ones. -/
def ones : Store := ⟨#[.plain .null, .plain (.int 1), .descriptor .literal 1,
  .plain (.float (.finite oneFloat)), .descriptor .literal 3, .descriptor .list 2,
  .plain (.int 1), .descriptor .literal 6, .descriptor .list 7]⟩

theorem ones_proper : ones.Proper := .of_mem rfl (by decide)

theorem ones_isSchema {r : Ref} (h : r ∈ [2, 4, 5, 7, 8]) : ones.IsSchema (.object r) := by
  refine ⟨(· ∈ [2, 4, 5, 7, 8]), h, ?_⟩
  intro x hx
  simp only [List.mem_cons, List.not_mem_nil, or_false] at hx
  rcases hx with rfl | rfl | rfl | rfl | rfl
  · exact .literal (p := .int 1) rfl rfl
  · exact .literal (p := .float oneFloat) rfl rfl
  · exact .list rfl (by decide)
  · exact .literal (p := .int 1) rfl rfl
  · exact .list rfl (by decide)

theorem text_oneFloat : (Binary64.finite oneFloat).text = "1.0" := by
  have hdigits : oneFloat.shortest.text = "1.0" := by
    rw [Finite64.shortest, Finite64.stripZeros, dif_neg (by decide +kernel)]
    decide +kernel
  rw [Binary64.text, if_neg (by decide +kernel), hdigits]
  rfl

/-- The whole number is written without a point. -/
theorem fingerprintText?_whole : ones.fingerprintText? 2 =
    .ok "\x7b\x22children\x22:[],\x22configuration\x22:1,\x22id\x22:\x22literal\x22\x7d" := by
  rw [fingerprintText?, describe?_of_tree (d := .literal (.int 1)) (ones_isSchema (by decide)) rfl,
    if_pos (by decide)]
  rfl

/-- The float is written with a point. -/
theorem fingerprintText?_float : ones.fingerprintText? 4 =
    .ok "\x7b\x22children\x22:[],\x22configuration\x22:1.0,\x22id\x22:\x22literal\x22\x7d" := by
  have hwritten : (Descriptor.literal (.float oneFloat)).describe.written? true =
      .ok (.mk .literal (.float (.finite oneFloat)) []) := rfl
  have hnumber : Json.canonical? (.float (.finite oneFloat)) = .ok "1.0" :=
    congrArg Except.ok text_oneFloat
  have hmapping : Json.mappingText? [(.string "id", fun _ => Json.canonical? (.string "literal")),
      (.string "configuration", fun _ => Json.canonical? (.float (.finite oneFloat))),
      (.string "children", fun _ => Json.canonical? (.list []))] =
      .ok "\x7b\x22children\x22:[],\x22configuration\x22:1.0,\x22id\x22:\x22literal\x22\x7d" := by
    rw [hnumber]
    rfl
  rw [fingerprintText?, describe?_of_tree (d := .literal (.float oneFloat))
    (ones_isSchema (by decide)) rfl, if_pos (by decide)]
  exact (congrArg (· >>= fun d : Description => Json.canonical? d.toValue) hwritten).trans hmapping

end Store

end DataSchema
