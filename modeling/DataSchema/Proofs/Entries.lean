import DataSchema.Proofs.Settings

/-!
Entries that cannot be used. Main statement: to put a mapping over settings fails in one case only,
where its entry for the depth is an infinity. Otherwise each of the two settings is what its entry
tells, and stays what it was where there is no entry or the entry tells nothing.
-/

namespace DataSchema

namespace Settings

variable {v : Value}

/-- An infinity, which has no integer part. -/
def isInfinite : Value → Bool
  | .float (.infinite _) | .decimal (.infinite _) => true
  | _ => false

theorem wholeNumber?_of_isInfinite (h : isInfinite v = true) :
    wholeNumber? v = .error .numberTooLarge := by
  unfold isInfinite at h
  split at h
  · rfl
  · rfl
  · contradiction

/-- All other values are turned into a whole number, or are found not to be one. -/
theorem exists_wholeNumber? (h : isInfinite v = false) : ∃ number, wholeNumber? v = .ok number := by
  unfold wholeNumber?
  split
  case h_5 | h_6 => contradiction
  all_goals exact ⟨_, rfl⟩

/-- A mapping tells a depth by an entry that is turned into a whole number of at least one. -/
def TellsDepth (v : Value) (n : Int) : Prop :=
  ∃ entry, given? "max_depth" v = some entry ∧ DepthTold entry n

/-- A mapping tells a truth value by an entry that is one, or a word for one. -/
def TellsFlag (v : Value) (b : Bool) : Prop :=
  ∃ entry, given? "collect_all" v = some entry ∧ FlagTold entry b

theorem TellsDepth.one_le {n : Int} (h : TellsDepth v n) : 1 ≤ n := by
  obtain ⟨entry, -, -, hle⟩ := h
  exact hle

theorem tellsDepth_iff {depth : Option Int} (h : depthOf? v = .ok depth) (n : Int) :
    TellsDepth v n ↔ depth = some n ∧ 1 ≤ n := by
  unfold depthOf? at h
  unfold TellsDepth DepthTold
  cases hentry : given? "max_depth" v with
  | none =>
    rw [hentry] at h
    obtain rfl := Except.ok.inj h
    simp
  | some entry =>
    rw [hentry] at h
    dsimp only at h
    simp [h]

theorem tellsFlag_iff (b : Bool) : TellsFlag v b ↔ flagOf? v = some b := by
  simp only [TellsFlag, flagOf?, Option.bind_eq_some_iff, flag?_eq_some_iff]

/-- What a mapping makes of settings: what it tells, and for the rest what they were. -/
structure Merged (settings : Settings) (v : Value) (merged : Settings) : Prop where
  depth {n : Int} (h : TellsDepth v n) : merged.depth = .ofInt n h.one_le
  depth_kept (h : ∀ n, ¬TellsDepth v n) : merged.depth = settings.depth
  collectAll {b : Bool} (h : TellsFlag v b) : merged.collectAll = .bool b
  collectAll_kept (h : ∀ b, ¬TellsFlag v b) : merged.collectAll = settings.collectAll

theorem merged_put (settings : Settings) {depth : Option Int} (hdepth : depthOf? v = .ok depth) :
    settings.Merged v (settings.put depth (flagOf? v)) where
  depth := by
    intro n h
    obtain ⟨rfl, hle⟩ := (tellsDepth_iff hdepth n).mp h
    simp only [put, dif_pos hle]
  depth_kept := by
    intro h
    cases depth with
    | none => rfl
    | some n =>
      have hlt : ¬1 ≤ n := fun hle => h n ((tellsDepth_iff hdepth n).mpr ⟨rfl, hle⟩)
      simp only [put, dif_neg hlt]
  collectAll := by
    intro b h
    simp only [put, (tellsFlag_iff b).mp h]
  collectAll_kept := by
    intro h
    cases hflag : flagOf? v with
    | none => rfl
    | some b => exact absurd ((tellsFlag_iff b).mpr hflag) (h b)

theorem outcome_merge (settings : Settings) (v : Value) :
    (Log.outcome (settings.merge v)).1 =
      (depthOf? v).map fun depth => settings.put depth (flagOf? v) :=
  settings.yields_merge v #[]

theorem exists_depthOf?
    (h : ∀ entry, given? "max_depth" v = some entry → isInfinite entry = false) :
    ∃ depth, depthOf? v = .ok depth := by
  unfold depthOf?
  cases hentry : given? "max_depth" v with
  | none => exact ⟨none, rfl⟩
  | some entry => exact exists_wholeNumber? (h entry hentry)

/-- An infinite depth is neither taken nor passed over. -/
theorem outcome_merge_of_isInfinite (settings : Settings) {entry : Value}
    (hentry : given? "max_depth" v = some entry) (h : isInfinite entry = true) :
    (Log.outcome (settings.merge v)).1 = .error .numberTooLarge := by
  rw [outcome_merge, depthOf?, hentry]
  dsimp only
  rw [wholeNumber?_of_isInfinite h]
  rfl

end Settings

open Settings in
/-- To put a mapping over settings fails only for an infinite depth, and then it always does. An
entry that tells nothing leaves what was set before. -/
theorem merge_passes_over_unusable (settings : Settings) (v : Value) :
    ((∀ entry, given? "max_depth" v = some entry → isInfinite entry = false) →
      ∃ merged, (Log.outcome (settings.merge v)).1 = .ok merged ∧ settings.Merged v merged) ∧
    ∀ entry, given? "max_depth" v = some entry → isInfinite entry = true →
      (Log.outcome (settings.merge v)).1 = .error .numberTooLarge := by
  constructor
  · intro h
    obtain ⟨depth, hdepth⟩ := exists_depthOf? h
    refine ⟨settings.put depth (flagOf? v), ?_, merged_put settings hdepth⟩
    rw [outcome_merge, hdepth]
    rfl
  · intro entry hentry h
    exact outcome_merge_of_isInfinite settings hentry h

open Settings in
/-- A depth that is no number and a word for no truth value are both passed over. An infinite depth
is not. -/
theorem merge_passes_over_unusable_words :
    let settings : Settings := ⟨.ofInt 7 (by decide), .bool false⟩
    let words := Value.dict [(.string "max_depth", .float .nan),
      (.string "collect_all", .string "maybe")]
    let endless := Value.dict [(.string "max_depth", .float (.infinite true))]
    (∀ entry, given? "max_depth" words = some entry → isInfinite entry = false) ∧
      (∃ merged, (Log.outcome (settings.merge words)).1 = .ok merged ∧
        settings.Merged words merged) ∧
      (∀ n, ¬TellsDepth words n) ∧ (∀ b, ¬TellsFlag words b) ∧
      (Log.outcome (settings.merge endless)).1 = .error .numberTooLarge := by
  intro settings words endless
  obtain ⟨hmerges, -⟩ := merge_passes_over_unusable settings words
  obtain ⟨-, hfails⟩ := merge_passes_over_unusable settings endless
  have hfinite : ∀ entry, given? "max_depth" words = some entry → isInfinite entry = false := by
    intro entry hentry
    obtain rfl := Option.some.inj hentry
    rfl
  have hdepth : depthOf? words = .ok none := rfl
  have hflag : flagOf? words = none := by decide +kernel
  refine ⟨hfinite, hmerges hfinite, fun n hn => ?_, fun b hb => ?_,
    hfails (.float (.infinite true)) rfl rfl⟩
  · exact nomatch ((tellsDepth_iff hdepth n).mp hn).1
  · exact nomatch hflag.symm.trans ((tellsFlag_iff b).mp hb)

open Settings in
/-- An infinite depth tells nothing, but the depth that was set before does not stay. -/
theorem infinite_depth_is_not_passed_over :
    let v := Value.dict [(.string "max_depth", .float (.infinite false))]
    (∀ n, ¬TellsDepth v n) ∧ (Log.outcome (Settings.default.merge v)).1 = .error .numberTooLarge ∧
      ¬∃ merged, (Log.outcome (Settings.default.merge v)).1 = .ok merged := by
  intro v
  have hfails : (Log.outcome (Settings.default.merge v)).1 = .error .numberTooLarge :=
    outcome_merge_of_isInfinite Settings.default rfl rfl
  refine ⟨?_, hfails, ?_⟩
  · rintro n ⟨entry, hentry, htold, -⟩
    obtain rfl := Option.some.inj hentry
    exact nomatch htold
  · rintro ⟨merged, hmerged⟩
    exact nomatch hfails.symm.trans hmerged

end DataSchema
