import DataSchema.Proofs.Levels
import DataSchema.Proofs.Lockstep

/-!
How deep a descriptor takes the engine, whatever the value. All that a check hands on to the next
level is lower than its descriptor, so as many levels as the descriptor is high are enough. Objects
in optional fields need all of them.
-/

namespace DataSchema

namespace Descriptor

theorem height_lt_heightOfFields {fields : List (String × Descriptor)} {d : Descriptor}
    (h : d ∈ fields.map (·.2)) : d.height < heightOfFields fields := by
  induction fields with
  | nil => simp at h
  | cons field fields ih =>
    obtain ⟨name, e⟩ := field
    simp only [List.map_cons, List.mem_cons] at h
    simp only [heightOfFields]
    rcases h with rfl | h
    · omega
    · have := ih h
      omega

theorem height_lt_heightOfAll {ds : List Descriptor} {d : Descriptor} (h : d ∈ ds) :
    d.height < heightOfAll ds := by
  induction ds with
  | nil => simp at h
  | cons e ds ih =>
    simp only [heightOfAll]
    rcases List.mem_cons.mp h with rfl | h
    · omega
    · have := ih h
      omega

theorem height_lt_of_mem_parts {d e : Descriptor} (h : e ∈ d.parts) : e.height < d.height := by
  cases d with
  | list item | record item =>
    obtain rfl : e = item := by simpa [parts] using h
    simp only [height]
    omega
  | object fields => simpa only [height] using height_lt_heightOfFields h
  | union ds =>
    simp only [height]
    exact height_lt_heightOfAll h
  | _ => simp [parts] at h

theorem height_fileShape (tag : Option String) :
    (fileShape tag).height = if admitsAnyCategory tag then 3 else 1 := by
  cases tag with
  | none => rfl
  | some t =>
    cases ht : admitsAnyCategory (some t) <;>
      simp [fileShape, ht, height, heightOfFields, orAbsent]

theorem height_lt_of_derived {d e : Descriptor} (h : d.derived? = some e) :
    e.height < d.height := by
  cases d with
  | optional inner =>
    obtain rfl := Option.some.inj h
    simp only [height, heightOfAll]
    omega
  | file tag =>
    obtain rfl := Option.some.inj h
    rw [height_fileShape]
    simp only [height]
    split <;> omega
  | image =>
    obtain rfl := Option.some.inj h
    decide
  | _ => simp [derived?] at h

/-- All that a check hands on to the next level is lower than what it is handed to. -/
theorem height_lt_of_mem_nextLevel {d e : Descriptor} (h : e ∈ d.nextLevel) :
    e.height < d.height := by
  rcases List.mem_append.mp h with h | h
  · exact height_lt_of_derived (Option.mem_toList.mp h)
  · exact height_lt_of_mem_parts h

end Descriptor

/-- The levels suffice for the test. -/
def Test.Suffices (t : Test) : Prop := ∀ issues, ¬LacksLevels (t issues)

theorem lockstep_suffices (mode : Recording) :
    Lockstep mode mode [] (fun t _ => t.Suffices) (fun t _ => t.Suffices) where
  pass := fun _ => not_lacksLevels_ok _
  fail := fun _ _ _ _ => not_lacksLevels_ok _
  raise := fun h _ => mt lacksLevels_error.mp h
  andThen := by
    intro s _ t _ hs ht issues
    apply not_lacksLevels_bind (hs issues)
    rintro ⟨ok, later⟩
    cases ok with
    | true => exact ht later
    | false => exact not_lacksLevels_ok _
  orElse := by
    intro s _ t _ hs ht issues
    apply not_lacksLevels_bind (hs issues)
    rintro ⟨ok, later⟩
    cases ok with
    | true => exact not_lacksLevels_ok _
    | false => exact ht later
  also := by
    intro s _ t _ hs ht issues
    apply not_lacksLevels_bind (hs issues)
    rintro ⟨ok, later⟩
    cases ok with
    | true => exact ht later
    | false =>
      cases mode.stopsEarly with
      | true => exact not_lacksLevels_ok _
      | false => exact not_lacksLevels_bind (ht later) fun _ => not_lacksLevels_ok _

/-- A check of a descriptor needs no more levels below its own than the descriptor is high. -/
theorem check_suffices (limit : Limit) {levels : Nat} (mode : Recording) {d : Descriptor}
    (h : d.height < levels) (v : Value) (path : Path) :
    (check limit levels mode d v path).Suffices := by
  induction levels generalizing mode d v path with
  | zero => omega
  | succ levels ih =>
    have hnext : ∀ mode, ∀ e ∈ d.nextLevel, ∀ w q,
        (check limit levels mode e w q).Suffices := by
      intro mode e he w q
      have hlt := Descriptor.height_lt_of_mem_nextLevel he
      exact ih mode (by omega) w q
    exact @check_succ_related mode mode [] _ _ (lockstep_suffices mode) limit limit levels levels d
      v path (hnext mode) (hnext .silent)

/-- Objects that hold each other in an optional field, so many below the first. -/
def Descriptor.chain (name : String) : Nat → Descriptor
  | 0 => .object []
  | n + 1 => .object [(name, .orAbsent (chain name n))]

/-- The mappings that hold each other in the same way. -/
def Value.chain (name : String) : Nat → Value
  | 0 => .dict []
  | n + 1 => .dict [(.string name, chain name n)]

theorem Descriptor.height_chain (name : String) (n : Nat) : (chain name n).height = 3 * n := by
  induction n with
  | zero => rfl
  | succ n ih =>
    simp only [chain, orAbsent, height, heightOfFields, ih]
    omega

theorem Value.entryOrNull_self (name : String) (v : Value) :
    entryOrNull name [(.string name, v)] = v := by
  simp [entryOrNull, lookup]

/-- The first object passes and fails for want of levels as the one below it does three levels
further down: the optional and its union lie between them. -/
theorem check_chain_succ (limit : Limit) (levels : Nat) (name : String) (n : Nat) (path : Path)
    (issues : Array Issue) {r : Outcome}
    (h : check limit levels .silent (.chain name n) (.chain name n) (path ++ [.key name]) issues =
      r)
    (hr : r = .ok (true, issues) ∨ ∃ e, r = .error e) :
    check limit (levels + 3) .silent (.chain name (n + 1)) (.chain name (n + 1)) path issues =
      r := by
  have hunion : check limit (levels + 1) .silent (.union [.chain name n, .null])
      (.chain name n) (path ++ [.key name]) issues = r := by
    rcases hr with rfl | ⟨e, rfl⟩ <;>
      simp [check, Descriptor.derived?, rule, Test.orElse, h, bind, Except.bind, pure, Except.pure]
  have hoptional : check limit (levels + 2) .silent (.optional (.chain name n))
      (.chain name n) (path ++ [.key name]) issues = r := by
    rw [check]
    simp only [Descriptor.derived?, rule, Test.andThen, hunion]
    rcases hr with rfl | ⟨e, rfl⟩ <;> rfl
  rw [check]
  simp only [Descriptor.chain, Value.chain, Descriptor.derived?, rule, Value.entries?, List.map,
    Value.entryOrNull_self, Descriptor.orAbsent, Test.all, hoptional]
  rcases hr with rfl | ⟨e, rfl⟩ <;> rfl

theorem check_chain (limit : Limit) (name : String) (issues : Array Issue) {n levels : Nat}
    (h : 3 * n < levels) (path : Path) :
    check limit levels .silent (.chain name n) (.chain name n) path issues =
      .ok (true, issues) := by
  induction n generalizing levels path with
  | zero =>
    obtain ⟨levels, rfl⟩ : ∃ k, levels = k + 1 := ⟨levels - 1, by omega⟩
    rfl
  | succ n ih =>
    obtain ⟨levels, rfl⟩ : ∃ k, levels = k + 3 := ⟨levels - 3, by omega⟩
    exact check_chain_succ limit levels name n path issues (ih (by omega) _) (.inl rfl)

theorem check_chain_overrun (limit : Limit) (name : String) (issues : Array Issue) {n levels : Nat}
    (h : levels ≤ 3 * n) (path : Path) :
    ∃ kind, check limit levels .silent (.chain name n) (.chain name n) path issues =
      .error (limit.overrun kind) := by
  induction n generalizing levels path with
  | zero =>
    obtain rfl : levels = 0 := by omega
    exact ⟨_, rfl⟩
  | succ n ih =>
    match levels with
    | 0 => exact ⟨_, rfl⟩
    | 1 => exact ⟨_, rfl⟩
    | 2 => exact ⟨_, rfl⟩
    | levels + 3 =>
      obtain ⟨kind, hkind⟩ := ih (show levels ≤ 3 * n by omega) (path ++ [.key name])
      exact ⟨kind, check_chain_succ limit levels name n path issues hkind (.inr ⟨_, rfl⟩)⟩

end DataSchema
