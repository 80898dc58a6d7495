import DataSchema.Proofs.Fingerprint
import DataSchema.Proofs.Store.Representation
import DataSchema.Proofs.Settings

/-!
Frames that are checked row by row. The mask, the rows that are kept and the rows that a refusal
tells of all come of one test, which answers each row.

Main statement: where the test answers every row, what is dropped from a frame is what the mask
says and what a refusal counts and lists; where it fails for a row, all operations fail as it does
for the first such row.
-/

namespace DataSchema

namespace Frame

variable {test : Value → Except Error Bool} {kind : Kind} {frame : Frame} {mask : List Bool}

/-! ### Masks -/

/-- A test answers the rows of a frame as a mask says. -/
def Answers (test : Value → Except Error Bool) (frame : Frame) (mask : List Bool) : Prop :=
  List.Forall₂ (fun row ok => test (frame.record row) = .ok ok) frame.rows mask

/-- Whether a test answers a row with `true`. -/
def passes (test : Value → Except Error Bool) (frame : Frame) (row : List Value) : Bool :=
  match test (frame.record row) with
  | .ok ok => ok
  | .error _ => false

theorem passes_eq_true_iff {row : List Value} :
    frame.passes test row = true ↔ test (frame.record row) = .ok true := by
  unfold passes
  cases test (frame.record row) <;> simp

theorem exists_answers (h : ∀ row ∈ frame.rows, ∃ ok, test (frame.record row) = .ok ok) :
    ∃ mask, frame.Answers test mask :=
  exists_forall₂_of_mem h

theorem Answers.maskBy (h : frame.Answers test mask) : frame.maskBy test = .ok mask :=
  mapM_of_forall₂ h

theorem Answers.eq_map (h : frame.Answers test mask) :
    mask = frame.rows.map (frame.passes test) := by
  have hrows := map_eq_of_forall₂ (f := frame.passes test) (g := id) h fun row ok hrow => by
    rw [passes, hrow]
    rfl
  rw [hrows, List.map_id]

/-- The first row that a test fails for decides how the whole frame fails. -/
theorem maskBy_eq_error {before after : List (List Value)} {row : List Value} {e : Error}
    (hrows : frame.rows = before ++ row :: after)
    (hbefore : ∀ earlier ∈ before, ∃ ok, test (frame.record earlier) = .ok ok)
    (hrow : test (frame.record row) = .error e) : frame.maskBy test = .error e := by
  obtain ⟨earlier, hearlier⟩ := exists_forall₂_of_mem hbefore
  rw [maskBy, hrows, List.mapM_append, mapM_of_forall₂ hearlier, List.mapM_cons, hrow]
  rfl

/-! ### Rows that are kept -/

theorem select_map (p : List Value → Bool) (frame : Frame) :
    frame.select (frame.rows.map p) = { frame with rows := frame.rows.filter p } := by
  obtain ⟨columns, rows⟩ := frame
  refine congrArg (Frame.mk columns) ?_
  induction rows with
  | nil => rfl
  | cons row rows ih =>
    rw [List.map_cons, List.zip_cons_cons, List.filter_cons, List.filter_cons]
    cases p row with
    | true => exact congrArg (row :: ·) ih
    | false => exact ih

/-- What a mask selects is what passes the test that it comes of. -/
theorem Answers.select (h : frame.Answers test mask) :
    frame.select mask = { frame with rows := frame.rows.filter (frame.passes test) } := by
  rw [h.eq_map, select_map]

theorem Answers.length_select (h : frame.Answers test mask) :
    (frame.select mask).rows.length = mask.count true := by
  rw [h.select, h.eq_map, ← List.countP_eq_length_filter, List.count, List.countP_map]
  exact List.countP_congr fun row _ => by simp

/-- Every row that was selected passes again. -/
theorem Answers.kept (h : frame.Answers test mask) : (frame.select mask).Answers test
    ((frame.select mask).rows.map fun _ => true) := by
  refine List.forall₂_map_right_iff.mpr (List.forall₂_same.mpr fun row hrow => ?_)
  rw [h.select] at hrow ⊢
  exact passes_eq_true_iff.mp (List.mem_filter.mp hrow).2

theorem select_all (frame : Frame) : frame.select (frame.rows.map fun _ => true) = frame := by
  rw [select_map, List.filter_true]

/-! ### Rows that are rejected -/

theorem rejected_eq (mask : List Bool) : rejected mask =
    mask.zipIdx.filterMap fun entry => if entry.1 then none else some entry.2 := rfl

theorem rejected_cons (ok : Bool) (mask : List Bool) :
    rejected (ok :: mask) = (if ok then [] else [0]) ++ (rejected mask).map (· + 1) := by
  have hlater : (mask.zipIdx 1).filterMap (fun entry => if entry.1 then none else some entry.2) =
      (rejected mask).map (· + 1) := by
    rw [rejected_eq, List.map_filterMap, List.zipIdx_succ, List.filterMap_map]
    refine List.filterMap_congr fun entry _ => ?_
    cases h : entry.1 <;> simp [h]
  rw [rejected_eq, List.zipIdx_cons, List.filterMap_cons, hlater]
  cases ok <;> rfl

/-- The positions are told in order. -/
theorem rejected_increasing (mask : List Bool) : (rejected mask).Pairwise (· < ·) := by
  induction mask with
  | nil => exact .nil
  | cons ok mask ih =>
    have hlater : ((rejected mask).map (· + 1)).Pairwise (· < ·) :=
      List.pairwise_map.mpr (ih.imp fun hlt => by omega)
    rw [rejected_cons]
    cases ok with
    | true => exact hlater
    | false => exact List.pairwise_cons.mpr ⟨by simp, hlater⟩

theorem mem_rejected_iff {i : Nat} : i ∈ rejected mask ↔ mask[i]? = some false := by
  induction mask generalizing i with
  | nil => simp [rejected]
  | cons ok mask ih =>
    rw [rejected_cons, List.mem_append, List.mem_map]
    cases i with
    | zero => cases ok <;> simp
    | succ i => cases ok <;> simp [ih]

/-- Each entry passes or is rejected. -/
theorem length_rejected (mask : List Bool) :
    (rejected mask).length + mask.count true = mask.length := by
  induction mask with
  | nil => rfl
  | cons ok mask ih =>
    rw [rejected_cons, List.length_append, List.length_map, List.count_cons, List.length_cons]
    cases ok <;> simp <;> omega

/-- As many rows are rejected as are not selected. -/
theorem Answers.length_rejected (h : frame.Answers test mask) :
    (rejected mask).length = frame.rows.length - (frame.select mask).rows.length := by
  have hcount := Frame.length_rejected mask
  rw [h.length_select, List.Forall₂.length_eq h]
  omega

/-! ### Operations -/

/-- Whether rows were dropped and written down does not matter to what is kept. -/
theorem yields_keep (kind : Kind) (mask : List Bool) (frame : Frame) :
    Log.Yields (frame.keep kind mask) (.ok (frame.select mask)) := by
  intro records
  unfold keep
  extract_lets dropped
  split <;> rfl

theorem yields_filterValid (settings : Settings) (d : Descriptor) (frame : Frame) :
    Log.Yields (frame.filterValid settings d)
      (frame.validateRows settings d >>= fun mask => .ok (frame.select mask)) :=
  (Log.yields_ofExcept _).bind fun mask => yields_keep d.kind mask frame

/-- The operations on frames, for one descriptor and the same settings. -/
structure Operations where
  mask : Frame → Except Error (List Bool)
  keep : Frame → Except Error Frame
  demand : Frame → Except Error Frame

/-- The operations that come of a test, for a descriptor of a kind. -/
def Operations.of (kind : Kind) (test : Value → Except Error Bool) : Operations where
  mask := maskBy test
  keep frame := return frame.select (← frame.maskBy test)
  demand frame := do frame.demand kind (← frame.maskBy test)

/-- What is said of rejected rows: how many there are, which are the first ten and how many are
left out. -/
def rejection (kind : Kind) (bad : List Nat) : String :=
  Nat.repr bad.length ++ " row(s) rejected by " ++ Text.quoted kind.id ++ ": " ++
    Text.bracketList ((bad.take (min 10 bad.length)).map Nat.repr) ++
    (if 10 < bad.length then " (+" ++ Nat.repr (bad.length - 10) ++ " more)" else "")

theorem message_rowsRejected (kind : Kind) (bad : List Nat) :
    (Error.rowsRejected kind bad).message = rejection kind bad := by
  have hten : Error.shownRows = 10 := rfl
  unfold Error.message rejection
  dsimp only
  rw [hten, ← List.take_eq_take_min]
  by_cases hmore : 10 < bad.length
  · rw [if_pos hmore, if_neg (Nat.sub_ne_zero_of_lt hmore)]
  · rw [if_neg hmore, if_pos (Nat.sub_eq_zero_of_le (Nat.le_of_not_lt hmore))]

/-- A frame is divided into the rows that are kept and those at some positions, which are told
where all rows are demanded. -/
structure Operations.Divides (ops : Operations) (kind : Kind) (test : Value → Except Error Bool)
    (frame : Frame) (mask : List Bool) (kept : Frame) (bad : List Nat) : Prop where
  answers : frame.Answers test mask
  masked : ops.mask frame = .ok mask
  filtered : ops.keep frame = .ok kept
  kept_eq : kept = { frame with rows := frame.rows.filter (frame.passes test) }
  again : ops.keep kept = .ok kept
  accepted : ops.demand kept = .ok kept
  increasing : bad.Pairwise (· < ·)
  mem_bad (i : Nat) : i ∈ bad ↔ mask[i]? = some false
  dropped : bad.length = frame.rows.length - kept.rows.length
  clean : kept.rows.length = frame.rows.length → ops.demand frame = .ok frame
  refused : kept.rows.length ≠ frame.rows.length → ∃ e, ops.demand frame = .error e ∧
    e.family = .schema ∧ e.message = rejection kind bad

/-- All operations on a frame go by one test. -/
structure Operations.Agree (ops : Operations) (kind : Kind) (test : Value → Except Error Bool)
    (frame : Frame) : Prop where
  answered (h : ∀ row ∈ frame.rows, ∃ ok, test (frame.record row) = .ok ok) :
    ∃ mask kept bad, ops.Divides kind test frame mask kept bad
  failing {before after : List (List Value)} {row : List Value} {e : Error}
    (hrows : frame.rows = before ++ row :: after)
    (hbefore : ∀ earlier ∈ before, ∃ ok, test (frame.record earlier) = .ok ok)
    (hrow : test (frame.record row) = .error e) :
    ops.mask frame = .error e ∧ ops.keep frame = .error e ∧ ops.demand frame = .error e

theorem demand_of_isEmpty (h : rejected mask = []) : frame.demand kind mask = .ok frame := by
  rw [demand, h]
  rfl

theorem demand_of_ne_nil (h : rejected mask ≠ []) :
    frame.demand kind mask = .error (.rowsRejected kind (rejected mask)) := by
  have hempty : (rejected mask).isEmpty = false := List.isEmpty_eq_false_iff.mpr h
  simp only [demand, hempty]
  rfl

/-- A frame all of whose rows pass is kept as it is, and accepted. -/
theorem Answers.all (h : frame.Answers test (frame.rows.map fun _ => true)) :
    (Operations.of kind test).keep frame = .ok frame ∧
      (Operations.of kind test).demand frame = .ok frame := by
  have hnone : rejected (frame.rows.map fun _ => true) = [] := by
    refine List.eq_nil_iff_forall_not_mem.mpr fun i hi => ?_
    have hentry := mem_rejected_iff.mp hi
    rw [List.getElem?_map] at hentry
    cases hrow : frame.rows[i]? with
    | none => simp [hrow] at hentry
    | some row => simp [hrow] at hentry
  constructor
  · simp only [Operations.of, h.maskBy]
    exact congrArg Except.ok frame.select_all
  · simp only [Operations.of, h.maskBy]
    exact demand_of_isEmpty hnone

theorem Answers.divides (h : frame.Answers test mask) : (Operations.of kind test).Divides kind test
    frame mask (frame.select mask) (rejected mask) where
  answers := h
  masked := h.maskBy
  filtered := by
    simp only [Operations.of, h.maskBy]
    rfl
  kept_eq := h.select
  again := h.kept.all.1
  accepted := h.kept.all.2
  increasing := rejected_increasing mask
  mem_bad _ := mem_rejected_iff
  dropped := h.length_rejected
  clean hlength := by
    have hnone : rejected mask = [] := List.eq_nil_of_length_eq_zero (by
      rw [h.length_rejected]
      omega)
    simp only [Operations.of, h.maskBy]
    exact demand_of_isEmpty hnone
  refused hlength := by
    have hsome : rejected mask ≠ [] := by
      intro hnone
      have hcount := Frame.length_rejected mask
      rw [hnone, ← h.length_select, ← List.Forall₂.length_eq h] at hcount
      exact hlength (by simpa using hcount)
    refine ⟨.rowsRejected kind (rejected mask), ?_, rfl, message_rowsRejected kind _⟩
    simp only [Operations.of, h.maskBy]
    exact demand_of_ne_nil hsome

theorem operations_agree (kind : Kind) (test : Value → Except Error Bool) (frame : Frame) :
    (Operations.of kind test).Agree kind test frame where
  answered h := by
    obtain ⟨mask, hmask⟩ := exists_answers h
    exact ⟨mask, frame.select mask, rejected mask, hmask.divides⟩
  failing hrows hbefore hrow := by
    have hmask := maskBy_eq_error hrows hbefore hrow
    refine ⟨hmask, ?_, ?_⟩
    · simp only [Operations.of, hmask]
      rfl
    · simp only [Operations.of, hmask]
      rfl

end Frame

namespace Workspace

open DataSchema.Frame (Operations)

variable {workspace : Workspace} {settings : Settings} {d : Ref}

/-- The operations on frames in a workspace, for one object and the same settings. -/
def frameOperations (workspace : Workspace) (settings : Settings) (d : Ref) : Operations where
  mask frame := ((validateRows settings d frame).run.run workspace).1
  keep frame := ((filterValid settings d frame).run.run workspace).1
  demand frame := ((requireValid settings d frame).run.run workspace).1

theorem accepts_of_tree {e : Descriptor} (h : workspace.store.descriptorTree? d = some e) :
    workspace.store.accepts settings d = validate settings e := by
  funext v
  rw [Store.accepts, h]

theorem kind_of_tree (hproper : workspace.store.Proper) {e : Descriptor}
    (h : workspace.store.descriptorTree? d = some e) : workspace.store.kind d = e.kind := by
  have hkind := Store.kindOf?_reads hproper (s := .object d) h
  rw [Store.kindOf?.eq_1] at hkind
  unfold Store.kind
  split at hkind
  · next kind hsome =>
    rw [hsome]
    exact Except.ok.inj hkind
  · contradiction

theorem run_get {α : Type} (next : Workspace → Work α) :
    (get >>= next).run.run workspace = (next workspace).run.run workspace := rfl

/-- Telling the mask changes nothing. -/
theorem run_validateRows (frame : Frame) : (validateRows settings d frame).run.run workspace =
    (frame.maskBy (workspace.store.accepts settings d), workspace) := by
  refine (run_get _).trans ?_
  dsimp only
  split
  · next e htree =>
    rw [accepts_of_tree htree]
    exact Store.run_ofExcept _ workspace
  · exact Store.run_ofExcept _ workspace

/-- Where there is no tree, the mask is told before something is done with it. -/
theorem run_bind_validateRows {α : Type} (frame : Frame) (next : List Bool → Work α) :
    (validateRows settings d frame >>= next).run.run workspace =
      ExceptT.bindCont next (frame.maskBy (workspace.store.accepts settings d)) workspace := by
  rw [ExceptT.run_bind, StateT.run_bind, run_validateRows]
  rfl

theorem run_forM_append (records : List Log.Record) :
    (records.forM append).run.run workspace = (.ok (), { workspace with
      journal := records.foldl Log.Journal.append workspace.journal }) := by
  induction records generalizing workspace with
  | nil => rfl
  | cons record records ih =>
    exact ih

/-- What is written down goes into the journal, and nothing else is changed. -/
theorem run_ofLogged {α : Type} (action : Log.Logged α) : (ofLogged action).run.run workspace =
    ((Log.outcome action).1, { workspace with
      journal := (Log.outcome action).2.toList.foldl Log.Journal.append workspace.journal }) := by
  unfold ofLogged
  generalize Log.outcome action = outcome
  obtain ⟨result, ⟨records⟩⟩ := outcome
  dsimp only
  rw [Array.forM_eq_forM, List.forM_toArray, ExceptT.run_bind, StateT.run_bind, run_forM_append]
  exact Store.run_ofExcept result _

theorem exists_run_ofLogged {α : Type} {action : Log.Logged α} {result : Except Error α}
    (h : Log.Yields action result) : ∃ journal,
      (ofLogged action).run.run workspace = (result, { workspace with journal := journal }) := by
  rw [run_ofLogged, Log.outcome, h #[]]
  exact ⟨_, rfl⟩

/-- To filter a frame changes nothing but the journal. -/
theorem run_filterValid (hproper : workspace.store.Proper) (frame : Frame) : ∃ journal,
    (filterValid settings d frame).run.run workspace =
      ((Operations.of (workspace.store.kind d) (workspace.store.accepts settings d)).keep frame,
        { workspace with journal := journal }) := by
  rw [filterValid, run_get]
  split
  · next e htree =>
    rw [accepts_of_tree htree, kind_of_tree hproper htree]
    exact exists_run_ofLogged (Frame.yields_filterValid settings e frame)
  · rw [run_bind_validateRows]
    cases hmask : frame.maskBy (workspace.store.accepts settings d) with
    | error e =>
      simp only [Operations.of, hmask]
      exact ⟨workspace.journal, rfl⟩
    | ok mask =>
      simp only [Operations.of, hmask]
      obtain ⟨journal, hrun⟩ :=
        exists_run_ofLogged (Frame.yields_keep (workspace.store.kind d) mask frame)
      exact ⟨journal, (run_get _).trans hrun⟩

/-- To demand all rows changes nothing. -/
theorem run_requireValid (hproper : workspace.store.Proper) (frame : Frame) :
    (requireValid settings d frame).run.run workspace =
      ((Operations.of (workspace.store.kind d) (workspace.store.accepts settings d)).demand frame,
        workspace) := by
  rw [requireValid, run_get]
  split
  · next e htree =>
    rw [accepts_of_tree htree, kind_of_tree hproper htree]
    exact Store.run_ofExcept _ workspace
  · rw [run_bind_validateRows]
    cases hmask : frame.maskBy (workspace.store.accepts settings d) with
    | error e =>
      simp only [Operations.of, hmask]
      rfl
    | ok mask =>
      simp only [Operations.of, hmask]
      exact Store.run_ofExcept _ workspace

theorem frameOperations_eq (hproper : workspace.store.Proper) :
    workspace.frameOperations settings d =
      Operations.of (workspace.store.kind d) (workspace.store.accepts settings d) := by
  unfold frameOperations Operations.of
  congr 1
  · funext frame
    rw [run_validateRows]
  · funext frame
    obtain ⟨journal, hrun⟩ := @run_filterValid workspace settings d hproper frame
    rw [hrun]
    rfl
  · funext frame
    rw [run_requireValid hproper]
    rfl

end Workspace

/-- A workspace with a record of numbers, and one that holds itself. -/
def recordsWorkspace : Workspace :=
  ⟨⟨#[.plain .null, .plain (.descriptor .number), .descriptor .record 1, .descriptor .record 3]⟩,
    [], .start⟩

/-- A column of a number and eleven absent values. -/
def sparseColumn : Frame := ⟨["a"], [.int 1] :: List.replicate 11 [.null]⟩

/-- A column of an empty mapping and one that holds another. -/
def nestedColumn : Frame := ⟨["a"], [[.dict []], [.dict [(.string "b", .dict [])]]]⟩

/-- Settings that allow one level. -/
def oneLevel : Settings := ⟨.ofInt 1 (by decide), .bool true⟩

end DataSchema
