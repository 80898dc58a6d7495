import DataSchema.Proofs.Settings

/-!
Documents that cannot be read. Main statement: a folder in the place of a document, and a text that
is no document, are passed over as if they were not there, and all that is left of them is a warning
in the log. What is no text in UTF-8 is not passed over: it ends the search.
-/

namespace DataSchema

/-! ### Logs -/

namespace Log

variable {α β : Type} {action : Logged α} {next next' : α → Logged β}

/-- An operation does the same whatever has been written before, and writes after it. -/
def Appends (action : Logged α) : Prop :=
  ∀ records, action.run.run records = ((outcome action).1, records ++ (outcome action).2)

theorem appends_pure (a : α) : Appends (pure a) := by
  intro records
  show (Except.ok a, records) = (Except.ok a, records ++ #[])
  rw [Array.append_empty]

theorem appends_write (record : Record) : Appends (write record) := by
  intro records
  show (Except.ok (), records.push record) = (Except.ok (), records ++ #[record])
  rw [Array.push_eq_append]

theorem appends_throw (e : Error) : Appends (throw e : Logged α) := by
  intro records
  show (Except.error e, records) = (Except.error e, records ++ #[])
  rw [Array.append_empty]

/-- What comes of two operations after each other. -/
theorem outcome_bind (hnext : ∀ a, Appends (next a)) :
    outcome (action >>= next) = match outcome action with
      | (.ok a, written) => ((outcome (next a)).1, written ++ (outcome (next a)).2)
      | (.error e, written) => (.error e, written) := by
  rw [outcome, run_bind]
  unfold outcome
  generalize action.run.run #[] = out
  obtain ⟨result, written⟩ := out
  cases result with
  | error e => rfl
  | ok a => exact hnext a written

theorem Appends.bind (h : Appends action) (hnext : ∀ a, Appends (next a)) :
    Appends (action >>= next) := by
  intro records
  rw [run_bind, h records, outcome_bind hnext]
  generalize outcome action = out
  obtain ⟨result, written⟩ := out
  cases result with
  | error e => rfl
  | ok a =>
    dsimp only
    rw [hnext a, Array.append_assoc]

/-- Two outcomes with one result, of which the first has one record more. -/
def Inserts (record : Record) (one other : Except Error α × Array Record) : Prop :=
  one.1 = other.1 ∧ ∃ before after : Array Record,
    one.2 = before ++ #[record] ++ after ∧ other.2 = before ++ after

theorem inserts_write (record : Record) (hnext : ∀ a, Appends (next a)) {a : α}
    (ha : (outcome action).1 = .ok a) :
    Inserts record (outcome (action >>= fun a => write record >>= fun _ => next a))
      (outcome (action >>= next)) := by
  have hwrite (a : α) : Appends (write record >>= fun _ => next a) :=
    (appends_write record).bind fun _ => hnext a
  rw [outcome_bind hwrite, outcome_bind hnext]
  generalize outcome action = out at ha
  obtain ⟨result, written⟩ := out
  obtain rfl : result = .ok a := ha
  dsimp only
  rw [outcome_bind fun _ => hnext a]
  refine ⟨rfl, written, (outcome (next a)).2, ?_, rfl⟩
  exact (Array.append_assoc).symm

end Log

namespace Settings

open Log (Appends appends_pure appends_write appends_throw)

theorem appends_warn (text : String) (v : Value) : Appends (warn text v) := appends_write _

theorem appends_mergeDepth (settings : Settings) (v : Value) :
    Appends (settings.mergeDepth v) := by
  unfold mergeDepth
  cases wholeNumber? v with
  | error e => exact appends_throw e
  | ok number =>
    cases number with
    | none => exact (appends_warn _ v).bind fun _ => appends_pure settings
    | some n =>
      show Appends (if h : 1 ≤ n then _ else _)
      split
      · exact appends_pure _
      · exact (appends_warn _ _).bind fun _ => appends_pure settings

theorem appends_mergeCollectAll (settings : Settings) (v : Value) :
    Appends (settings.mergeCollectAll v) := by
  unfold mergeCollectAll
  cases flag? v with
  | none => exact (appends_warn _ v).bind fun _ => appends_pure settings
  | some b => exact appends_pure _

theorem appends_merge (settings : Settings) (v : Value) : Appends (settings.merge v) := by
  cases v with
  | dict entries =>
    rw [merge_dict]
    refine Appends.bind ?_ fun merged => ?_
    · cases given? "max_depth" (.dict entries) with
      | none => exact appends_pure settings
      | some entry => exact appends_mergeDepth settings entry
    · cases given? "collect_all" (.dict entries) with
      | none => exact appends_pure merged
      | some entry => exact appends_mergeCollectAll merged entry
  | _ => exact appends_pure settings

/-! ### The search -/

variable {files files' : Files} {folder : String} {sofar : Value} {c : Candidate}
  {before after : List Candidate}

/-- What is logged about a document that cannot be read. -/
def skipped (c : Candidate) : Log.Record :=
  ⟨logger, Log.warning, "skipping unreadable settings file " ++ c.shown⟩

/-- What is logged about the document that is chosen. -/
def loaded (c : Candidate) : Log.Record :=
  ⟨logger, Log.debug, "loaded engine settings from " ++ c.shown⟩

theorem search_absent (h : read? files c = .ok none) :
    search files sofar (c :: after) = search files sofar after := by
  rw [search, h]
  rfl

theorem search_unreadable (h : read? files c = .ok (some none)) :
    search files sofar (c :: after) =
      Log.write (skipped c) >>= fun _ => search files sofar after := by
  rw [search, h]
  rfl

theorem search_found {found : Value} (h : read? files c = .ok (some (some found))) :
    search files sofar (c :: after) =
      if found.truthy then Log.write (loaded c) >>= fun _ => pure found
      else search files found after := by
  rw [search, h]
  rfl

theorem search_error {e : Error} (h : read? files c = .error e) :
    search files sofar (c :: after) = throw e := by
  rw [search, h]
  rfl

/-- A candidate after which the search goes on: it is not there, it is unreadable, or it has nothing
to say. -/
inductive PassedOver (files : Files) (c : Candidate) : Prop where
  | absent (h : read? files c = .ok none)
  | unreadable (h : read? files c = .ok (some none))
  | empty {found : Value} (h : read? files c = .ok (some (some found)))
    (hempty : found.truthy = false)

theorem PassedOver.congr (h : PassedOver files c) (hread : read? files' c = read? files c) :
    PassedOver files' c := by
  cases h with
  | absent h => exact .absent (hread.trans h)
  | unreadable h => exact .unreadable (hread.trans h)
  | empty h hempty => exact .empty (hread.trans h) hempty

/-- After such a candidate the search goes on, perhaps with something logged. -/
theorem PassedOver.goes_on (h : PassedOver files c) (sofar : Value) :
    ∃ note found, Appends note ∧ (∃ written, Log.outcome note = (.ok (), written)) ∧
      ∀ cs, search files sofar (c :: cs) = note >>= fun _ => search files found cs := by
  cases h with
  | absent h =>
    exact ⟨pure (), sofar, appends_pure (), ⟨_, rfl⟩, fun _ => search_absent h⟩
  | unreadable h =>
    exact ⟨Log.write (skipped c), sofar, appends_write _, ⟨_, rfl⟩, fun _ => search_unreadable h⟩
  | @empty found h hempty =>
    refine ⟨pure (), found, appends_pure (), ⟨_, rfl⟩, fun cs => ?_⟩
    rw [search_found h, hempty]
    rfl

/-- At any other candidate it ends, with what is found there or with a failure. -/
theorem search_of_not_passedOver (h : ¬PassedOver files c) (sofar : Value) :
    ∃ last, Appends last ∧ ∀ cs, search files sofar (c :: cs) = last := by
  cases hread : read? files c with
  | error e => exact ⟨throw e, appends_throw e, fun _ => search_error hread⟩
  | ok found =>
    match found with
    | none => exact absurd (.absent hread) h
    | some none => exact absurd (.unreadable hread) h
    | some (some found) =>
      cases htruthy : found.truthy with
      | false => exact absurd (.empty hread htruthy) h
      | true =>
        refine ⟨Log.write (loaded c) >>= fun _ => pure found,
          (appends_write _).bind fun _ => appends_pure found, fun cs => ?_⟩
        rw [search_found hread, if_pos htruthy]

theorem appends_search (files : Files) (sofar : Value) (cs : List Candidate) :
    Appends (search files sofar cs) := by
  induction cs generalizing sofar with
  | nil => exact appends_pure sofar
  | cons c cs ih =>
    by_cases h : PassedOver files c
    · obtain ⟨note, found, hnote, -, hgoes⟩ := h.goes_on sofar
      rw [hgoes]
      exact hnote.bind fun _ => ih found
    · obtain ⟨last, hlast, hends⟩ := search_of_not_passedOver h sofar
      rw [hends]
      exact hlast

/-- Folders in which all candidates read the same are searched alike. -/
theorem search_congr {cs : List Candidate} (h : ∀ c ∈ cs, read? files' c = read? files c) :
    search files' sofar cs = search files sofar cs := by
  induction cs generalizing sofar with
  | nil => rfl
  | cons c cs ih =>
    obtain ⟨hc, hcs⟩ := List.forall_mem_cons.mp h
    simp only [search, hc, ih hcs]

/-- After candidates that are passed over the search goes on with what was read last. -/
theorem search_append (h : ∀ c ∈ before, PassedOver files c) (after : List Candidate) :
    search files sofar (before ++ after) =
      search files sofar before >>= fun sofar => search files sofar after := by
  induction before generalizing sofar with
  | nil => rfl
  | cons c before ih =>
    obtain ⟨hc, hbefore⟩ := List.forall_mem_cons.mp h
    obtain ⟨note, found, -, -, hgoes⟩ := hc.goes_on sofar
    rw [List.cons_append, hgoes, hgoes, ih hbefore, bind_assoc]

theorem exists_search_of_passedOver (h : ∀ c ∈ before, PassedOver files c) (sofar : Value) :
    ∃ sofar', (Log.outcome (search files sofar before)).1 = .ok sofar' := by
  induction before generalizing sofar with
  | nil => exact ⟨sofar, rfl⟩
  | cons c before ih =>
    obtain ⟨hc, hbefore⟩ := List.forall_mem_cons.mp h
    obtain ⟨note, found, -, ⟨written, hnote⟩, hgoes⟩ := hc.goes_on sofar
    obtain ⟨sofar', hsofar⟩ := ih hbefore found
    rw [hgoes, Log.outcome_bind fun _ => appends_search files found before, hnote]
    exact ⟨sofar', hsofar⟩

/-- A candidate that is not passed over is the last that is read. -/
theorem search_ends {o : Candidate} (ho : o ∈ before) (h : ¬PassedOver files o)
    (after : List Candidate) :
    search files sofar (before ++ after) = search files sofar before := by
  induction before generalizing sofar with
  | nil => simp at ho
  | cons c before ih =>
    rw [List.cons_append]
    by_cases hc : PassedOver files c
    · have hlater : o ∈ before := by
        rcases List.mem_cons.mp ho with rfl | hlater
        · exact absurd hc h
        · exact hlater
      obtain ⟨note, found, -, -, hgoes⟩ := hc.goes_on sofar
      rw [hgoes, hgoes, ih hlater]
    · obtain ⟨last, -, hends⟩ := search_of_not_passedOver hc sofar
      rw [hends, hends]

/-! ### Documents that cannot be read -/

/-- A folder where a document belongs, or a text that is no document. -/
inductive Unreadable (files : Files) (way : Route) : Prop where
  | folder (h : find? files way = .ok (some .folder))
  | malformed {data : ByteArray} {source : String}
    (h : find? files way = .ok (some (.bytes data))) (htext : String.fromUTF8? data = some source)
    (hfault : Toml.document? source = .error .malformed)

theorem read?_of_unreadable (h : Unreadable files c.way) : read? files c = .ok (some none) := by
  cases h with
  | folder h => simp only [read?, h]
  | malformed h htext hfault => simp only [read?, h, htext, hfault]

theorem read?_of_absent (h : find? files c.way = .ok none) : read? files c = .ok none := by
  simp only [read?, h]

theorem read?_of_notUtf8 {data : ByteArray} (h : find? files c.way = .ok (some (.bytes data)))
    (htext : String.fromUTF8? data = none) : read? files c = .error .notUtf8 := by
  simp only [read?, h, htext]

theorem read?_congr (h : find? files' c.way = find? files c.way) :
    read? files' c = read? files c := by
  simp only [read?, h]

theorem fromFiles_eq (files : Files) (folder : String) (path : Option String) :
    fromFiles files folder path =
      search files .null (candidates folder path) >>= fun chosen => default.merge chosen := rfl

/-- The candidates but for one are the same in two folders. This one is unreadable in the first
folder, and in the other it is not there. -/
structure Without (files files' : Files) (before : List Candidate) (c : Candidate)
    (after : List Candidate) : Prop where
  unreadable : Unreadable files c.way
  absent : find? files' c.way = .ok none
  rest : ∀ o ∈ before ++ after, find? files' o.way = find? files o.way

/-- If the search comes to the unreadable candidate, it logs a warning more. -/
theorem Without.inserts (h : Without files files' before c after)
    (hpassed : ∀ o ∈ before, PassedOver files o) {next : Value → Log.Logged Settings}
    (hnext : ∀ found, Appends (next found)) : Log.Inserts (skipped c)
      (Log.outcome (search files sofar (before ++ c :: after) >>= next))
      (Log.outcome (search files' sofar (before ++ c :: after) >>= next)) := by
  have hsame : ∀ o ∈ before ++ after, read? files' o = read? files o :=
    fun o ho => read?_congr (h.rest o ho)
  have hbefore := fun o ho => hsame o (List.mem_append_left after ho)
  have hafter := fun o ho => hsame o (List.mem_append_right before ho)
  have hpassed' : ∀ o ∈ before, PassedOver files' o :=
    fun o ho => (hpassed o ho).congr (hbefore o ho)
  have hwith : search files sofar (before ++ c :: after) >>= next =
      search files sofar before >>= fun found =>
        Log.write (skipped c) >>= fun _ => search files found after >>= next := by
    rw [search_append hpassed, bind_assoc]
    simp only [search_unreadable (read?_of_unreadable h.unreadable), bind_assoc]
  have hwithout : search files' sofar (before ++ c :: after) >>= next =
      search files sofar before >>= fun found => search files found after >>= next := by
    rw [search_append hpassed', bind_assoc, search_congr hbefore]
    simp only [search_absent (read?_of_absent h.absent), search_congr hafter]
  obtain ⟨found, hfound⟩ := exists_search_of_passedOver hpassed sofar
  rw [hwith, hwithout]
  exact Log.inserts_write (skipped c)
    (fun found => (appends_search files found after).bind hnext) hfound

/-- If the search ends before, it does not look at the candidate. -/
theorem Without.search_eq (h : Without files files' before c after) {o : Candidate}
    (ho : o ∈ before) (hends : ¬PassedOver files o) :
    search files sofar (before ++ c :: after) = search files' sofar (before ++ c :: after) := by
  have hbefore : ∀ o ∈ before, read? files' o = read? files o :=
    fun o ho => read?_congr (h.rest o (List.mem_append_left after ho))
  have hends' : ¬PassedOver files' o := fun hpassed => hends (hpassed.congr (hbefore o ho).symm)
  rw [search_ends ho hends, search_ends ho hends', search_congr hbefore]

theorem Without.result_eq (h : Without files files' before c after)
    {next : Value → Log.Logged Settings} (hnext : ∀ found, Appends (next found)) :
    (Log.outcome (search files sofar (before ++ c :: after) >>= next)).1 =
      (Log.outcome (search files' sofar (before ++ c :: after) >>= next)).1 := by
  by_cases hpassed : ∀ o ∈ before, PassedOver files o
  · exact (h.inserts hpassed hnext).1
  · obtain ⟨o, ho, hends⟩ : ∃ o ∈ before, ¬PassedOver files o := by simpa using hpassed
    rw [h.search_eq ho hends]

/-- What is no text in UTF-8 ends the search that comes to it. -/
theorem search_notUtf8 (hpassed : ∀ o ∈ before, PassedOver files o) {data : ByteArray}
    (h : find? files c.way = .ok (some (.bytes data))) (htext : String.fromUTF8? data = none)
    (next : Value → Log.Logged Settings) :
    (Log.outcome (search files sofar (before ++ c :: after) >>= next)).1 = .error .notUtf8 := by
  obtain ⟨found, hfound⟩ := exists_search_of_passedOver hpassed sofar
  have hthrows (found : Value) : search files found (c :: after) >>= next = throw .notUtf8 := by
    rw [search_error (read?_of_notUtf8 h htext)]
    rfl
  rw [search_append hpassed, bind_assoc]
  simp only [hthrows]
  rw [Log.outcome_bind fun _ => appends_throw _]
  generalize Log.outcome (search files sofar before) = out at hfound
  obtain ⟨result, written⟩ := out
  obtain rfl : result = .ok found := hfound
  rfl

end Settings

namespace Settings

/-- A document that is no document. -/
def signFile : Files := [(["a.toml"], .bytes "=".toUTF8)]

theorem route_name : route "a.toml" = ["a.toml"] := by
  have hsplit : "a.toml".splitOn "/" = ["a.toml"] := by
    unfold String.splitOn
    rw [if_neg (by decide)]
    iterate 7 rw [String.splitOnAux]
    rfl
  rw [route, hsplit]
  rfl

theorem document?_sign : Toml.document? "=" = .error .malformed := by
  refine Toml.document?_of_statement? (r := .error .malformed) rfl
    ⟨'=', [], rfl, rfl, by decide⟩ ?_
  show (Toml.pair? 4 Toml.valueCalls ['='] >>= _) = _
  rw [Toml.pair?]
  rfl

theorem unreadable_signFile : Unreadable signFile (route "a.toml") := by
  rw [route_name]
  exact .malformed rfl rfl document?_sign

/-- A folder in the place of the first document, beside a document for tools. -/
def blockedFile : Files :=
  [(["shapekit.toml"], .folder),
    ([projectFile], .bytes "tool.shapekit.engine.max_depth = 7".toUTF8)]

/-- The document for tools by itself. -/
def toolFile : Files := [([projectFile], .bytes "tool.shapekit.engine.max_depth = 7".toUTF8)]

theorem without_blockedFile : Without blockedFile toolFile []
    ⟨"/shapekit.toml", ["shapekit.toml"]⟩ [⟨"/pyproject.toml", [projectFile]⟩] where
  unreadable := .folder rfl
  absent := rfl
  rest := by
    intro o ho
    obtain rfl := List.mem_singleton.mp ho
    rfl

/-- A document that consists of a byte that no text begins with. -/
def brokenFile : Files := [(["shapekit.toml"], .bytes ⟨#[0xFF]⟩)]

theorem fromUTF8?_broken : String.fromUTF8? ⟨#[0xFF]⟩ = none := by decide

end Settings

end DataSchema
