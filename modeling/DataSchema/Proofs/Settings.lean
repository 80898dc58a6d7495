import DataSchema.Proofs.Sequence
import DataSchema.Settings.Files

/-!
Settings that are put over each other. Main statement: settings that are loaded have, under each
name for itself, what the first entry tells that can be used, of the variables and then of the
chosen document, and else the default. To put the same entries over settings twice is to put them
once.
-/

namespace DataSchema

namespace Log

variable {α β : Type} {action : Logged α} {result : Except Error α} {next : α → Logged β}
  {after : α → Except Error β}

/-- An operation has one result, whatever has been written before. -/
def Yields (action : Logged α) (result : Except Error α) : Prop :=
  ∀ records, (action.run.run records).1 = result

theorem yields_pure (a : α) : Yields (pure a) (.ok a) := fun _ => rfl

theorem yields_write (record : Record) : Yields (write record) (.ok ()) := fun _ => rfl

theorem yields_ofExcept (result : Except Error α) : Yields (ofExcept result) result := by
  intro records
  cases result <;> rfl

theorem run_bind (action : Logged α) (next : α → Logged β) (records : Array Record) :
    (action >>= next).run.run records = match action.run.run records with
      | (.ok a, written) => (next a).run.run written
      | (.error e, written) => (.error e, written) := by
  show (ExceptT.bindCont next (action.run.run records).1).run (action.run.run records).2 = _
  generalize action.run.run records = out
  obtain ⟨result, written⟩ := out
  cases result <;> rfl

/-- What comes of an operation in which the records do not matter to what comes last. -/
theorem result_bind (hnext : ∀ a, Yields (next a) (after a)) (records : Array Record) :
    ((action >>= next).run.run records).1 = (action.run.run records).1 >>= after := by
  rw [run_bind]
  generalize action.run.run records = out
  obtain ⟨result, written⟩ := out
  cases result with
  | error e => rfl
  | ok a => exact hnext a written

theorem Yields.bind (h : Yields action result) (hnext : ∀ a, Yields (next a) (after a)) :
    Yields (action >>= next) (result >>= after) := by
  intro records
  rw [result_bind hnext, h]

/-- An operation after which nothing fails. -/
theorem Yields.map {f : α → β} (h : Yields action result)
    (hnext : ∀ a, Yields (next a) (.ok (f a))) : Yields (action >>= next) (result.map f) := by
  have hbind := h.bind hnext
  cases result <;> exact hbind

end Log

namespace Toml

/-! ### Documents of one line -/

theorem skipSpaces_cons {c : Char} (h : isSpace c = false) (rest : List Char) :
    skipSpaces (c :: rest) = c :: rest := by
  simp [skipSpaces, h]

/-- An entry whose value is neither an array nor a table. -/
theorem pair?_scalar {fuel : Nat} {source number : List Char} {key : Key} {v : Value}
    (hkey : key? (fuel + 1) source = some (key, '=' :: ' ' :: number))
    (hnumber : ∃ c rest, number = c :: rest ∧ isSpace c = false ∧ c ≠ '[' ∧ c ≠ '\x7b')
    (hscalar : parseScalar number = .ok (v, [])) :
    pair? (fuel + 2) valueCalls source = .ok (key, v, []) := by
  obtain ⟨c, rest, rfl, hspace, hbracket, hbrace⟩ := hnumber
  have hvalue : value? (fuel + 1) valueCalls (c :: rest) = .ok (v, []) := by
    rw [value?, show descend 1 valueCalls = .ok (valueCalls - 1) from rfl]
    dsimp only [bind, Except.bind]
    split
    · simp_all
    · simp_all
    · exact hscalar
  rw [pair?, hkey]
  show (value? (fuel + 1) valueCalls (skipSpaces (c :: rest)) >>= fun read =>
    pure (key, read.1, read.2)) = _
  rw [skipSpaces_cons hspace, hvalue]
  rfl

/-- A document of one line is one statement, or none. -/
theorem document?_of_statement? {line : String} (hbreaks : unifyBreaks line.toList = line.toList)
    (hline : ∃ c rest, line.toList = c :: rest ∧ isSpace c = false ∧ c ∉ ['\n', '#', '['])
    {r : Except Fault Draft}
    (hstatement : Draft.empty.statement? (2 * line.toList.length + 2) line.toList =
      r.map fun draft => (draft, [])) :
    document? line = r.map (·.root) := by
  obtain ⟨c, rest, hsource, hspace, hc⟩ := hline
  simp only [List.mem_cons, List.not_mem_nil, not_or, or_false] at hc
  have hstatements : Draft.empty.statements? ((c :: rest).length + 1) (c :: rest) = r := by
    rw [hsource] at hstatement
    rw [Draft.statements?, skipSpaces_cons hspace]
    split
    · contradiction
    · simp_all
    · simp_all
    · rw [hstatement]
      cases r <;> rfl
  unfold document?
  rw [hbreaks, hsource]
  dsimp only
  rw [hstatements]

/-- A document of one line that is an entry. -/
theorem document?_line {line : String} (hbreaks : unifyBreaks line.toList = line.toList)
    (hline : ∃ c rest, line.toList = c :: rest ∧ isSpace c = false ∧ c ∉ ['\n', '#', '['])
    {key : Key} {v : Value}
    (hpair : pair? (2 * line.toList.length + 2) valueCalls line.toList = .ok (key, v, []))
    {root : Table} (hroot : (Draft.empty.addPair key v).map (·.root) = some root) :
    document? line = .ok root := by
  obtain ⟨draft, hadd, rfl⟩ := Option.map_eq_some_iff.mp hroot
  refine document?_of_statement? (r := .ok draft) hbreaks hline ?_
  obtain ⟨c, rest, hsource, -, hc⟩ := hline
  rw [hsource] at hpair ⊢
  unfold Draft.statement?
  split
  · simp_all
  · simp_all
  · rw [hpair]
    show (present (Draft.empty.addPair key v) >>= fun draft => pure (draft, [])) = _
    rw [hadd]
    rfl

end Toml

namespace Settings

open Log (Yields)

/-! ### Entries -/

/-- Settings with what entries tell: a depth, unless it is below one, and a truth value. -/
def put (settings : Settings) (depth : Option Int) (flag : Option Bool) : Settings where
  depth := match depth with
    | some n => if h : 1 ≤ n then .ofInt n h else settings.depth
    | none => settings.depth
  collectAll := match flag with
    | some b => .bool b
    | none => settings.collectAll

theorem put_eq_self (settings : Settings) {n : Int} (h : ¬1 ≤ n) :
    settings.put (some n) none = settings := by
  simp only [put, dif_neg h]

theorem eq_of_fields {one two : Settings} (hdepth : one.depth = two.depth)
    (hflag : one.collectAll = two.collectAll) : one = two := by
  cases one
  cases two
  cases hdepth
  cases hflag
  rfl

/-- What is put twice is put once. -/
theorem put_put (settings : Settings) (depth : Option Int) (flag : Option Bool) :
    (settings.put depth flag).put depth flag = settings.put depth flag := by
  have hdepth : ((settings.put depth flag).put depth flag).depth =
      (settings.put depth flag).depth := by
    cases depth with
    | none => rfl
    | some n => by_cases h : 1 ≤ n <;> simp only [put, h, dite_true, dite_false]
  have hflag : ((settings.put depth flag).put depth flag).collectAll =
      (settings.put depth flag).collectAll := by
    cases flag <;> rfl
  exact eq_of_fields hdepth hflag

/-- The entry under a name; data that is no mapping has none. -/
def given? (name : String) : Value → Option Value
  | .dict entries => Value.lookup name entries
  | _ => none

/-- The whole number in the entry for the depth, if there is such an entry. -/
def depthOf? (v : Value) : Except Error (Option Int) :=
  match given? "max_depth" v with
  | some entry => wholeNumber? entry
  | none => .ok none

/-- The truth value in the entry for it. -/
def flagOf? (v : Value) : Option Bool := (given? "collect_all" v).bind flag?

theorem yields_mergeDepth (settings : Settings) (v : Value) :
    Yields (settings.mergeDepth v) ((wholeNumber? v).map (settings.put · none)) := by
  refine (Log.yields_ofExcept (wholeNumber? v)).map fun number => ?_
  cases number with
  | none => exact (Log.yields_write _).bind fun _ => Log.yields_pure settings
  | some n =>
    dsimp only
    split
    · next h =>
      have hput : settings.put (some n) none = { settings with depth := .ofInt n h } := by
        simp only [put, dif_pos h]
      rw [hput]
      exact Log.yields_pure _
    · next h =>
      rw [put_eq_self settings h]
      exact (Log.yields_write _).bind fun _ => Log.yields_pure settings

theorem yields_mergeCollectAll (settings : Settings) (v : Value) :
    Yields (settings.mergeCollectAll v) (.ok (settings.put none (flag? v))) := by
  unfold mergeCollectAll
  cases flag? v with
  | none => exact (Log.yields_write _).bind fun _ => Log.yields_pure settings
  | some b => exact Log.yields_pure _

/-- The entry for the depth goes first, and the other one over what comes of it. -/
theorem merge_dict (settings : Settings) (entries : List (Value × Value)) :
    settings.merge (.dict entries) =
      (match given? "max_depth" (.dict entries) with
        | some entry => settings.mergeDepth entry
        | none => pure settings) >>= fun merged =>
      match given? "collect_all" (.dict entries) with
        | some entry => merged.mergeCollectAll entry
        | none => pure merged := by
  unfold merge given?
  dsimp only
  cases Value.lookup "max_depth" entries <;> rfl

/-- To put entries over settings is to put what they tell. -/
theorem yields_merge (settings : Settings) (v : Value) : Yields (settings.merge v)
    ((depthOf? v).map fun depth => settings.put depth (flagOf? v)) := by
  cases v with
  | dict entries =>
    have hdepth : Yields (match given? "max_depth" (.dict entries) with
        | some entry => settings.mergeDepth entry
        | none => pure settings) ((depthOf? (.dict entries)).map (settings.put · none)) := by
      unfold depthOf?
      cases given? "max_depth" (.dict entries) with
      | none => exact Log.yields_pure settings
      | some entry => exact yields_mergeDepth settings entry
    have hflag (merged : Settings) : Yields (match given? "collect_all" (.dict entries) with
        | some entry => merged.mergeCollectAll entry
        | none => pure merged) (.ok (merged.put none (flagOf? (.dict entries)))) := by
      unfold flagOf?
      cases given? "collect_all" (.dict entries) with
      | none => exact Log.yields_pure merged
      | some entry => exact yields_mergeCollectAll merged entry
    have hboth := hdepth.map hflag
    rw [← merge_dict] at hboth
    generalize depthOf? (.dict entries) = told at hboth ⊢
    cases told <;> exact hboth
  | _ => exact Log.yields_pure settings

/-- To put the same entries twice is to put them once, also where it fails. -/
theorem merge_merge (settings : Settings) (v : Value) :
    (Log.outcome (settings.merge v >>= fun merged => merged.merge v)).1 =
      (Log.outcome (settings.merge v)).1 := by
  have honce := settings.yields_merge v
  have htwice := honce.bind fun merged => merged.yields_merge v
  refine (htwice #[]).trans (Eq.trans ?_ (honce #[]).symm)
  cases depthOf? v with
  | error e => rfl
  | ok depth => exact congrArg Except.ok (put_put settings depth (flagOf? v))

/-! ### Layers -/

/-- What an entry tells of the depth: a whole number that is not below one. -/
def DepthTold (v : Value) (n : Int) : Prop := wholeNumber? v = .ok (some n) ∧ 1 ≤ n

/-- What an entry tells of a truth value: it is one, or a word for one, whatever the case of its
letters and the blanks around it. -/
inductive FlagTold : Value → Bool → Prop
  | bool (b : Bool) : FlagTold (.bool b) b
  | yes {s : String} (h : Text.plainWord s ∈ trueWords) : FlagTold (.string s) true
  | no {s : String} (h : Text.plainWord s ∈ falseWords) : FlagTold (.string s) false

/-- What layers of entries decide: the first entry that tells something does, and if there is none,
a default. -/
inductive Decided {α : Type} (told : Value → α → Prop) (default : α) :
    List (Option Value) → α → Prop
  | told {v : Value} {a : α} (layers : List (Option Value)) (h : told v a) :
    Decided told default (some v :: layers) a
  | passed {v : Value} {a : α} {layers : List (Option Value)} (h : ∀ b, ¬told v b)
    (hrest : Decided told default layers a) : Decided told default (some v :: layers) a
  | unset {a : α} {layers : List (Option Value)} (hrest : Decided told default layers a) :
    Decided told default (none :: layers) a
  | default : Decided told default [] default

theorem not_mem_falseWords {word : String} (h : word ∈ trueWords) : word ∉ falseWords := by
  have hall : ∀ word ∈ trueWords, word ∉ falseWords := by decide
  exact hall word h

theorem flag?_eq_some_iff {v : Value} {b : Bool} : flag? v = some b ↔ FlagTold v b := by
  constructor
  · intro h
    cases v with
    | bool c =>
      obtain rfl := Option.some.inj h
      exact .bool c
    | string s =>
      simp only [flag?, List.contains_iff_mem] at h
      split at h
      · next hyes =>
        obtain rfl := Option.some.inj h
        exact .yes hyes
      · split at h
        · next hno =>
          obtain rfl := Option.some.inj h
          exact .no hno
        · contradiction
    | _ => contradiction
  · rintro (b | hyes | hno)
    · rfl
    · simp only [flag?, List.contains_iff_mem, if_pos hyes]
    · have hyes := fun hyes => not_mem_falseWords hyes hno
      simp only [flag?, List.contains_iff_mem, if_neg hyes, if_pos hno]

variable {settings : Settings} {v : Value} {layers : List (Option Value)}

/-- Settings whose depth and truth value are what layers decide. -/
structure DecidedBy (settings : Settings) (depths flags : List (Option Value)) : Prop where
  depth : ∃ n h, settings.depth = .ofInt n h ∧ Decided DepthTold 256 depths n
  collectAll : ∃ b, settings.collectAll = .bool b ∧ Decided FlagTold true flags b

theorem decidedBy_default : default.DecidedBy [] [] where
  depth := ⟨256, by decide, rfl, .default⟩
  collectAll := ⟨true, rfl, .default⟩

theorem exists_depth_put {n : Int} {hn : 1 ≤ n} {depth : Option Int}
    (hset : settings.depth = .ofInt n hn) (h : Decided DepthTold 256 layers n)
    (hdepth : depthOf? v = .ok depth) (flag : Option Bool) :
    ∃ m hm, (settings.put depth flag).depth = .ofInt m hm ∧
      Decided DepthTold 256 (given? "max_depth" v :: layers) m := by
  unfold depthOf? at hdepth
  cases hentry : given? "max_depth" v with
  | none =>
    rw [hentry] at hdepth
    obtain rfl := Except.ok.inj hdepth
    exact ⟨n, hn, hset, .unset h⟩
  | some entry =>
    rw [hentry] at hdepth
    dsimp only at hdepth
    cases depth with
    | none =>
      refine ⟨n, hn, hset, .passed (fun m hm => ?_) h⟩
      obtain ⟨htold, -⟩ := hm
      rw [hdepth] at htold
      exact nomatch Except.ok.inj htold
    | some m =>
      by_cases hm : 1 ≤ m
      · exact ⟨m, hm, by simp only [put, dif_pos hm], .told layers ⟨hdepth, hm⟩⟩
      · refine ⟨n, hn, by simp only [put, dif_neg hm, hset], .passed (fun k hk => ?_) h⟩
        obtain ⟨htold, hle⟩ := hk
        rw [hdepth] at htold
        obtain rfl := Option.some.inj (Except.ok.inj htold)
        exact hm hle

theorem exists_flag_put {b : Bool} (hset : settings.collectAll = .bool b)
    (h : Decided FlagTold true layers b) (depth : Option Int) :
    ∃ c, (settings.put depth (flagOf? v)).collectAll = .bool c ∧
      Decided FlagTold true (given? "collect_all" v :: layers) c := by
  unfold flagOf?
  cases given? "collect_all" v with
  | none => exact ⟨b, hset, .unset h⟩
  | some entry =>
    rw [Option.bind_some]
    cases hflag : flag? entry with
    | none =>
      refine ⟨b, hset, .passed (fun c hc => ?_) h⟩
      rw [flag?_eq_some_iff.mpr hc] at hflag
      contradiction
    | some c => exact ⟨c, rfl, .told layers (flag?_eq_some_iff.mp hflag)⟩

/-- A further layer goes over those before. -/
theorem DecidedBy.put {depths flags : List (Option Value)} {depth : Option Int}
    (h : settings.DecidedBy depths flags) (hdepth : depthOf? v = .ok depth) :
    (settings.put depth (flagOf? v)).DecidedBy (given? "max_depth" v :: depths)
      (given? "collect_all" v :: flags) := by
  obtain ⟨⟨n, hn, hset, hdecided⟩, b, hflag, hdecidedFlag⟩ := h
  exact ⟨exists_depth_put hset hdecided hdepth _, exists_flag_put hflag hdecidedFlag depth⟩

/-! ### Loading -/

/-- A variable as an entry; one that is empty counts as unset. -/
def assigned? (environment : List (String × String)) (suffix : String) : Option Value :=
  match assignment? environment (variableStem ++ suffix) with
  | some text => if text = "" then none else some (.string text)
  | none => none

/-- The variables as a mapping. -/
def assignments (environment : List (String × String)) : Value :=
  let entry := fun (key suffix : String) =>
    (assigned? environment suffix).toList.map fun text => (Value.string key, text)
  .dict (entry "max_depth" "MAX_DEPTH" ++ entry "collect_all" "COLLECT_ALL")

theorem mergeEnvironment_eq (settings : Settings) (environment : List (String × String)) :
    settings.mergeEnvironment variableStem environment =
      settings.merge (assignments environment) := by
  have hentry (key suffix : String) :
      (match assignment? environment (variableStem ++ suffix) with
        | some text => if text = "" then [] else [(Value.string key, Value.string text)]
        | none => []) =
      (assigned? environment suffix).toList.map fun text => (Value.string key, text) := by
    unfold assigned?
    cases assignment? environment (variableStem ++ suffix) with
    | none => rfl
    | some text =>
      dsimp only
      split <;> rfl
  simp only [assignments]
  rw [← hentry, ← hentry]
  rfl

theorem given?_variables (environment : List (String × String)) :
    given? "max_depth" (assignments environment) = assigned? environment "MAX_DEPTH" ∧
      given? "collect_all" (assignments environment) = assigned? environment "COLLECT_ALL" := by
  simp only [assignments, given?]
  cases assigned? environment "MAX_DEPTH" <;> cases assigned? environment "COLLECT_ALL" <;>
    simp [Value.lookup]

/-- The documents that are tried. -/
def candidates (folder : String) (path : Option String) : List Candidate :=
  match path with
  | some path => [⟨routeText (route path), route path⟩]
  | none => defaultCandidates folder

/-- Variables go over the chosen document, and it goes over the defaults. -/
theorem load_eq (files : Files) (folder : String) (path : Option String)
    (environment : List (String × String)) : load files folder path environment =
      search files .null (candidates folder path) >>= fun chosen =>
        default.merge chosen >>= fun merged => merged.merge (assignments environment) := by
  have hfiles : fromFiles files folder path =
      search files .null (candidates folder path) >>= fun chosen => default.merge chosen := rfl
  rw [load, hfiles, bind_assoc]
  simp only [mergeEnvironment_eq]

/-- What a document and variables tell is decided layer by layer. -/
theorem decidedBy_of_merge {chosen : Value} {environment : List (String × String)}
    {first second : Settings}
    (hfirst : (depthOf? chosen).map (fun depth => default.put depth (flagOf? chosen)) =
      .ok first)
    (hsecond : (depthOf? (assignments environment)).map
      (fun depth => first.put depth (flagOf? (assignments environment))) = .ok second) :
    second.DecidedBy [assigned? environment "MAX_DEPTH", given? "max_depth" chosen]
      [assigned? environment "COLLECT_ALL", given? "collect_all" chosen] := by
  obtain ⟨depth, hdepth, rfl⟩ := exists_of_map_eq_ok hfirst
  obtain ⟨depth', hdepth', rfl⟩ := exists_of_map_eq_ok hsecond
  obtain ⟨hdepths, hflags⟩ := given?_variables environment
  rw [← hdepths, ← hflags]
  exact (decidedBy_default.put hdepth).put hdepth'

/-! ### Examples -/

theorem document?_depth : Toml.document? "max_depth = 64" =
    .ok [(.string "max_depth", .int 64)] :=
  Toml.document?_line rfl ⟨_, _, rfl, rfl, by decide⟩
    (Toml.pair?_scalar rfl ⟨_, _, rfl, rfl, by decide⟩ rfl) rfl

/-- A folder with a document that sets the depth. -/
def depthFile : Files := [(["shapekit.toml"], .bytes "max_depth = 64".toUTF8)]

/-- A variable that is no number, and one that is a word for a truth value. -/
def looseVariables : List (String × String) :=
  [("SHAPEKIT_MAX_DEPTH", "none"), ("SHAPEKIT_COLLECT_ALL", " Off ")]

theorem load_depthFile : (Log.outcome (load depthFile "" none looseVariables)).1 =
    .ok ⟨.ofInt 64 (by decide), .bool false⟩ := by
  have hfind : find? depthFile ["shapekit.toml"] =
      .ok (some (.bytes "max_depth = 64".toUTF8)) := rfl
  have htext : String.fromUTF8? "max_depth = 64".toUTF8 = some "max_depth = 64" := rfl
  have hread : read? depthFile ⟨"/shapekit.toml", ["shapekit.toml"]⟩ =
      .ok (some (some (.dict [(.string "max_depth", .int 64)]))) := by
    simp only [read?, hfind, htext, document?_depth]
    rfl
  have hsearch : search depthFile .null (candidates "" none) = (do
      Log.write ⟨logger, Log.debug, "loaded engine settings from /shapekit.toml"⟩
      return .dict [(.string "max_depth", .int 64)]) := by
    show search depthFile .null [⟨"/shapekit.toml", ["shapekit.toml"]⟩,
      ⟨"/pyproject.toml", [projectFile]⟩] = _
    rw [search, hread]
    rfl
  rw [load_eq, hsearch]
  rfl

end Settings

end DataSchema
