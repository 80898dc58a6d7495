import DataSchema.Proofs.Documents
import DataSchema.Proofs.Entries

/-!
Which document settings come from. Main statement: it is the first of the default documents that
carries settings, unless the document of the folder says something and carries none. Such a document
hides that for tools, whatever that carries, and the defaults are left.
-/

namespace DataSchema

namespace Settings

open Log (Yields)

/-! ### What documents carry -/

/-- The table under a name. -/
def table? (name : String) (table : Toml.Table) : Option Toml.Table :=
  match Value.lookup name table with
  | some (.dict inner) => some inner
  | _ => none

/-- Where the document of a folder has its settings: in the table for the engine, or on top if there
is no such table. -/
def folderPart (document : Toml.Table) : Toml.Table := (table? "engine" document).getD document

/-- Where a document for tools has its settings: three tables deep. -/
def projectPart? (document : Toml.Table) : Option Toml.Table := do
  table? "engine" (← table? "shapekit" (← table? "tool" document))

/-- Whether one of the settings is among entries. -/
def hasSetting (entries : Toml.Table) : Bool :=
  entryNames.any fun name => (Value.lookup name entries).isSome

/-- The entries of the first of the default documents that carries settings. -/
def carried? (first second : Option Toml.Table) : Option Toml.Table :=
  (first.map folderPart).filter hasSetting <|> (second.bind projectPart?).filter hasSetting

/-- A document of the folder that says something, but none of the settings. -/
def Hides (first : Option Toml.Table) : Prop :=
  ∃ document ∈ first, folderPart document ≠ [] ∧ hasSetting (folderPart document) = false

/-- What the document under a name in a folder holds, if there is one. -/
inductive Holds (files : Files) (name : String) : Option Toml.Table → Prop where
  | absent (h : find? files [name] = .ok none) : Holds files name none
  | document {data : ByteArray} {source : String} {table : Toml.Table}
    (h : find? files [name] = .ok (some (.bytes data)))
    (htext : String.fromUTF8? data = some source)
    (htable : Toml.document? source = .ok table) : Holds files name (some table)

variable {files : Files} {folder : String} {first second : Option Toml.Table}
  {document : Toml.Table}

theorem section?_folder (document : Toml.Table) : section? ["shapekit.toml"] document =
    .dict (folderPart document) := by
  unfold section? folderPart table?
  rw [if_neg (by decide)]
  split <;> simp_all

theorem subtable_cases (name : String) (table : Toml.Table) :
    (∃ inner, table? name table = some inner ∧ subtable name table = some inner) ∨
      table? name table = none ∧ (subtable name table = none ∨ subtable name table = some []) := by
  unfold table? subtable
  cases Value.lookup name table with
  | none => exact .inr ⟨rfl, .inr rfl⟩
  | some v =>
    cases v with
    | dict inner => exact .inl ⟨inner, rfl, rfl⟩
    | _ => exact .inr ⟨rfl, .inl rfl⟩

/-- The section of a document for tools is its part. Without a part it is no mapping. -/
theorem section?_project (document : Toml.Table) :
    (∃ entries, projectPart? document = some entries ∧
      .dict entries = section? [projectFile] document) ∨
    projectPart? document = none ∧ ∀ entries, section? [projectFile] document ≠ .dict entries := by
  have hsection : section? [projectFile] document =
      (((subtable "tool" document).bind (subtable "shapekit")).bind
        (Value.lookup "engine")).getD .null := by
    refine (if_pos rfl).trans ?_
    cases (subtable "tool" document).bind (subtable "shapekit") <;> rfl
  have hpart : projectPart? document =
      (table? "tool" document).bind fun tool =>
        (table? "shapekit" tool).bind (table? "engine") := rfl
  rw [hsection, hpart]
  rcases subtable_cases "tool" document with ⟨tool, htool, hsub⟩ | ⟨htool, hsub | hsub⟩
  · rw [htool, hsub, Option.bind_some, Option.bind_some]
    rcases subtable_cases "shapekit" tool with ⟨part, hpart, hsub⟩ | ⟨hpart, hsub | hsub⟩
    · rw [hpart, hsub, Option.bind_some, Option.bind_some]
      unfold table?
      cases Value.lookup "engine" part with
      | none => exact .inr ⟨rfl, fun _ => by simp⟩
      | some engine =>
        cases engine with
        | dict entries => exact .inl ⟨entries, rfl, rfl⟩
        | _ => exact .inr ⟨rfl, fun _ => by simp⟩
    · rw [hpart, hsub]
      exact .inr ⟨rfl, fun _ => by simp⟩
    · rw [hpart, hsub]
      exact .inr ⟨rfl, fun _ => by simp [Value.lookup]⟩
  · rw [htool, hsub]
    exact .inr ⟨rfl, fun _ => by simp⟩
  · rw [htool, hsub]
    exact .inr ⟨rfl, fun _ => by simp [Value.lookup, subtable]⟩

/-- Data without settings leaves settings as they are. -/
theorem merge_of_no_setting (settings : Settings) {v : Value}
    (h : ∀ entries, v = .dict entries → hasSetting entries = false) :
    (Log.outcome (settings.merge v)).1 = .ok settings := by
  have hgiven : given? "max_depth" v = none ∧ given? "collect_all" v = none := by
    cases v with
    | dict entries => simpa [hasSetting, entryNames, given?] using h entries rfl
    | _ => exact ⟨rfl, rfl⟩
  obtain ⟨hdepth, hflag⟩ := hgiven
  rw [outcome_merge, depthOf?, flagOf?, hdepth, hflag]
  rfl

/-! ### What is chosen -/

/-- Settings from entries that are put over the defaults, if there are any. -/
def settingsOf (carried : Option Toml.Table) : Except Error Settings :=
  match carried with
  | some entries => (Log.outcome (default.merge (.dict entries))).1
  | none => .ok default

theorem read?_of_holds {name : String} {document : Option Toml.Table}
    (h : Holds files name document) (shown : String) : read? files ⟨shown, [name]⟩ =
      .ok (document.map fun table => some (section? [name] table)) := by
  cases h with
  | absent h => exact read?_of_absent h
  | document h htext htable =>
    unfold read?
    dsimp only
    rw [h]
    simp only [htext, htable, Option.map_some]

theorem fromFiles_of_yields {chosen : Value}
    (h : Yields (search files .null (defaultCandidates folder)) (.ok chosen)) :
    (Log.outcome (fromFiles files folder none)).1 = (Log.outcome (default.merge chosen)).1 := by
  have hmerged := (h.bind fun found => default.yields_merge found) #[]
  rw [outcome_merge]
  exact hmerged

/-- What the document of the folder says is taken, unless it says nothing. -/
theorem fromFiles_of_folder (h : Holds files "shapekit.toml" (some document))
    (hpart : folderPart document ≠ []) : (Log.outcome (fromFiles files folder none)).1 =
      (Log.outcome (default.merge (.dict (folderPart document)))).1 := by
  have hread := read?_of_holds h (folder ++ "/" ++ "shapekit.toml")
  rw [Option.map_some, section?_folder] at hread
  have htruthy : (Value.dict (folderPart document)).truthy = true := by simpa [Value.truthy]
  refine fromFiles_of_yields ?_
  show Yields (search files .null (⟨folder ++ "/" ++ "shapekit.toml", ["shapekit.toml"]⟩ :: _)) _
  rw [search_found hread, if_pos htruthy]
  exact (Log.yields_write _).bind fun _ => Log.yields_pure _

/-- The last document that is there says what is taken. -/
theorem yields_search_last (h : Holds files projectFile second) (shown : String) (sofar : Value) :
    Yields (search files sofar [⟨shown, [projectFile]⟩])
      (.ok ((second.map (section? [projectFile])).getD sofar)) := by
  have hread := read?_of_holds h shown
  cases second with
  | none =>
    rw [search_absent hread]
    exact Log.yields_pure sofar
  | some document =>
    rw [search_found hread]
    split
    · exact (Log.yields_write _).bind fun _ => Log.yields_pure _
    · exact Log.yields_pure _

/-- Without a word of the document of the folder that for tools decides. -/
theorem fromFiles_of_project (hfirst : Holds files "shapekit.toml" first)
    (hempty : ∀ document ∈ first, folderPart document = [])
    (hsecond : Holds files projectFile second) : (Log.outcome (fromFiles files folder none)).1 =
      settingsOf ((second.bind projectPart?).filter hasSetting) := by
  obtain ⟨sofar, hsofar, hsearch⟩ : ∃ sofar,
      (∀ entries, sofar = Value.dict entries → hasSetting entries = false) ∧
      search files .null (defaultCandidates folder) =
        search files sofar [⟨folder ++ "/" ++ projectFile, [projectFile]⟩] := by
    have hread := read?_of_holds hfirst (folder ++ "/" ++ "shapekit.toml")
    cases first with
    | none => exact ⟨.null, by simp, search_absent hread⟩
    | some document =>
      rw [Option.map_some, section?_folder, hempty document rfl] at hread
      refine ⟨.dict [], fun entries heq => ?_, search_found hread⟩
      obtain rfl := Value.dict.inj heq
      rfl
  rw [fromFiles_of_yields (hsearch ▸ yields_search_last hsecond _ sofar)]
  cases second with
  | none => exact merge_of_no_setting default hsofar
  | some document =>
    rw [Option.map_some, Option.getD_some, Option.bind_some]
    rcases section?_project document with ⟨entries, hpart, hsection⟩ | ⟨hpart, hsection⟩
    · rw [hpart, ← hsection, Option.filter_some]
      split
      · rfl
      · next hset =>
        refine merge_of_no_setting default fun entries' heq => ?_
        obtain rfl := Value.dict.inj heq
        simpa using hset
    · rw [hpart]
      exact merge_of_no_setting default fun entries heq => absurd heq (hsection entries)

theorem fromFiles_of_hides (hfirst : Holds files "shapekit.toml" first) (h : Hides first) :
    (Log.outcome (fromFiles files folder none)).1 = .ok default := by
  obtain ⟨document, rfl, hpart, hsetting⟩ := h
  rw [fromFiles_of_folder hfirst hpart]
  refine merge_of_no_setting default fun entries heq => ?_
  obtain rfl := Value.dict.inj heq
  exact hsetting

theorem fromFiles_of_not_hides (hfirst : Holds files "shapekit.toml" first)
    (hsecond : Holds files projectFile second) (h : ¬Hides first) :
    (Log.outcome (fromFiles files folder none)).1 = settingsOf (carried? first second) := by
  by_cases hempty : ∀ document ∈ first, folderPart document = []
  · have hnone : (first.map folderPart).filter hasSetting = none := by
      cases first with
      | none => rfl
      | some document =>
        rw [Option.map_some, hempty document rfl]
        rfl
    rw [carried?, hnone, fromFiles_of_project hfirst hempty hsecond]
    rfl
  · obtain ⟨document, rfl, hpart⟩ : ∃ document ∈ first, folderPart document ≠ [] := by
      simpa using hempty
    have hsetting : hasSetting (folderPart document) = true := by
      rcases Bool.eq_false_or_eq_true (hasSetting (folderPart document)) with hset | hset
      · exact hset
      · exact absurd ⟨document, rfl, hpart, hset⟩ h
    rw [fromFiles_of_folder hfirst hpart, carried?, Option.map_some, Option.filter_some,
      if_pos hsetting]
    rfl

end Settings

namespace Settings

/-- A document for tools that carries a depth. -/
def toolDocument : Toml.Table :=
  [(.string "tool", .dict [(.string "shapekit", .dict [(.string "engine",
    .dict [(.string "max_depth", .int 7)])])])]

theorem document?_tool :
    Toml.document? "tool.shapekit.engine.max_depth = 7" = .ok toolDocument :=
  Toml.document?_line rfl ⟨_, _, rfl, rfl, by decide⟩
    (Toml.pair?_scalar rfl ⟨_, _, rfl, rfl, by decide⟩ rfl) rfl

theorem document?_version :
    Toml.document? "version = 1" = .ok [(.string "version", .int 1)] :=
  Toml.document?_line rfl ⟨_, _, rfl, rfl, by decide⟩
    (Toml.pair?_scalar rfl ⟨_, _, rfl, rfl, by decide⟩ rfl) rfl

theorem document?_blank : Toml.document? "" = .ok [] := by
  show (Toml.Draft.empty.statements? 1 []).map (·.root) = _
  rw [Toml.Draft.statements?]
  rfl

/-- A document of the folder beside a document for tools that carries a depth. -/
def besideTool (source : String) : Files :=
  [(["shapekit.toml"], .bytes source.toUTF8),
    ([projectFile], .bytes "tool.shapekit.engine.max_depth = 7".toUTF8)]

theorem holds_blank : Holds (besideTool "") "shapekit.toml" (some []) :=
  .document rfl rfl document?_blank

theorem holds_version :
    Holds (besideTool "version = 1") "shapekit.toml" (some [(.string "version", .int 1)]) :=
  .document rfl rfl document?_version

theorem holds_tool (source : String) :
    Holds (besideTool source) projectFile (some toolDocument) :=
  .document rfl rfl document?_tool

theorem hides_version : Hides (some [(.string "version", .int 1)]) :=
  ⟨_, rfl, by decide, by decide⟩

end Settings

end DataSchema
