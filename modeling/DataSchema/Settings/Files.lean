import DataSchema.Settings.Merge
import DataSchema.Toml.Document

/-!
Settings from documents in a folder. Variables go over documents, and documents over the defaults.
-/

namespace DataSchema.Settings

/-- The way to a file from the folder, by the names it passes. -/
abbrev Route := List String

inductive Content where
  | folder
  | bytes (data : ByteArray)

/-- What lies in a folder, by route. Folders on the way to a file are there without being listed. -/
abbrev Files := List (Route × Content)

/-- Empty names and `.` lead nowhere; `..` leads back. -/
def route (path : String) : Route :=
  (path.splitOn "/").filter fun name => name != "" && name != "."

def routeText : Route → String
  | [] => "."
  | names => "/".intercalate names

/-- What lies at a place that is given without leading back. -/
def content? (files : Files) (way : Route) : Option Content :=
  match files.reverse.lookup way with
  | some content => some content
  | none => if way.isEmpty || files.any (way.isPrefixOf ·.1) then some .folder else none

def isFolder (files : Files) (way : Route) : Bool :=
  match content? files way with
  | some .folder => true
  | _ => false

/-- The most bytes a name in a folder may have. -/
def nameBound : Nat := 255

/-- The most bytes a route may have as a text. -/
def routeBound : Nat := 4095

/-- What a route leads to from a place, which is some names below the folder or some levels above
it. Only folders are passed through, and above the folder nothing but folders is known. A name that
is too long cannot be looked up. -/
def follow (files : Files) (place : Route ⊕ Nat) : Route → Except Error (Option Content)
  | [] => match place with
    | .inl way => .ok (content? files way)
    | .inr _ => .ok (some .folder)
  | name :: names =>
    if match place with | .inl way => !isFolder files way | .inr _ => false then .ok none
    else if nameBound < name.utf8ByteSize then .error .nameTooLong
    else match place, name with
      | .inl [], ".." => follow files (.inr 1) names
      | .inl way, ".." => follow files (.inl way.dropLast) names
      | .inl way, name => follow files (.inl (way ++ [name])) names
      | .inr levels, ".." => follow files (.inr (levels + 1)) names
      | .inr _, _ => .ok none

/-- What a route leads to from the folder. -/
def find? (files : Files) (way : Route) : Except Error (Option Content) :=
  if routeBound < (routeText way).utf8ByteSize then .error .nameTooLong
  else follow files (.inl []) way

structure Candidate where
  shown : String
  way : Route

/-- A document under this name has its settings in a table of a tool. -/
def projectFile : String := "pyproject.toml"

/-- The documents that are tried when no path is given. -/
def defaultCandidates (folder : String) : List Candidate :=
  ["shapekit.toml", projectFile].map fun name => ⟨folder ++ "/" ++ name, [name]⟩

/-- A table under a name; a name that is not there leads to an empty table, and a value that is no
table to nothing. -/
def subtable (name : String) (table : Toml.Table) : Option Toml.Table :=
  match Value.lookup name table with
  | none => some []
  | some (.dict inner) => some inner
  | some _ => none

/-- The part of a document that holds the settings. -/
def section? (way : Route) (table : Toml.Table) : Value :=
  if way.getLast? = some projectFile then
    match (subtable "tool" table).bind (subtable "shapekit") with
    | some tool => (Value.lookup "engine" tool).getD .null
    | none => .null
  else
    match Value.lookup "engine" table with
    | some (.dict engine) => .dict engine
    | _ => .dict table

/-- What a candidate has to say: nothing if it is not there, `none` inside if it is unreadable. -/
def read? (files : Files) (candidate : Candidate) : Except Error (Option (Option Value)) :=
  match find? files candidate.way with
  | .error cause => .error cause
  | .ok none => .ok none
  | .ok (some .folder) => .ok (some none)
  | .ok (some (.bytes data)) =>
    match String.fromUTF8? data with
    | none => .error .notUtf8
    | some source => match Toml.document? source with
      | .ok table => .ok (some (some (section? candidate.way table)))
      | .error .malformed => .ok (some none)
      | .error .numberTooLong => .error .numberTooLong
      | .error .tooDeep => .error .endless

/-- The first section that is not empty; without one, the last that was read. -/
def search (files : Files) : (sofar : Value) → List Candidate → Log.Logged Value
  | sofar, [] => return sofar
  | sofar, candidate :: candidates => do
    match ← ofExcept (read? files candidate) with
    | none => search files sofar candidates
    | some none =>
      Log.write ⟨logger, Log.warning, "skipping unreadable settings file " ++ candidate.shown⟩
      search files sofar candidates
    | some (some found) =>
      if found.truthy then
        Log.write ⟨logger, Log.debug, "loaded engine settings from " ++ candidate.shown⟩
        return found
      else search files found candidates

/-- Settings from the document at a path, or from the default documents of the folder. -/
def fromFiles (files : Files) (folder : String) (path : Option String) : Log.Logged Settings := do
  let candidates := match path with
    | some path => [⟨routeText (route path), route path⟩]
    | none => defaultCandidates folder
  default.merge (← search files .null candidates)

def load (files : Files) (folder : String) (path : Option String)
    (environment : List (String × String)) : Log.Logged Settings := do
  (← fromFiles files folder path).mergeEnvironment variableStem environment

end DataSchema.Settings
