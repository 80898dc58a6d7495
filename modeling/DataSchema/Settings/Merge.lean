import DataSchema.Log
import DataSchema.Settings
import DataSchema.Value.Equality

/-!
Settings from loose data. An entry that cannot be used is passed over with a warning, and what was
set before stays.
-/

namespace DataSchema.Settings

def logger : String := "shapekit.config"

def warn (text : String) (v : Value) : Log.Logged Unit :=
  Log.write ⟨logger, Log.warning, text ++ v.text⟩

/-- The value as a whole number: what is behind a point is dropped, and texts and bytes are read.
Infinities are no numbers that could be cut. -/
def wholeNumber? : Value → Except Error (Option Int)
  | .bool b => .ok (some (if b then 1 else 0))
  | .int n => .ok (some n)
  | .float .nan | .decimal (.nan _ _ _) => .ok none
  | .float (.infinite _) | .decimal (.infinite _) => .error .numberTooLarge
  | .float (.finite x) => .ok (some x.truncate)
  | .fraction q => .ok (some (q.num.tdiv q.den))
  | .decimal (.finite negative digits) => .ok (some (Decimal.truncate negative digits))
  | .string s => .ok (Integer.read? s.toList)
  | .bytes data => .ok (Integer.ofBytes? data)
  | _ => .ok none

def trueWords : List String := ["1", "true", "t", "yes", "y", "on"]

def falseWords : List String := ["0", "false", "f", "no", "n", "off"]

/-- A truth value, or a word for one. -/
def flag? : Value → Option Bool
  | .bool b => some b
  | .string s =>
    let word := Text.plainWord s
    if trueWords.contains word then some true
    else if falseWords.contains word then some false
    else none
  | _ => none

def mergeDepth (settings : Settings) (v : Value) : Log.Logged Settings := do
  match ← ofExcept (wholeNumber? v) with
  | none =>
    warn "ignoring non-integer max_depth: " v
    return settings
  | some n =>
    if h : 1 ≤ n then return { settings with depth := .ofInt n h }
    else
      warn "ignoring max_depth < 1: " (.int n)
      return settings

def mergeCollectAll (settings : Settings) (v : Value) : Log.Logged Settings := do
  match flag? v with
  | some b => return { settings with collectAll := .bool b }
  | none =>
    warn "ignoring unrecognized collect_all: " v
    return settings

/-- The names of the entries that are settings. -/
def entryNames : List String := ["max_depth", "collect_all"]

/-- Puts the entries of a dict over settings; other data has none. -/
def merge (settings : Settings) : Value → Log.Logged Settings
  | .dict entries => do
    let settings ← match Value.lookup "max_depth" entries with
      | some v => settings.mergeDepth v
      | none => pure settings
    match Value.lookup "collect_all" entries with
    | some v => settings.mergeCollectAll v
    | none => return settings
  | _ => return settings

/-- The value of a variable; the last assignment holds. -/
def assignment? (environment : List (String × String)) (name : String) : Option String :=
  environment.reverse.lookup name

/-- How the names of the variables begin. -/
def variableStem : String := "SHAPEKIT_"

/-- Puts variables over settings; one that is empty counts as unset. -/
def mergeEnvironment (settings : Settings) (stem : String) (environment : List (String × String)) :
    Log.Logged Settings :=
  let entry := fun (key suffix : String) =>
    match assignment? environment (stem ++ suffix) with
    | some text => if text = "" then [] else [(Value.string key, Value.string text)]
    | none => []
  settings.merge (.dict (entry "max_depth" "MAX_DEPTH" ++ entry "collect_all" "COLLECT_ALL"))

end DataSchema.Settings
