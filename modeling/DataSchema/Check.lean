import DataSchema.Descriptor.Shape
import DataSchema.Issue
import DataSchema.Settings

/-!
The engine. A value is checked in two phases: first against the shape its descriptor derives, if
there is one, then by the rule of the descriptor's own variant. Every check enters one level, and
the levels are bounded.
-/

namespace DataSchema

/-- What a run writes down: nothing, its first failure, or all failures. -/
inductive Recording where
  | silent
  | first
  | all
  deriving DecidableEq

namespace Recording

def stopsEarly : Recording → Bool
  | all => false
  | _ => true

def note (mode : Recording) (issues : Array Issue) (issue : Issue) : Array Issue :=
  match mode with
  | silent => issues
  | _ => issues.push issue

end Recording

/-- A test takes the issues written down before it, and answers together with those after it. -/
abbrev Test := Array Issue → Except Error (Bool × Array Issue)

namespace Test

def pass : Test := fun issues => .ok (true, issues)

def fail (mode : Recording) (issue : Issue) : Test := fun issues =>
  .ok (false, mode.note issues issue)

def demand (mode : Recording) (holds : Bool) (issue : Issue) : Test :=
  if holds then pass else fail mode issue

def raise (e : Error) : Test := fun _ => .error e

/-- The second test runs if the first passes. -/
def andThen (one two : Test) : Test := fun issues => do
  let (ok, issues) ← one issues
  if ok then two issues else return (false, issues)

/-- The second test runs if the first fails. -/
def orElse (one two : Test) : Test := fun issues => do
  let (ok, issues) ← one issues
  if ok then return (true, issues) else two issues

/-- All tests pass. After a failure the others still run if all failures are wanted. -/
def all (mode : Recording) : List Test → Test
  | [] => pass
  | test :: tests => fun issues => do
    let (ok, issues) ← test issues
    if ok then all mode tests issues
    else if mode.stopsEarly then return (false, issues)
    else return (false, (← all mode tests issues).2)

end Test

/-- Numbers are whole numbers, finite floats and fractions. A fraction has to have a finite float
next to it, or the question fails. -/
def isNumber : Value → Except Error Bool
  | .int _ => .ok true
  | .float x => .ok x.isFinite
  | .fraction q => if (Binary64.ofRat q).isFinite then .ok true else .error .numberTooLarge
  | _ => .ok false

/-- Literals expect truth values among truth values, text among texts, and numbers by their
value. -/
def isLiteral (expected : Primitive) (v : Value) : Bool :=
  match expected, v with
  | .bool a, .bool b => a == b
  | .string s, .string t => s == t
  | .int m, .int n => m == n
  | .int m, .float (.finite y) => (m : Rat) == y.toRat
  | .float x, .int n => x.toRat == (n : Rat)
  | .float x, .float (.finite y) => x.toRat == y.toRat
  | _, _ => false

/-- A file's length is not negative. The entry is read without asking whether it is there, and
compared without asking whether it is a number. -/
def lengthRule (mode : Recording) (v : Value) (path : Path) : Test :=
  match v.entries? with
  | none => .raise .wrongOperand
  | some entries => match Value.lookup "length" entries with
    | none => .raise (.missingKey "length")
    | some length => match length.number? with
      | none => .raise .notComparable
      | some n => .demand mode (n != .nan && !n.below (.finite 0))
          ⟨path ++ [.key "length"], .file, .negativeLength⟩

/-- How the parts of a value are checked, at the next level. -/
abbrev PartCheck := Recording → Descriptor → Value → Path → Test

/-- The rule of a variant. -/
def rule (part : PartCheck) (mode : Recording) (d : Descriptor) (v : Value) (path : Path) : Test :=
  match d with
  | .null | .void => .demand mode v.isAbsent ⟨path, d.kind, .notAbsent v⟩
  | .boolean => .demand mode v.isBool ⟨path, .boolean, .notBool v⟩
  | .number => match isNumber v with
    | .ok holds => .demand mode holds ⟨path, .number, .notNumber v⟩
    | .error e => .raise e
  | .string => .demand mode v.isText ⟨path, .string, .notText v⟩
  | .any | .image | .optional _ => .pass
  | .literal expected =>
    .demand mode (isLiteral expected v) ⟨path, .literal, .notLiteral expected.toValue v⟩
  | .list item => match v.elements? with
    | none => .fail mode ⟨path, .list, .notSequence v⟩
    | some items => .all mode (items.mapIdx fun i w => part mode item w (path ++ [.index i]))
  | .record item => match v.entries? with
    | none => .fail mode ⟨path, .record, .notMapping v⟩
    | some entries => .all mode (entries.map fun (key, w) => match key with
      | .string name => part mode item w (path ++ [.key name])
      | _ => .fail mode ⟨path, .record, .keyNotText key⟩)
  | .object fields => match v.entries? with
    | none => .fail mode ⟨path, .object, .notMapping v⟩
    | some entries => .all mode (fields.map fun (name, d) =>
        part mode d (Value.entryOrNull name entries) (path ++ [.key name]))
  | .union alternatives =>
    (alternatives.map fun d => part .silent d v path).foldr .orElse
      (.fail mode ⟨path, .union, .noAlternative (alternatives.map (·.kind))⟩)
  | .type described => match v.descriptorKind? with
    | some kind =>
      .demand mode (kind == described.kind) ⟨path, .type, .otherKind described.kind kind⟩
    | none => .fail mode ⟨path, .type, .notDescriptor v⟩
  | .file _ => lengthRule mode v path
  | .outsider kind _ _ => .raise (.noRule kind)

/-- Checks a value with so many levels left to enter. `limit` says how the want of levels fails. -/
def check (limit : Limit) : (levels : Nat) → PartCheck
  | 0, _, d, _, _ => .raise (limit.overrun d.kind)
  | levels + 1, mode, d, v, path =>
    let part := check limit levels
    match d.derived? with
    | none => rule part mode d v path
    | some shape => (part mode shape v path).andThen (rule part mode d v path)

/-- The root takes a level of its own. -/
def runCheck (settings : Settings) (mode : Recording) (d : Descriptor) (v : Value) :
    Except Error (Bool × Array Issue) :=
  let limit := settings.depth.limit
  check limit (limit.bound + 1) mode d v [] #[]

/-- Whether the value conforms to the descriptor. -/
def validate (settings : Settings) (d : Descriptor) (v : Value) : Except Error Bool :=
  (runCheck settings .silent d v).map (·.1)

/-- Validates and reports the failures. -/
def explain (settings : Settings) (d : Descriptor) (v : Value) : Except Error Report :=
  let mode := if settings.collectAll.truthy then Recording.all else .first
  (runCheck settings mode d v).map fun (ok, issues) => ⟨d.kind, ok, issues.toList⟩

/-- Whether the descriptor's configuration is one of its kind. -/
def checkConfiguration (settings : Settings) (d : Descriptor) : Except Error Bool :=
  validate settings (.configurationShape d.kind) d.configuration

/-- The position of the first alternative that accepts the value. -/
def matchAlternative (settings : Settings) (v : Value) : List Descriptor → Except Error (Option Nat)
  | [] => .ok none
  | d :: ds => do
    if ← validate settings d v then return some 0
    return (← matchAlternative settings v ds).map (· + 1)

end DataSchema
