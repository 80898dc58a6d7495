import DataSchema.Error
import DataSchema.Number.Integer

/-!
Log records under one namespace of loggers, and operations that write them.
-/

namespace DataSchema.Log

/-- The logger above all others. -/
def rootName : String := "shapekit"

/-- The logger for a name; a name outside the namespace is put beneath its root. -/
def loggerName : Option String → String
  | none => rootName
  | some name =>
    if name = "" || name = rootName then rootName
    else if (rootName ++ ".").toList.isPrefixOf name.toList then name
    else rootName ++ "." ++ name

/-- The logger for a name given as a value: what counts as false names none. -/
def loggerNameOf? : Value → Except Error String
  | .string name => .ok (loggerName (some name))
  | .bytes (_ :: _) => .error .wrongOperand
  | v => if v.truthy then .error (.noAttribute "startswith") else .ok rootName

abbrev Level := Int

def debug : Level := 10

def info : Level := 20

def warning : Level := 30

def levelName (level : Level) : String :=
  if level = 50 then "CRITICAL"
  else if level = 40 then "ERROR"
  else if level = 30 then "WARNING"
  else if level = 20 then "INFO"
  else if level = 10 then "DEBUG"
  else if level = 0 then "NOTSET"
  else "Level " ++ Integer.text level

structure Record where
  logger : String
  level : Level
  text : String

/-- A record as a line of a stream. -/
def Record.line (record : Record) : String :=
  record.logger ++ " - " ++ levelName record.level ++ " - " ++ record.text

/-- An operation that may fail and that writes records, which stay when it fails. -/
abbrev Logged (α : Type) := ExceptT Error (StateM (Array Record)) α

def write (record : Record) : Logged Unit := modify (·.push record)

/-- The result of an operation and the records that it writes. -/
def outcome {α : Type} (action : Logged α) : Except Error α × Array Record :=
  action.run.run #[]

/-- Where records go: those that the namespace admits are captured, and written to the stream that
is installed. Streams that were installed before keep what they hold. -/
structure Journal where
  threshold : Level
  captured : Array Record
  installed : Option String
  streams : List (String × List Record)

namespace Journal

def start : Journal := ⟨debug, #[], none, []⟩

/-- A namespace without a threshold has that of the loggers above it. -/
def admits (journal : Journal) (record : Record) : Bool :=
  0 < record.level && (if journal.threshold = 0 then warning else journal.threshold) ≤ record.level

def append (journal : Journal) (record : Record) : Journal :=
  if journal.admits record then
    { journal with
      captured := journal.captured.push record
      streams := journal.streams.map fun (name, records) =>
        if journal.installed = some name then (name, records ++ [record]) else (name, records) }
  else journal

/-- Installs a new stream in the place of the one before. -/
def install (journal : Journal) (threshold : Level) (stream : String) : Journal :=
  { journal with
    threshold := threshold
    installed := some stream
    streams := (stream, []) :: journal.streams.filter (·.1 != stream) }

/-- The capture and the installed stream. -/
def handlers (journal : Journal) : Nat := 1 + journal.installed.toList.length

/-- The lines of a stream that was installed. -/
def lines? (journal : Journal) (stream : String) : Option (List String) :=
  (journal.streams.lookup stream).map (·.map Record.line)

end Journal

end DataSchema.Log
