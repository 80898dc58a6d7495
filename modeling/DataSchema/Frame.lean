import DataSchema.Check
import DataSchema.Log

/-!
Frames of named columns, checked row by row. A row is the dict from column names to its values.
-/

namespace DataSchema

/-- What a column holds, apart from absent values. -/
inductive ColumnType where
  | integer
  | float
  | text
  | truth
  | absent
  | list (element : ColumnType)
  | struct (fields : List (String × ColumnType))
  deriving Inhabited

namespace ColumnType

mutual

/-- The value as the column holds it: whole numbers become floats in a float column, and structs
have all their fields, in order. -/
def hold : ColumnType → Value → Value
  | float, .int n => .float (.ofInt n)
  | list element, .list items => .list (items.map (hold element))
  | struct fields, .dict entries => .dict (holdFields fields entries)
  | _, v => v
termination_by structural c => c

def holdFields : List (String × ColumnType) → List (Value × Value) → List (Value × Value)
  | [], _ => []
  | (name, column) :: fields, entries =>
    (.string name, hold column (Value.entryOrNull name entries)) :: holdFields fields entries
termination_by structural fields => fields

end

end ColumnType

structure Frame where
  columns : List String
  rows : List (List Value)

namespace Frame

/-- The rows of columns; there are as many as the first column has values. -/
def ofColumns (columns : List (String × ColumnType × List Value)) : Frame where
  columns := columns.map (·.1)
  rows := match columns with
    | [] => []
    | (_, _, values) :: _ => (List.range values.length).map fun i =>
      columns.map fun (_, column, values) => column.hold (values.getD i .null)

def record (frame : Frame) (row : List Value) : Value :=
  .dict ((frame.columns.map Value.string).zip row)

/-- For each row whether it passes a test. -/
def maskBy (test : Value → Except Error Bool) (frame : Frame) : Except Error (List Bool) :=
  frame.rows.mapM fun row => test (frame.record row)

/-- For each row whether it conforms. -/
def validateRows (settings : Settings) (d : Descriptor) (frame : Frame) :
    Except Error (List Bool) :=
  frame.maskBy (validate settings d)

/-- The rows whose entry in the mask is `true`. -/
def select (frame : Frame) (mask : List Bool) : Frame :=
  { frame with rows := ((frame.rows.zip mask).filter (·.2)).map (·.1) }

/-- The positions of the entries that are `false`. -/
def rejected (mask : List Bool) : List Nat :=
  mask.zipIdx.filterMap fun (ok, i) => if ok then none else some i

def logger : String := "shapekit.tabular.validate"

/-- The rows whose entry is `true`; that others were dropped is written down with the kind of the
descriptor that rejected them. -/
def keep (kind : Kind) (mask : List Bool) (frame : Frame) : Log.Logged Frame := do
  let dropped := mask.length - mask.count true
  if dropped ≠ 0 then
    Log.write ⟨logger, Log.debug, "filter_valid dropped " ++ Nat.repr dropped ++ " of " ++
      Nat.repr frame.rows.length ++ " rows for " ++ kind.id⟩
  return frame.select mask

/-- The frame itself, if all entries are `true`. -/
def demand (kind : Kind) (mask : List Bool) (frame : Frame) : Except Error Frame :=
  let bad := rejected mask
  if bad.isEmpty then .ok frame else .error (.rowsRejected kind bad)

def filterValid (settings : Settings) (d : Descriptor) (frame : Frame) : Log.Logged Frame := do
  frame.keep d.kind (← ofExcept (frame.validateRows settings d))

/-- The frame itself, if all its rows conform. -/
def requireValid (settings : Settings) (d : Descriptor) (frame : Frame) : Except Error Frame := do
  frame.demand d.kind (← frame.validateRows settings d)

end Frame

end DataSchema
