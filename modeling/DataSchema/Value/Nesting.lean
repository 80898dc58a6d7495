import DataSchema.Error

/-!
How deep values are nested, as an operation sees it that goes down into them. There is room for so
many calls within each other and for so many levels, and what goes deeper fails. Here is also
counted of how many descriptors one is made.
-/

namespace DataSchema

/-- A way down, or the room for one: calls within each other, of which there are few, and levels of
what is gone through without a call of its own, of which there are many. -/
structure Room where
  calls : Nat
  levels : Nat

namespace Room

/-- All that there is room for. -/
def whole : Room := ⟨994, 9998⟩

/-- What is left after a part of the way, if there is room for it. -/
def after? (room part : Room) : Option Room :=
  if part.calls ≤ room.calls ∧ part.levels ≤ room.levels then
    some ⟨room.calls - part.calls, room.levels - part.levels⟩
  else none

end Room

/-- What an operation takes of the room: to begin with, and for each part that it comes to. -/
structure Toll where
  start : Room
  leaf : Room
  collection : Room
  descriptor : Room

namespace Toll

/-- Making a text. -/
def text : Toll := ⟨⟨0, 1⟩, ⟨0, 1⟩, ⟨0, 1⟩, ⟨2, 2⟩⟩

/-- Making a text for the message of a builder, which is two calls further down. -/
def message : Toll := ⟨⟨2, 1⟩, ⟨0, 1⟩, ⟨0, 1⟩, ⟨2, 2⟩⟩

/-- Writing an answer. -/
def answer : Toll := ⟨⟨0, 0⟩, ⟨1, 0⟩, ⟨1, 0⟩, ⟨1, 0⟩⟩

/-- The room that an operation has for a value. -/
def room? (toll : Toll) : Option Room := Room.whole.after? toll.start

end Toll

namespace Descriptor

mutual

/-- Whether an operation that has so much room has enough for the descriptor. The first part that
goes too deep decides. -/
def fitsIn (toll : Toll) (room : Room) : Descriptor → Bool
  | list d | record d | optional d | type d =>
    (room.after? toll.descriptor).any fun room => fitsIn toll room d
  | object fields =>
    ((room.after? toll.descriptor).bind (·.after? toll.collection)).any fun room =>
      fieldsFit toll room fields
  | union ds =>
    ((room.after? toll.descriptor).bind (·.after? toll.collection)).any fun room =>
      allFit toll room ds
  | literal _ | file _ => ((room.after? toll.descriptor).bind (·.after? toll.leaf)).isSome
  | _ => (room.after? toll.descriptor).isSome
termination_by structural d => d

def fieldsFit (toll : Toll) (room : Room) : List (String × Descriptor) → Bool
  | [] => true
  | (_, d) :: fields =>
    ((room.after? toll.collection).any fun room => fitsIn toll room d) && fieldsFit toll room fields
termination_by structural fields => fields

def allFit (toll : Toll) (room : Room) : List Descriptor → Bool
  | [] => true
  | d :: ds => fitsIn toll room d && allFit toll room ds
termination_by structural ds => ds

end

mutual

/-- Whether all numbers in the descriptor have so few digits that they are written. -/
def isWritten : Descriptor → Bool
  | literal (.int n) => Integer.isWritten n
  | list d | record d | optional d | type d => isWritten d
  | object fields => fieldsWritten fields
  | union ds => allWritten ds
  | _ => true
termination_by structural d => d

def fieldsWritten : List (String × Descriptor) → Bool
  | [] => true
  | (_, d) :: fields => isWritten d && fieldsWritten fields
termination_by structural fields => fields

def allWritten : List Descriptor → Bool
  | [] => true
  | d :: ds => isWritten d && allWritten ds
termination_by structural ds => ds

end

mutual

/-- What is left of a number when one is taken for every descriptor; nothing if there are more. -/
def left? : Descriptor → Nat → Option Nat
  | _, 0 => none
  | list d, n + 1 | record d, n + 1 | optional d, n + 1 | type d, n + 1 => left? d n
  | object fields, n + 1 => leftOfFields? fields n
  | union ds, n + 1 => leftOfAll? ds n
  | _, n + 1 => some n
termination_by structural d => d

def leftOfFields? : List (String × Descriptor) → Nat → Option Nat
  | [], n => some n
  | (_, d) :: fields, n => do leftOfFields? fields (← left? d n)
termination_by structural fields => fields

def leftOfAll? : List Descriptor → Nat → Option Nat
  | [], n => some n
  | d :: ds, n => do leftOfAll? ds (← left? d n)
termination_by structural ds => ds

end

/-- Whether a descriptor is made of no more than so many. -/
def isWithin (d : Descriptor) (size : Nat) : Bool := (d.left? size).isSome

end Descriptor

namespace Value

mutual

/-- Whether an operation that has so much room has enough for the value. -/
def fitsIn (toll : Toll) (room : Room) : Value → Bool
  | list items | tuple items | set items =>
    (room.after? toll.collection).any fun room => allFitIn toll room items
  | dict entries | view entries =>
    (room.after? toll.collection).any fun room => entriesFitIn toll room entries
  | descriptor d => d.fitsIn toll room
  | altered _ held => (room.after? toll.descriptor).any fun room => fitsIn toll room held
  | _ => (room.after? toll.leaf).isSome
termination_by structural v => v

def allFitIn (toll : Toll) (room : Room) : List Value → Bool
  | [] => true
  | v :: vs => fitsIn toll room v && allFitIn toll room vs
termination_by structural vs => vs

def entriesFitIn (toll : Toll) (room : Room) : List (Value × Value) → Bool
  | [] => true
  | (key, v) :: entries =>
    fitsIn toll room key && fitsIn toll room v && entriesFitIn toll room entries
termination_by structural entries => entries

end

/-- Whether an operation has room for the value. -/
def fits (toll : Toll) (v : Value) : Bool := toll.room?.any fun room => v.fitsIn toll room

/-- The text of a value that there is room for. -/
def text? (v : Value) : Except Error String :=
  if v.fits .text then .ok v.text else .error .endless

mutual

/-- Whether all numbers in the value have so few digits that they are written. -/
def isWritten : Value → Bool
  | int n => Integer.isWritten n
  | fraction q => Integer.isWritten q.num && Integer.isWritten q.den
  | list items | tuple items | set items => allWritten items
  | dict entries | view entries => entriesWritten entries
  | descriptor d => d.isWritten
  | altered _ held => isWritten held
  | _ => true
termination_by structural v => v

def allWritten : List Value → Bool
  | [] => true
  | v :: vs => isWritten v && allWritten vs
termination_by structural vs => vs

def entriesWritten : List (Value × Value) → Bool
  | [] => true
  | (key, v) :: entries => isWritten key && isWritten v && entriesWritten entries
termination_by structural entries => entries

end

/-- Why the message of a builder cannot show the value, if it cannot. -/
def muted? (v : Value) : Option Error :=
  if !v.fits .message then some .endless
  else if v.isWritten then none
  else some .numberTooLong

mutual

/-- Fails at the first part that is not written: a value inside itself, or a number with too many
digits. -/
def wholeParts? : Value → Except Error Unit
  | int n => if Integer.isWritten n then .ok () else .error .numberTooLong
  | list items | tuple items | set items => allWholeParts? items
  | dict entries | view entries => entriesWholeParts? entries
  | altered _ held => wholeParts? held
  | again _ => .error .endless
  | _ => .ok ()
termination_by structural v => v

def allWholeParts? : List Value → Except Error Unit
  | [] => .ok ()
  | v :: vs => do
    wholeParts? v
    allWholeParts? vs
termination_by structural vs => vs

def entriesWholeParts? : List (Value × Value) → Except Error Unit
  | [] => .ok ()
  | (key, v) :: entries => do
    wholeParts? key
    wholeParts? v
    entriesWholeParts? entries
termination_by structural entries => entries

end

/-- Fails if the value cannot be written as an answer. -/
def written? (v : Value) : Except Error Unit :=
  if v.fits .answer then v.wholeParts? else .error .endless

end Value

namespace Error

/-- The value that the message of a builder shows. -/
def shown? : Error → Option Value
  | childNotDescriptor _ _ v | literalNotPrimitive v | literalNotFinite v | fieldNotPair v
  | fieldNameNotText v | tagNotText v => some v
  | _ => none

/-- The failure that comes out of a builder, whose message has to be made first. -/
def phrased (e : Error) : Error := (e.shown?.bind Value.muted?).getD e

end Error

end DataSchema
