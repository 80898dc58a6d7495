import DataSchema.Descriptor.Build

/-!
Derived shapes: descriptors that a value has to satisfy before its own variant is asked, and the
descriptors of configurations.
-/

namespace DataSchema.Descriptor

/-- The shape of an uploaded file. A concrete tag fixes the category in its `type` entry. -/
def fileShape (tag : Option String) : Descriptor :=
  let category := match tag with
    | some t => if admitsAnyCategory tag then orAbsent string else literal (.string t)
    | none => orAbsent string
  object [("name", string), ("length", number), ("mimeType", string), ("dataUrl", string),
    ("type", category)]

/-- The tag that images put on their file. -/
def imageTag : String := "jpg"

def imageShape : Descriptor := object [("file", file (some imageTag))]

/-- The shape that `d` derives from its configuration, if its variant has one. -/
def derived? : Descriptor → Option Descriptor
  | optional inner => some (union [inner, null])
  | file tag => some (fileShape tag)
  | image => some imageShape
  | _ => none

/-- The file shape for a tag given as a value: a tag of any type but text has to be what a literal
may expect. -/
def fileShapeOf? : Value → Except Error Descriptor
  | .null => .ok (fileShape none)
  | .string tag => .ok (fileShape (some tag))
  | .set members => .error (.literalNotPrimitive (.set members))
  | v => do
    if !v.isHashable then throw .unhashable
    let category ← literal? v
    return object [("name", string), ("length", number), ("mimeType", string),
      ("dataUrl", string), ("type", category)]

/-- Accepts the configurations of a kind's descriptors. -/
def configurationShape : Kind → Descriptor
  | .literal => union [number, string, boolean]
  | .list | .record => object [("value_type", any)]
  | .optional => object [("inner_type", any)]
  | .object => record any
  | .union => list any
  | .type => any
  | .file => object [("type", orAbsent string)]
  | _ => void

theorem children_object (fields : List (String × Descriptor)) :
    (object fields).children = fields.map fun (name, d) => (.key name, d) := rfl

end DataSchema.Descriptor
