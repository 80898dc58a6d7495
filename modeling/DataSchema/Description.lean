import DataSchema.Descriptor.Build

/-!
Descriptions: a descriptor tree told as data, for tools that know nothing about descriptors.
-/

namespace DataSchema

/-- The configuration is told where there are no children, and absent elsewhere. -/
inductive Description where
  | mk (kind : Kind) (configuration : Value) (children : List (Step × Description))

namespace Description

def kind : Description → Kind
  | mk kind _ _ => kind

def configuration : Description → Value
  | mk _ configuration _ => configuration

def children : Description → List (Step × Description)
  | mk _ _ children => children

end Description

def Step.toValue : Step → Value
  | .key name => .string name
  | .index position => .int position

/-- Whole numbers that come as floats stay below this number and above its opposite. -/
def Step.floatBound : Nat := 1 <<< 63

/-- A float as a position. -/
def Step.ofFloat? : Binary64 → Option Step
  | .finite x =>
    if x.toRat.den = 1 && x.truncate.natAbs < floatBound then some (.index x.truncate) else none
  | _ => none

/-- A step given as a value: a text, or a number that is whole. Bytes and kinds stand for texts, and
fractions for the floats next to them. -/
def Step.ofValue? : Value → Option Step
  | .string name => some (.key name)
  | .int n => some (.index n)
  | .bool b => some (.index (if b then 1 else 0))
  | .bytes data => (String.fromUTF8? ⟨data.toArray⟩).map .key
  | .kind k => some (.key k.id)
  | .float x => ofFloat? x
  | .fraction q => ofFloat? (.ofRat q)
  | .decimal (.finite negative digits) =>
    if (Decimal.exact negative digits).den = 1 then some (.index (Decimal.truncate negative digits))
    else none
  | _ => none

namespace Description

mutual

/-- The description as plain data. -/
def toValue : Description → Value
  | mk kind configuration children => .dict
    [(.string "id", .string kind.id), (.string "configuration", configuration),
     (.string "children", .list (childValues children))]
termination_by structural d => d

def childValues : List (Step × Description) → List Value
  | [] => []
  | (key, d) :: children =>
    .dict [(.string "key", key.toValue), (.string "descriptor", toValue d)] :: childValues children
termination_by structural children => children

end

end Description

namespace Descriptor

/-- The description of a descriptor given its children's, which replace the configuration. -/
def describeWith (d : Descriptor) (children : List (Step × Description)) : Description :=
  .mk d.kind (if children.isEmpty then d.configuration else .null) children

mutual

def describe : Descriptor → Description
  | list d => .mk .list .null [(.key "value_type", describe d)]
  | record d => .mk .record .null [(.key "value_type", describe d)]
  | optional d => .mk .optional .null [(.key "inner_type", describe d)]
  | type d => .mk .type .null [(.key "described", describe d)]
  | object fields => describeWith (object fields) (describeFields fields)
  | union ds => describeWith (union ds) (describeAll 0 ds)
  | d => .mk d.kind d.configuration []
termination_by structural d => d

def describeFields : List (String × Descriptor) → List (Step × Description)
  | [] => []
  | (name, d) :: fields => (.key name, describe d) :: describeFields fields
termination_by structural fields => fields

def describeAll (position : Nat) : List Descriptor → List (Step × Description)
  | [] => []
  | d :: ds => (.index position, describe d) :: describeAll (position + 1) ds
termination_by structural ds => ds

end

end Descriptor

end DataSchema
