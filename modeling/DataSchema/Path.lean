import DataSchema.Number.Integer

/-!
Places inside a value, as steps from the root: keys of mappings and positions in sequences.
-/

namespace DataSchema

inductive Step where
  | key (name : String)
  | index (position : Int)
  deriving DecidableEq

abbrev Path := List Step

namespace Step

def text : Step → String
  | .key name => "." ++ name
  | .index position => "[" ++ Integer.text position ++ "]"

end Step

/-- The root is written `$`. -/
def Path.location (path : Path) : String :=
  path.foldl (fun out step => out ++ step.text) "$"

end DataSchema
