import DataSchema.Kind.Resolve
import DataSchema.Log

/-!
Registries of renderers by kind, looked up by whatever names a kind.
-/

namespace DataSchema

/-- Kinds with their renderers, each kind once, in the order of first registration. -/
structure Registry (ρ : Type) where
  entries : List (Kind × ρ)

/-- What a lookup ends in: a renderer, or the id for which there is none. -/
inductive Found (ρ : Type) where
  | renderer (r : ρ)
  | unsupported (id : String)

namespace Registry

variable {ρ : Type}

def empty : Registry ρ := ⟨[]⟩

/-- A kind that is there keeps its place and gets the new renderer. -/
def put (kind : Kind) (r : ρ) : List (Kind × ρ) → List (Kind × ρ)
  | [] => [(kind, r)]
  | (k, old) :: entries => if k = kind then (k, r) :: entries else (k, old) :: put kind r entries

def register (registry : Registry ρ) (id : Value) (r : ρ) : Except Error (Registry ρ) := do
  return ⟨put (← Kind.resolve? id) r registry.entries⟩

/-- A registry with initial renderers. -/
def ofEntries (entries : List (Value × ρ)) : Except Error (Registry ρ) :=
  entries.foldlM (fun registry (id, r) => registry.register id r) empty

def kinds (registry : Registry ρ) : List Kind := registry.entries.map (·.1)

def has (registry : Registry ρ) (id : Value) : Bool :=
  match Kind.resolve? id with
  | .ok kind => registry.kinds.contains kind
  | .error _ => false

def logger : String := "shapekit.render.registry"

def find (registry : Registry ρ) (id : Value) : Log.Logged (Found ρ) := do
  match Kind.resolve? id with
  | .error _ =>
    Log.write ⟨logger, Log.warning, "no renderer for unknown descriptor id " ++ id.text⟩
    return .unsupported id.plainText
  | .ok kind =>
    match registry.entries.lookup kind with
    | some r => return .renderer r
    | none =>
      Log.write ⟨logger, Log.warning,
        "no renderer registered for descriptor id " ++ Text.quoted kind.id⟩
      return .unsupported kind.id

/-- What stands in the place of a missing renderer's output. -/
def unsupportedText (id : String) : String := "unsupported descriptor: " ++ id

theorem kinds_put (kind : Kind) (r : ρ) (entries : List (Kind × ρ)) :
    (put kind r entries).map (·.1) =
      if kind ∈ entries.map (·.1) then entries.map (·.1) else entries.map (·.1) ++ [kind] := by
  induction entries with
  | nil => rfl
  | cons entry entries ih =>
    obtain ⟨k, old⟩ := entry
    by_cases h : k = kind
    · simp [put, h]
    · simp only [put, h, if_false, List.map_cons, ih, List.mem_cons, Ne.symm h, false_or]
      split <;> rfl

end Registry

end DataSchema
