import DataSchema.Registry
import DataSchema.Store.Build

/-!
Rendering an object with the registered renderers. Renderers of composites render the parts with
the renderers of their descriptors, and an edit of a part reaches the outside as an edit of the
whole.
-/

namespace DataSchema.Registry

/-- A small set of renderers. `fields`, `items`, `inner` and `active` are for objects, lists,
optionals and unions; `clear` and `double` edit the value when they are rendered. -/
inductive Renderer where
  | text
  | config
  | fields
  | items
  | inner
  | active
  | clear
  | double
  deriving DecidableEq

def Renderer.name : Renderer → String
  | text => "text"
  | config => "config"
  | fields => "fields"
  | items => "items"
  | inner => "inner"
  | active => "active"
  | clear => "clear"
  | double => "double"

def Renderer.ofName? (name : String) : Option Renderer :=
  [text, config, fields, items, inner, active, clear, double].find? (·.name == name)

/-- What a rendering has done so far: it puts objects into the store, writes records and sends
edits. -/
structure Effects where
  store : Store
  records : Array Log.Record
  edits : Array Ref

abbrev Rendering (α : Type) := ExceptT Error (StateM Effects) α

def ofLogged {α : Type} (action : Log.Logged α) : Rendering α := do
  let (result, records) := Log.outcome action
  modify fun effects => { effects with records := effects.records ++ records }
  ofExcept result

def ofBuild {α : Type} (action : Build α) : Rendering α := do
  let (result, store) ← ofExcept (action.run (← get).store)
  modify fun effects => { effects with store := store }
  return result

def add (cell : Cell) : Rendering Ref := ofBuild (Build.add cell)

def text (s : String) : Rendering Ref := ofBuild (Build.text s)

def send (v : Ref) : Rendering Unit :=
  modify fun effects => { effects with edits := effects.edits.push v }

/-- The entry of a configuration under a name. -/
def part? (store : Store) (name : String) (configuration : Ref) : Except Error Ref :=
  match store.entries? configuration with
  | none => .error .wrongOperand
  | some entries => match entries.find? fun (key, _) => store.name? key == some name with
    | some (_, v) => .ok v
    | none => .error (.missingKey name)

/-- A number twice, or a sequence twice in a row. -/
def doubled? : Cell → Except Error Cell
  | .plain (.bool b) => .ok (.plain (.int (if b then 2 else 0)))
  | .plain (.int n) => .ok (.plain (.int (n + n)))
  | .plain (.float x) => .ok (.plain (.float x.double))
  | .plain (.fraction q) => .ok (.plain (.fraction (q + q)))
  | .plain (.decimal d) =>
    if d.isSignaling then .error .undefinedNumber
    else match d.double? with
      | some twice => .ok (.plain (.decimal twice))
      | none => .error .sumTooLarge
  | .plain (.string s) => .ok (.plain (.string (s ++ s)))
  | .plain (.bytes data) => .ok (.plain (.bytes (data ++ data)))
  | .list items => .ok (.list (items ++ items))
  | .tuple items => .ok (.tuple (items ++ items))
  | _ => .error .wrongOperand

/-- How a part is rendered: its descriptor as held in the configuration, the part, and what an edit
of the part makes of the whole. -/
abbrev RenderPart := Ref → Ref → (Ref → Rendering Ref) → Rendering Ref

def renderFields (part : RenderPart) (configuration v : Ref) (edit : Ref → Rendering Ref) :
    Rendering Ref := do
  let store := (← get).store
  let current ← if (store.treeOrStub v).truthy then pure v else add (.dict [])
  match store.entries? configuration with
  | none => throw (.noAttribute "items")
  | some fields =>
    let outputs ← fields.mapM fun (name, d) => do
      match (← get).store.entries? current with
      | none => throw (.noAttribute "get")
      | some entries =>
        let found ← ofExcept (Store.find? store.alike? name entries)
        let output ← part d (found.getD Store.absent) fun new => do
          edit (← add (.dict (← ofExcept ((← get).store.put? name new entries))))
        add (.list [name, output])
    add (.list outputs)

def renderItems (part : RenderPart) (configuration v : Ref) (edit : Ref → Rendering Ref) :
    Rendering Ref := do
  match (← get).store.parts? v with
  | none => throw .notIterable
  | some parts =>
    let items ← ofBuild (parts.mapM Build.settle)
    let outputs ← items.zipIdx.mapM fun (item, i) => do
      let d ← ofExcept (part? (← get).store "value_type" configuration)
      part d item fun new => do edit (← add (.list (items.set i new)))
    add (.list outputs)

def renderActive (part : RenderPart) (configuration v : Ref) (edit : Ref → Rendering Ref) :
    Rendering Ref := do
  let union ← ofBuild (Build.make .union configuration)
  let store := (← get).store
  match ← ofExcept (store.matchAlternative .default union v) with
  | none => text "none"
  | some i =>
    let position ← ofBuild (Build.plain (.int i))
    let alternatives := ((store.parts? configuration).getD []).filterMap fun
      | .held r => some r
      | .loose _ => none
    let output ← part (alternatives.getD i Store.absent) v edit
    add (.list [position, output])

/-- Applies a renderer to a configuration and a value. -/
def Renderer.apply (renderer : Renderer) (registry : Registry Renderer) (part : RenderPart)
    (configuration v : Ref) (edit : Ref → Rendering Ref) : Rendering Ref := do
  match renderer with
  | .text => Registry.text ("text(" ++ ((← get).store.tree v).text ++ ")")
  | config => add (.dict [(← Registry.text "configuration", configuration)])
  | fields => renderFields part configuration v edit
  | items => renderItems part configuration v edit
  | active => renderActive part configuration v edit
  | inner =>
    if ((← get).store.face v).isAbsent then Registry.text "absent"
    else part (← ofExcept (part? (← get).store "inner_type" configuration)) v edit
  | clear => do
    send (← edit Store.absent)
    Registry.text "clear"
  | double => do
    send (← edit (← add (← ofExcept (doubled? ((← get).store.cell v)))))
    match ← ofLogged (registry.find (.string "mystery")) with
    | .unsupported id => Registry.text (unsupportedText id)
    | .renderer _ => return Store.absent

/-- Renders with so many levels of parts. -/
def renderWithin (registry : Registry Renderer) : (levels : Nat) → RenderPart
  | 0, _, _, _ => throw .endless
  | levels + 1, d, v, edit => do
    let kind ← ofExcept ((← get).store.kindOf? (.object d))
    let found ← ofLogged (registry.find (.string kind.id))
    let configuration ← ofBuild (Build.configuration d)
    match found with
    | .unsupported id => text (unsupportedText id)
    | .renderer renderer =>
      renderer.apply registry (renderWithin registry levels) configuration v edit

/-- Levels of parts that there is room for. -/
def renderLevels : Nat := 300

def render (registry : Registry Renderer) (d v : Ref) : Rendering Ref :=
  renderWithin registry renderLevels d v pure

end DataSchema.Registry
