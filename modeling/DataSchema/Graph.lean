import DataSchema.Description

/-!
Graphs of descriptors that are told apart by identity: descriptors may be shared and may hold
themselves. A walk visits every reachable one once; a description needs a graph without cycles.
-/

namespace DataSchema

structure Vertex (size : Nat) where
  kind : Kind
  configuration : Value
  children : List (Step × Fin size)

structure Graph (size : Nat) where
  vertex : Fin size → Vertex size

namespace Graph

variable {size : Nat}

/-- How many vertices are not in the list. -/
def left (visited : List (Fin size)) : Nat := (List.finRange size).countP (!visited.contains ·)

theorem countP_left_le (visited vs : List (Fin size)) (v : Fin size) :
    vs.countP (!(v :: visited).contains ·) ≤ vs.countP (!visited.contains ·) :=
  List.countP_mono_left (by simp)

theorem left_cons_lt {visited : List (Fin size)} {v : Fin size} (h : v ∉ visited) :
    left (v :: visited) < left visited := by
  suffices key : ∀ vs : List (Fin size), v ∈ vs →
      vs.countP (!(v :: visited).contains ·) < vs.countP (!visited.contains ·) from
    key _ (List.mem_finRange v)
  intro vs hv
  induction vs with
  | nil => simp at hv
  | cons w ws ih =>
    have fewer := countP_left_le visited ws v
    rw [List.countP_cons, List.countP_cons]
    by_cases hw : v = w
    · subst hw
      rw [if_neg (by simp), if_pos (by simpa using h)]
      omega
    · have := ih (by simpa [hw] using hv)
      have same : (!(v :: visited).contains w) = !visited.contains w := by simp [Ne.symm hw]
      rw [same]
      omega

/-- Visits the places on the stack in turn, and from each place that is new its children first. -/
def walkFrom (g : Graph size) (visited : List (Fin size)) (stack : List (Path × Fin size)) :
    List (Path × Fin size) :=
  match stack with
  | [] => []
  | (path, v) :: rest =>
    if v ∈ visited then g.walkFrom visited rest
    else
      let children := (g.vertex v).children.map fun (key, w) => (path ++ [key], w)
      (path, v) :: g.walkFrom (v :: visited) (children ++ rest)
termination_by (left visited, stack.length)
decreasing_by
  · exact Prod.Lex.right _ (by simp)
  · exact Prod.Lex.left _ _ (left_cons_lt (by assumption))

/-- All vertices that can be reached from the root, each at the first path that leads to it. -/
def walk (g : Graph size) (root : Fin size) : List (Path × Fin size) := g.walkFrom [] [([], root)]

/-- Describes a vertex below those that are being described. -/
def describeBelow (g : Graph size) (active : List (Fin size)) (v : Fin size) :
    Except Error Description :=
  if v ∈ active then .error (.cyclicGraph (g.vertex v).kind)
  else
    match (g.vertex v).children with
    | [] => .ok (.mk (g.vertex v).kind (g.vertex v).configuration [])
    | children => do
      let described ← children.mapM fun (key, w) => do
        return (key, ← g.describeBelow (v :: active) w)
      return .mk (g.vertex v).kind .null described
termination_by left active
decreasing_by exact left_cons_lt (by assumption)

def describe (g : Graph size) (root : Fin size) : Except Error Description :=
  g.describeBelow [] root

end Graph

end DataSchema
