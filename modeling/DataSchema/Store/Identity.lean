import DataSchema.Store.Tree
import DataSchema.Value.Equality

/-!
Identity and equality of objects. Inside of collections and descriptors an object equals itself,
whatever it is; apart from that objects are equal when their parts are. A comparison that goes on
without end, or deeper than there is room for, fails.
-/

namespace DataSchema

namespace Value

/-- The largest code of a character whose text of length one exists once. -/
def lastSharedChar : Nat := 0xFF

/-- Small numbers, truth values, kinds, the shortest texts and bytes, and the absent value exist
once, so that equal ones are one object. -/
def isShared : Value → Value → Bool
  | null, null => true
  | bool a, bool b => a == b
  | kind j, kind k => j == k
  | int m, int n => m == n && -5 ≤ m && m ≤ 256
  | string s, string t => s == t && s.length ≤ 1 && s.toList.all (·.toNat ≤ lastSharedChar)
  | bytes a, bytes b => a == b && a.length ≤ 1
  | _, _ => false

/-- Equality of values that hold no others; comparing a signaling decimal with a number fails. -/
def plainEqual? (v w : Value) : Except Error Bool :=
  if (v.isSignaling && w.number?.isSome) || (w.isSignaling && v.number?.isSome) then
    .error .undefinedNumber
  else .ok (v.equal w)

end Value

namespace Store

/-- Whether two references lead to one object. -/
def isSame (store : Store) (a b : Ref) : Bool :=
  a == b || match store.cell a, store.cell b with
    | .plain v, .plain w => v.isShared w
    | .tuple [], .tuple [] => true
    | _, _ => false

/-- How two objects are compared inside of others. -/
abbrev Compare := Ref → Ref → Except Error Bool

def equalAll (compare : Compare) : List Ref → List Ref → Except Error Bool
  | [], [] => .ok true
  | a :: as, b :: bs => do
    if ← compare a b then equalAll compare as bs else return false
  | _, _ => .ok false

/-- Whether some element passes a test that may fail. -/
def anyOf {α : Type} (test : α → Except Error Bool) : List α → Except Error Bool
  | [] => .ok false
  | a :: as => do if ← test a then return true else anyOf test as

/-- The entry under a key. -/
def find? (compare : Compare) (key : Ref) : List (Ref × Ref) → Except Error (Option Ref)
  | [] => .ok none
  | (k, v) :: entries => do
    if ← compare k key then return some v else find? compare key entries

/-- Each entry has its equal among the others. -/
def equalEntries (compare : Compare) (others : List (Ref × Ref)) :
    List (Ref × Ref) → Except Error Bool
  | [] => .ok true
  | (key, v) :: entries => do
    match ← find? compare key others with
    | none => return false
    | some w => if ← compare w v then equalEntries compare others entries else return false

def includedIn (compare : Compare) (others : List Ref) : List Ref → Except Error Bool
  | [] => .ok true
  | a :: as => do
    if ← anyOf (compare · a) others then includedIn compare others as else return false

/-- Equality of two objects, given how their parts are compared. Literals compare whether they hold
truth values before they compare what they hold. -/
def equalBy (store : Store) (compare : Compare) (a b : Ref) : Except Error Bool :=
  match store.cell a, store.cell b with
  | .list xs, .list ys => if xs.length = ys.length then equalAll compare xs ys else .ok false
  | .tuple xs, .tuple ys => equalAll compare xs ys
  | .set xs, .set ys => if xs.length = ys.length then includedIn compare ys xs else .ok false
  | .dict es, .dict fs | .dict es, .view fs | .view es, .dict fs | .view es, .view fs =>
    if es.length = fs.length then equalEntries compare fs es else .ok false
  | .descriptor j x, .descriptor k y =>
    if j ≠ k then .ok false
    else if j = .literal && (store.face x).isBool != (store.face y).isBool then .ok false
    else compare x y
  | .plain v, .plain w => v.plainEqual? w
  | _, _ => .ok false

/-- What a comparison takes of the room: a level, and in a descriptor a call as well. -/
def comparisonToll (store : Store) (r : Ref) : Room :=
  match store.cell r with
  | .descriptor _ _ => ⟨1, 3⟩
  | _ => ⟨0, 1⟩

/-- Equality within so much room. Each comparison takes at least one of the levels that there is
room for, which bounds the depth. -/
def equalWithin (store : Store) : (depth : Nat) → (room : Room) → Compare
  | 0, _, _, _ => .error .endless
  | depth + 1, room, a, b =>
    match room.after? (store.comparisonToll a) with
    | none => .error .endless
    | some room =>
      let part := store.equalWithin depth room
      store.equalBy (fun x y => if store.isSame x y then .ok true else part x y) a b

def equal? (store : Store) (a b : Ref) : Except Error Bool :=
  store.equalWithin (Room.whole.levels + 1) Room.whole a b

/-- Whether two objects are one or are equal, which is how keys are compared. -/
def alike? (store : Store) (a b : Ref) : Except Error Bool :=
  if store.isSame a b then .ok true else store.equal? a b

/-- Fails at an object that cannot be a key: keys hold nothing that can be changed. Each descriptor
takes one of the calls that are left; tuples take none, and no more of them than there are objects
stand between two descriptors, which bounds the depth. -/
def hashableWithin (store : Store) : (depth : Nat) → (calls : Nat) → Ref → Except Error Unit
  | 0, _, _ => .error .endless
  | depth + 1, calls, r =>
    match store.cell r with
    | .plain v => if v.isHashable then .ok () else .error .unhashable
    | .tuple items => items.forM (store.hashableWithin depth calls)
    | .descriptor _ held => match calls with
      | 0 => .error .endless
      | calls + 1 => store.hashableWithin depth calls held
    | _ => .error .unhashable

def hashable? (store : Store) (r : Ref) : Except Error Unit :=
  store.hashableWithin ((Room.whole.calls + 1) * (store.cells.size + 1)) Room.whole.calls r

/-- The entries after a write. A key that is there keeps its place. -/
def put? (store : Store) (key v : Ref) : List (Ref × Ref) → Except Error (List (Ref × Ref))
  | [] => .ok [(key, v)]
  | (k, w) :: entries => do
    if ← store.alike? k key then return (k, v) :: entries
    else return (k, w) :: (← store.put? key v entries)

end Store

end DataSchema
