import DataSchema.Value

/-!
Equality of values. Numbers are equal across their kinds, mappings whatever the order of their
entries, and descriptors as schemas.
-/

namespace DataSchema.Value

mutual

def equal : Value → Value → Bool
  | null, null => true
  | string s, string t => s == t
  | list xs, list ys | tuple xs, tuple ys => equalAll xs ys
  | dict es, dict fs | dict es, view fs | view es, dict fs | view es, view fs =>
    es.length == fs.length && equalEntries es fs
  | bytes a, bytes b => a == b
  | set xs, set ys => xs.length == ys.length && includedIn xs ys
  | kind j, kind k => j == k
  | descriptor d, descriptor e => d.same e
  | altered j v, altered k w => j == k && equal v w
  | decimal d, decimal e => d.same e
  | foreign c s m, foreign d t n => c == d && s == t && m == n
  | a, b => match a.number?, b.number? with
    | some m, some n => m.same n
    | _, _ => false
termination_by structural a => a

def equalAll : List Value → List Value → Bool
  | [], [] => true
  | x :: xs, y :: ys => equal x y && equalAll xs ys
  | _, _ => false
termination_by structural xs => xs

/-- Each entry has its equal among the others. -/
def equalEntries : List (Value × Value) → List (Value × Value) → Bool
  | [], _ => true
  | (key, v) :: es, fs => fs.any (fun (k, w) => equal key k && equal v w) && equalEntries es fs
termination_by structural es => es

def includedIn : List Value → List Value → Bool
  | [], _ => true
  | x :: xs, ys => ys.any (equal x) && includedIn xs ys
termination_by structural xs => xs

end

mutual

/-- Whether the value can be a key: it holds nothing that can be changed, and no number that fails
in comparisons. -/
def isHashable : Value → Bool
  | list _ | dict _ | view _ | set _ | again _ => false
  | decimal d => !d.isSignaling
  | tuple items => allHashable items
  | altered _ held => isHashable held
  | _ => true
termination_by structural v => v

def allHashable : List Value → Bool
  | [] => true
  | v :: vs => isHashable v && allHashable vs
termination_by structural vs => vs

end

/-- The entries after a write: a key that is there keeps its place. -/
def put (key v : Value) : List (Value × Value) → List (Value × Value)
  | [] => [(key, v)]
  | (k, w) :: entries => if k.equal key then (k, v) :: entries else (k, w) :: put key v entries

end DataSchema.Value
