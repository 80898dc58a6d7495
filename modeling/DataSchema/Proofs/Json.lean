import DataSchema.Json.Canonical

/-!
Data as texts hold it: whatever is made of the absent value, truth values, numbers and texts by
sequences and by mappings with texts for keys, however deep; and when two values are the same data.
-/

namespace DataSchema

namespace Value

mutual

/-- Data of the kinds that every reader of texts knows. -/
def IsJson : Value → Prop
  | null | bool _ | int _ | float _ | string _ => True
  | list items | tuple items => AllJson items
  | dict entries => EntriesJson entries
  | _ => False
termination_by structural v => v

def AllJson : List Value → Prop
  | [] => True
  | v :: vs => IsJson v ∧ AllJson vs
termination_by structural vs => vs

def EntriesJson : List (Value × Value) → Prop
  | [] => True
  | (key, v) :: entries => key.isText = true ∧ IsJson v ∧ EntriesJson entries
termination_by structural entries => entries

end

mutual

/-- Whether two values are the same data. Lists and tuples are both sequences, the order of entries
does not count, floats are the same if their texts are, and no number is one of another class. -/
def sameData : Value → Value → Bool
  | null, null => true
  | bool a, bool b => a == b
  | int m, int n => m == n
  | float x, float y => x.text == y.text
  | string s, string t => s == t
  | list vs, list ws | list vs, tuple ws | tuple vs, list ws | tuple vs, tuple ws => sameItems vs ws
  | dict entries, dict others => entries.length == others.length && entriesAmong entries others
  | _, _ => false
termination_by structural v => v

def sameItems : List Value → List Value → Bool
  | [], [] => true
  | v :: vs, w :: ws => sameData v w && sameItems vs ws
  | _, _ => false
termination_by structural vs => vs

/-- Whether each entry is found among others. -/
def entriesAmong : List (Value × Value) → List (Value × Value) → Bool
  | [], _ => true
  | (key, v) :: entries, others =>
    others.any (fun other => sameData key other.1 && sameData v other.2) &&
      entriesAmong entries others
termination_by structural entries => entries

end

/-- A value that no other values are part of. -/
def isLeaf : Value → Bool
  | null | bool _ | int _ | float _ | string _ => true
  | _ => false

mutual

/-- No mapping has one key twice. -/
def KeysDiffer : Value → Prop
  | list items | tuple items => AllKeysDiffer items
  | dict entries => (entries.map (·.1)).Nodup ∧ EntriesKeysDiffer entries
  | _ => True
termination_by structural v => v

def AllKeysDiffer : List Value → Prop
  | [] => True
  | v :: vs => KeysDiffer v ∧ AllKeysDiffer vs
termination_by structural vs => vs

def EntriesKeysDiffer : List (Value × Value) → Prop
  | [] => True
  | (_, v) :: entries => KeysDiffer v ∧ EntriesKeysDiffer entries
termination_by structural entries => entries

end

/-- Data as texts hold it. -/
structure IsData (v : Value) : Prop where
  json : v.IsJson
  keys : v.KeysDiffer

theorem allJson_iff {vs : List Value} : AllJson vs ↔ ∀ v ∈ vs, v.IsJson := by
  induction vs with
  | nil => simp [AllJson]
  | cons v vs ih => rw [AllJson, ih, List.forall_mem_cons]

theorem entriesJson_iff {entries : List (Value × Value)} :
    EntriesJson entries ↔ ∀ entry ∈ entries, entry.1.isText = true ∧ entry.2.IsJson := by
  induction entries with
  | nil => simp [EntriesJson]
  | cons entry entries ih => rw [EntriesJson, ih, List.forall_mem_cons, and_assoc]

theorem entriesKeysDiffer_iff {entries : List (Value × Value)} :
    EntriesKeysDiffer entries ↔ ∀ entry ∈ entries, entry.2.KeysDiffer := by
  induction entries with
  | nil => simp [EntriesKeysDiffer]
  | cons entry entries ih => rw [EntriesKeysDiffer, ih, List.forall_mem_cons]

end Value

end DataSchema
