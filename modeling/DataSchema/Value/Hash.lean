import DataSchema.Value.Equality

/-!
Hash codes. Equal values have the same code: numbers of all kinds are hashed by their value, and
descriptors as schemas. Main statement: descriptors that are the same have the same code.
-/

namespace DataSchema

def Primitive.hashCode (p : Primitive) : UInt64 :=
  mixHash (hash p.isBool) (match p.content with
    | .inl q => mixHash (hash q.num) (hash q.den)
    | .inr s => hash s)

namespace Descriptor

mutual

/-- The text of an outsider does not count, as it does not for equality. -/
def hashCode : Descriptor → UInt64
  | literal p => mixHash (hash "literal") p.hashCode
  | list d => mixHash (hash "list") (hashCode d)
  | record d => mixHash (hash "record") (hashCode d)
  | optional d => mixHash (hash "optional") (hashCode d)
  | type d => mixHash (hash "type") (hashCode d)
  | object fields => mixHash (hash "object") (hashOfFields fields)
  | union ds => mixHash (hash "union") (hashOfAll ds)
  | file tag => mixHash (hash "file") (hash tag)
  | outsider kind className _ => mixHash (hash className) (hash kind.id)
  | d => hash d.kind.id
termination_by structural d => d

def hashOfFields : List (String × Descriptor) → UInt64
  | [] => 0
  | (name, d) :: fields => mixHash (mixHash (hash name) (hashCode d)) (hashOfFields fields)
termination_by structural fields => fields

def hashOfAll : List Descriptor → UInt64
  | [] => 0
  | d :: ds => mixHash (hashCode d) (hashOfAll ds)
termination_by structural ds => ds

end

end Descriptor

theorem Primitive.hashCode_eq_of_same {a b : Primitive} (h : a.same b = true) :
    a.hashCode = b.hashCode := by
  simp only [Primitive.same, decide_eq_true_eq] at h
  rw [Primitive.hashCode, Primitive.hashCode, h.1, h.2]

namespace Descriptor

mutual

theorem hashCode_eq_of_same (d e : Descriptor) (h : same d e = true) : hashCode d = hashCode e := by
  cases d <;> cases e <;> simp only [same, Bool.false_eq_true, Bool.and_eq_true, beq_iff_eq] at h
  case literal p q => rw [hashCode, hashCode, Primitive.hashCode_eq_of_same h]
  case list d e => rw [hashCode, hashCode, hashCode_eq_of_same d e h]
  case record d e => rw [hashCode, hashCode, hashCode_eq_of_same d e h]
  case optional d e => rw [hashCode, hashCode, hashCode_eq_of_same d e h]
  case type d e => rw [hashCode, hashCode, hashCode_eq_of_same d e h]
  case object fs gs => rw [hashCode, hashCode, hashOfFields_eq_of_same fs gs h]
  case union ds es => rw [hashCode, hashCode, hashOfAll_eq_of_same ds es h]
  case file s t => rw [h]
  case outsider j c s k d t => rw [hashCode, hashCode, h.1, h.2]
  all_goals rfl
termination_by structural d

theorem hashOfFields_eq_of_same (fs gs : List (String × Descriptor))
    (h : sameFields fs gs = true) : hashOfFields fs = hashOfFields gs := by
  match fs, gs with
  | [], [] => rfl
  | [], _ :: _ => simp [sameFields] at h
  | (_, _) :: _, [] => simp [sameFields] at h
  | (m, d) :: fs, (n, e) :: gs =>
    simp only [sameFields, Bool.and_eq_true, beq_iff_eq] at h
    rw [hashOfFields, hashOfFields, h.1.1, hashCode_eq_of_same d e h.1.2,
      hashOfFields_eq_of_same fs gs h.2]
termination_by structural fs

theorem hashOfAll_eq_of_same (ds es : List Descriptor) (h : sameAll ds es = true) :
    hashOfAll ds = hashOfAll es := by
  match ds, es with
  | [], [] => rfl
  | [], _ :: _ => simp [sameAll] at h
  | _ :: _, [] => simp [sameAll] at h
  | d :: ds, e :: es =>
    simp only [sameAll, Bool.and_eq_true] at h
    rw [hashOfAll, hashOfAll, hashCode_eq_of_same d e h.1, hashOfAll_eq_of_same ds es h.2]
termination_by structural ds

end

end Descriptor

def Extended.hashCode : Extended → UInt64
  | nan => hash "nan"
  | minusInfinity => hash "minus"
  | finite q => mixHash (hash q.num) (hash q.den)
  | plusInfinity => hash "plus"

namespace Value

mutual

/-- Mappings, lists and sets have no code of their own, because they can be changed. -/
def hashCode : Value → UInt64
  | null => hash "null"
  | string s => hash s
  | tuple items => hashOfAll items
  | bytes data => data.foldl (fun code byte => mixHash code byte.toUInt64) (hash "bytes")
  | kind k => hash k.id
  | descriptor d => d.hashCode
  | altered k held => mixHash (hash k.id) (hashCode held)
  | foreign className _ mark => mixHash (hash className) (hash mark)
  | v => (v.number?.map Extended.hashCode).getD 0
termination_by structural v => v

def hashOfAll : List Value → UInt64
  | [] => hash "tuple"
  | v :: vs => mixHash (hashCode v) (hashOfAll vs)
termination_by structural vs => vs

end

/-- The hash code of a value that can be a key. -/
def hash? (v : Value) : Option UInt64 := if v.isHashable then some v.hashCode else none

end Value

end DataSchema
