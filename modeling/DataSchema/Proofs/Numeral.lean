import DataSchema.Json.Canonical
import Mathlib.Tactic.ByContra

/-!
The texts of numbers, as data is written with them: of which characters they are made, and that
they tell whole numbers, floats and words apart.
-/

namespace DataSchema

theorem Nat.isDigit_of_mem_repr {n : Nat} {c : Char} (h : c ∈ (Nat.repr n).toList) :
    c.isDigit = true := by
  rw [Nat.toList_repr] at h
  exact Nat.isDigit_of_mem_toDigits (by decide) (by decide) h

namespace Json

/-- The characters that a number or a word is written with. -/
def isTokenChar (c : Char) : Bool := c.isAlphanum || c == '-' || c == '+' || c == '.'

theorem isTokenChar_of_isDigit {c : Char} (h : c.isDigit = true) : isTokenChar c = true := by
  simp [isTokenChar, Char.isAlphanum, h]

/-- The text of a number or a word. -/
structure IsToken (text : String) : Prop where
  all : text.toList.all isTokenChar = true
  nonempty : text.toList ≠ []

/-- A point or the mark of an exponent. -/
def isMark (c : Char) : Bool := c == '.' || c == 'e'

/-- The text of a finite float has a digit, and a character that no whole number has. -/
structure IsFloatText (text : String) : Prop where
  all : text.toList.all isTokenChar = true
  digit : text.toList.any Char.isDigit = true
  mark : text.toList.any isMark = true

theorem IsFloatText.isToken {text : String} (h : IsFloatText text) : IsToken text where
  all := h.all
  nonempty := fun hnil => by simpa [hnil] using h.digit

end Json

open Json

/-! ### Whole numbers -/

namespace Integer

theorem toList_text (n : Int) :
    (text n).toList = (if n < 0 then ['-'] else []) ++ (Nat.repr n.natAbs).toList := by
  unfold text
  split <;> simp

theorem mem_text {n : Int} {c : Char} (h : c ∈ (text n).toList) : c = '-' ∨ c.isDigit = true := by
  rw [toList_text, List.mem_append] at h
  refine h.imp (fun hsign => ?_) Nat.isDigit_of_mem_repr
  split at hsign <;> simp_all

theorem minus_mem_text {n : Int} : '-' ∈ (text n).toList ↔ n < 0 := by
  rw [toList_text, List.mem_append]
  constructor
  · rintro (h | h)
    · by_contra hn
      simp [hn] at h
    · exact absurd (Nat.isDigit_of_mem_repr h) (by decide)
  · intro h
    simp [h]

theorem text_injective {m n : Int} (h : text m = text n) : m = n := by
  have hsign : m < 0 ↔ n < 0 := by rw [← minus_mem_text, h, minus_mem_text]
  have hlists := congrArg String.toList h
  simp only [toList_text, hsign, List.append_cancel_left_eq] at hlists
  rw [Nat.toList_repr, Nat.toList_repr] at hlists
  have habs : m.natAbs = n.natAbs := by
    rw [← Nat.ofDigitChars_ten_toDigits (n := m.natAbs), hlists, Nat.ofDigitChars_ten_toDigits]
  omega

theorem isToken_text (n : Int) : IsToken (text n) where
  all := by
    rw [List.all_eq_true]
    intro c hc
    rcases mem_text hc with rfl | hdigit
    · rfl
    · exact isTokenChar_of_isDigit hdigit
  nonempty := by simp [toList_text, Nat.toDigits_ne_nil]

theorem text_eq_iff {m n : Int} : text m = text n ↔ m = n := ⟨text_injective, congrArg text⟩

/-- Only digits and the sign are found in a whole number. -/
theorem text_ne_of_mem {n : Int} {word : String} {c : Char} (hc : c ∈ word.toList)
    (hminus : c ≠ '-') (hdigit : c.isDigit = false) : text n ≠ word := by
  rintro rfl
  rcases mem_text hc with rfl | h
  · contradiction
  · simp [h] at hdigit

end Integer

/-! ### Floats -/

namespace Scientific

theorem all_zeroDigits (count : Nat) : (zeroDigits count).toList.all isTokenChar = true := by
  simp only [zeroDigits, String.toList_ofList, List.all_eq_true]
  intro c hc
  rw [List.eq_of_mem_replicate hc]
  rfl

theorem all_exponentText (exponent : Int) :
    (exponentText exponent).toList.all isTokenChar = true := by
  have hdigits : (Nat.repr exponent.natAbs).toList.all isTokenChar = true :=
    List.all_eq_true.mpr fun c hc => isTokenChar_of_isDigit (Nat.isDigit_of_mem_repr hc)
  simp only [exponentText, String.toList_append, List.all_append, all_zeroDigits, hdigits]
  split <;> rfl

theorem isFloatText_text (digits : Scientific) : IsFloatText digits.text := by
  have hdigits : ∀ c ∈ (Nat.repr digits.coefficient).toList, c.isDigit = true :=
    fun c hc => Nat.isDigit_of_mem_repr hc
  have hnil : (Nat.repr digits.coefficient).toList ≠ [] := by
    rw [Nat.toList_repr]
    exact Nat.toDigits_ne_nil
  unfold text
  generalize (Nat.repr digits.coefficient).toList = ds at hdigits hnil
  dsimp only
  have hall : ds.all isTokenChar = true :=
    List.all_eq_true.mpr fun c hc => isTokenChar_of_isDigit (hdigits c hc)
  have htake (n : Nat) : (ds.take n).all isTokenChar = true :=
    List.all_eq_true.mpr fun c hc => List.all_eq_true.mp hall c (List.mem_of_mem_take hc)
  have hdrop (n : Nat) : (ds.drop n).all isTokenChar = true :=
    List.all_eq_true.mpr fun c hc => List.all_eq_true.mp hall c (List.mem_of_mem_drop hc)
  have hfirst (n : Nat) (hn : 0 < n) : (ds.take n).any Char.isDigit = true := by
    cases ds with
    | nil => exact absurd rfl hnil
    | cons c rest =>
      cases n with
      | zero => exact absurd hn (Nat.lt_irrefl 0)
      | succ n => simp [hdigits c List.mem_cons_self]
  have hsome : ds.any Char.isDigit = true := by
    cases ds with
    | nil => exact absurd rfl hnil
    | cons c rest => simp [hdigits c List.mem_cons_self]
  have hchars : isTokenChar '0' = true ∧ isTokenChar '.' = true ∧ isTokenChar 'e' = true :=
    ⟨rfl, rfl, rfl⟩
  have hmarks : isMark '.' = true ∧ isMark 'e' = true := ⟨rfl, rfl⟩
  split
  · split
    · constructor
      · simp [hall, all_zeroDigits, hchars]
      · simp
      · simp [hmarks]
    · split
      · constructor
        · simp [hall, all_zeroDigits, hchars]
        · simp [hsome]
        · simp [hmarks]
      · constructor
        · simp [htake, hdrop, hchars]
        · have hpoint : 0 < (digits.exponent + ds.length).toNat := by omega
          simp [hfirst _ hpoint]
        · simp [hmarks]
  · have hplaces : (if ds.length ≤ 1 then "" else "." ++ String.ofList (ds.drop 1)).toList.all
        isTokenChar = true := by
      split
      · rfl
      · simp only [String.toList_append, String.toList_ofList, List.all_append, hdrop]
        rfl
    generalize (if ds.length ≤ 1 then "" else "." ++ String.ofList (ds.drop 1)) = places
      at hplaces ⊢
    constructor
    · simp [htake, all_exponentText, hplaces, hchars]
    · simp [hfirst 1 Nat.one_pos]
    · simp [hmarks]

end Scientific

namespace Binary64

theorem isFloatText_text (x : Finite64) : IsFloatText (text (.finite x)) := by
  have hsigned {s : String} (hs : IsFloatText s) (negative : Bool) :
      IsFloatText ((if negative then "-" else "") ++ s) := by
    obtain ⟨hall, hdigit, hmark⟩ := hs
    have hminus : isTokenChar '-' = true := rfl
    cases negative <;> constructor <;> simp [hall, hdigit, hmark, hminus]
  unfold text
  dsimp only
  split
  · exact hsigned ⟨rfl, rfl, rfl⟩ x.negative
  · exact hsigned (Scientific.isFloatText_text x.shortest) x.negative

end Binary64

namespace Json

theorem isToken_null : IsToken "null" := ⟨rfl, by decide⟩

theorem isToken_boolText (b : Bool) : IsToken (boolText b) := by
  cases b <;> exact ⟨rfl, by decide⟩

theorem isToken_floatText (x : Binary64) : IsToken (floatText x) := by
  cases x with
  | nan => exact ⟨rfl, by decide⟩
  | infinite negative => cases negative <;> exact ⟨rfl, by decide⟩
  | finite x => exact (Binary64.isFloatText_text x).isToken

/-- A finite float is not a word without digits. -/
theorem text_ne_word {x : Finite64} {word : String} (h : word.toList.any Char.isDigit = false) :
    Binary64.text (.finite x) ≠ word := by
  rintro rfl
  simp [(Binary64.isFloatText_text x).digit] at h

/-- Data and running text have different words for what is no number, but tell the same floats
apart. -/
theorem floatText_eq_iff (x y : Binary64) : floatText x = floatText y ↔ x.text = y.text := by
  cases x with
  | finite x =>
    cases y with
    | finite y => rfl
    | nan => exact iff_of_false (text_ne_word rfl) (text_ne_word rfl)
    | infinite negative =>
      cases negative <;> exact iff_of_false (text_ne_word rfl) (text_ne_word rfl)
  | nan =>
    cases y with
    | finite y => exact iff_of_false (text_ne_word rfl).symm (text_ne_word rfl).symm
    | nan => decide
    | infinite negative => cases negative <;> decide
  | infinite negative =>
    cases y with
    | finite y =>
      cases negative <;> exact iff_of_false (text_ne_word rfl).symm (text_ne_word rfl).symm
    | nan => cases negative <;> decide
    | infinite other => cases negative <;> cases other <;> decide

theorem text_ne_floatText (n : Int) (x : Binary64) : Integer.text n ≠ floatText x := by
  cases x with
  | nan => exact Integer.text_ne_of_mem (c := 'N') (by decide) (by decide) rfl
  | infinite negative =>
    cases negative <;> exact Integer.text_ne_of_mem (c := 'I') (by decide) (by decide) rfl
  | finite x =>
    obtain ⟨c, hc, hmark⟩ := List.any_eq_true.mp (Binary64.isFloatText_text x).mark
    simp only [isMark, Bool.or_eq_true, beq_iff_eq] at hmark
    rcases hmark with rfl | rfl <;> exact Integer.text_ne_of_mem hc (by decide) rfl

theorem text_ne_null (n : Int) : Integer.text n ≠ "null" :=
  Integer.text_ne_of_mem (c := 'n') (by decide) (by decide) rfl

theorem text_ne_boolText (n : Int) (b : Bool) : Integer.text n ≠ boolText b := by
  cases b <;> exact Integer.text_ne_of_mem (c := 'e') (by decide) (by decide) rfl

theorem floatText_ne_null (x : Binary64) : floatText x ≠ "null" := by
  cases x with
  | nan => decide
  | infinite negative => cases negative <;> decide
  | finite x => exact text_ne_word rfl

theorem floatText_ne_boolText (x : Binary64) (b : Bool) : floatText x ≠ boolText b := by
  cases x with
  | nan => cases b <;> decide
  | infinite negative => cases negative <;> cases b <;> decide
  | finite x => cases b <;> exact text_ne_word rfl

theorem boolText_ne_null (b : Bool) : boolText b ≠ "null" := by
  cases b <;> decide

theorem boolText_eq_iff {a b : Bool} : boolText a = boolText b ↔ a = b := by
  cases a <;> cases b <;> decide

end Json

end DataSchema
