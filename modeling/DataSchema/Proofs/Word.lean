import DataSchema.Text.Class
import DataSchema.Text.Snake
import Mathlib.Data.List.Basic

/-!
Words as parts joined by single underscores. A text is such a word if its split at the underscores
has no other parts, and the reader of words finds the parts of that split one by one. Main
statement: what is accepted are these words, and these words with a line break after them; where
white space is taken off first, as it is from ids, they are accepted alone.
-/

namespace DataSchema.Text

/-- The small letters from a to z and the digits from 0 to 9. -/
def IsWordChar (c : Char) : Prop :=
  'a'.toNat ≤ c.toNat ∧ c.toNat ≤ 'z'.toNat ∨ '0'.toNat ≤ c.toNat ∧ c.toNat ≤ '9'.toNat

instance (c : Char) : Decidable (IsWordChar c) := inferInstanceAs (Decidable (_ ∨ _))

def IsWordPart (part : List Char) : Prop := part ≠ [] ∧ ∀ c ∈ part, IsWordChar c

instance (part : List Char) : Decidable (IsWordPart part) :=
  -- The characters of the part are gone through, not all characters that there are.
  let _ : Decidable (∀ c ∈ part, IsWordChar c) := part.decidableBAll _
  inferInstanceAs (Decidable (_ ∧ _))

/-- One part or more, joined by single underscores. -/
def IsWord (text : List Char) : Prop :=
  ∃ parts, parts ≠ [] ∧ (∀ part ∈ parts, IsWordPart part) ∧ text = ['_'].intercalate parts

theorem isSnakeChar_iff (c : Char) : isSnakeChar c = true ↔ IsWordChar c := by
  have hlower : c.isLower = (c.val ≥ 'a'.val && c.val ≤ 'z'.val) := rfl
  have hdigit : c.isDigit = (c.val ≥ '0'.val && c.val ≤ '9'.val) := rfl
  simp [isSnakeChar, IsWordChar, hlower, hdigit, UInt32.le_iff_toNat_le]

/-! ### Splits at underscores -/

theorem IsWordPart.underscore_notMem {part : List Char} (h : IsWordPart part) : '_' ∉ part :=
  fun hmem => absurd (h.2 '_' hmem) (by decide)

theorem splitOn_underscore_append (before after : List Char) :
    (before ++ '_' :: after).splitOn '_' = before.splitOn '_' ++ after.splitOn '_' :=
  List.splitOnP_append_cons before after rfl

theorem splitOn_underscore_cons {c : Char} (h : c ≠ '_') (text : List Char) :
    (c :: text).splitOn '_' = (text.splitOn '_').modifyHead (c :: ·) := by
  simp [List.splitOn, List.splitOnP_cons_eq_if_modifyHead, h]

/-- A word is told by its split. -/
theorem isWord_iff (text : List Char) :
    IsWord text ↔ ∀ part ∈ text.splitOn '_', IsWordPart part := by
  constructor
  · rintro ⟨parts, hne, hparts, rfl⟩
    rwa [List.splitOn_intercalate '_' (fun part h => (hparts part h).underscore_notMem) hne]
  · intro h
    exact ⟨_, List.splitOn_ne_nil _ _, h, (List.intercalate_splitOn '_').symm⟩

instance (text : List Char) : Decidable (IsWord text) :=
  decidable_of_iff _ (isWord_iff text).symm

theorem not_isWord_nil : ¬IsWord [] := by decide

/-- On both sides of each underscore stands a word, so there is none at either end and no two stand
side by side. -/
theorem isWord_append (before after : List Char) :
    IsWord (before ++ '_' :: after) ↔ IsWord before ∧ IsWord after := by
  simp only [isWord_iff, splitOn_underscore_append, List.forall_mem_append]

/-! ### The reader -/

/-- Whether the parts of a split end a word whose current part has begun or not. -/
def Completes (begun : Bool) : List (List Char) → Prop
  | [] => False
  | part :: parts => (begun = true ∨ part ≠ []) ∧ (∀ c ∈ part, IsWordChar c) ∧
      ∀ other ∈ parts, IsWordPart other

theorem completes_false_iff {parts : List (List Char)} (h : parts ≠ []) :
    Completes false parts ↔ ∀ part ∈ parts, IsWordPart part := by
  cases parts with
  | nil => contradiction
  | cons part parts => simp [Completes, IsWordPart, and_assoc]

theorem completes_modifyHead_iff (begun : Bool) (c : Char) (parts : List (List Char)) :
    Completes begun (parts.modifyHead (c :: ·)) ↔ IsWordChar c ∧ Completes true parts := by
  cases parts <;> simp [Completes, and_assoc]

theorem completes_nil_cons_iff (begun : Bool) (parts : List (List Char)) :
    Completes begun ([] :: parts) ↔ begun = true ∧ ∀ part ∈ parts, IsWordPart part := by
  simp [Completes]

theorem snakeRest_iff (begun : Bool) (text : List Char) :
    snakeRest begun text = true ↔ Completes begun (text.splitOn '_') := by
  induction text generalizing begun with
  | nil => simp [snakeRest, Completes]
  | cons c text ih =>
    by_cases hc : c = '_'
    · -- the part ends here, and the next one has no character yet
      subst hc
      have hsplit : ('_' :: text).splitOn '_' = [] :: text.splitOn '_' :=
        splitOn_underscore_append [] text
      rw [hsplit, completes_nil_cons_iff, ← completes_false_iff (List.splitOn_ne_nil _ _), ← ih]
      simp [snakeRest]
    · rw [splitOn_underscore_cons hc, completes_modifyHead_iff, ← ih, ← isSnakeChar_iff]
      simp [snakeRest, hc]

theorem snakeRest_false_iff (text : List Char) : snakeRest false text = true ↔ IsWord text := by
  rw [snakeRest_iff, completes_false_iff (List.splitOn_ne_nil _ _), isWord_iff]

theorem mem_of_snakeRest {begun : Bool} {text : List Char} (h : snakeRest begun text = true) :
    ∀ c ∈ text, c = '_' ∨ IsWordChar c := by
  induction text generalizing begun with
  | nil => simp
  | cons c text ih =>
    rw [List.forall_mem_cons]
    by_cases hc : c = '_'
    · simp only [snakeRest, hc, if_true, Bool.and_eq_true] at h
      exact ⟨.inl hc, ih h.2⟩
    · simp only [snakeRest, hc, if_false, Bool.and_eq_true, isSnakeChar_iff] at h
      exact ⟨.inr h.1, ih h.2⟩

theorem not_isWord_append_line_break (text : List Char) : ¬IsWord (text ++ ['\n']) := by
  intro h
  have hread := mem_of_snakeRest ((snakeRest_false_iff _).mpr h) '\n' (by simp)
  exact absurd hread (by decide)

/-- One line break at the end is let pass. -/
theorem isLowerSnake_iff (word : String) : isLowerSnake word = true ↔
    IsWord word.toList ∨ ∃ text, IsWord text ∧ word.toList = text ++ ['\n'] := by
  unfold isLowerSnake
  by_cases hlast : word.toList.getLast? = some '\n'
  · obtain ⟨text, htext⟩ := List.getLast?_eq_some_iff.mp hlast
    simp [htext, snakeRest_false_iff, not_isWord_append_line_break]
  · have hnone : ∀ text, word.toList ≠ text ++ ['\n'] := fun text htext =>
      hlast (List.getLast?_eq_some_iff.mpr ⟨text, htext⟩)
    simp [hlast, hnone, snakeRest_false_iff]

/-! ### Words without white space around them -/

theorem small_ne_line_break {c : Char} (h : c ≠ '\n') : small c ≠ '\n' := by
  unfold small Char.toLower
  split
  · decide
  · split
    · intro hsmall
      have hval := congrArg Char.val hsmall
      grind
    · exact h

theorem getLast?_trim_ne_line_break (text : List Char) : (trim text).getLast? ≠ some '\n' := by
  intro h
  rw [trim, List.getLast?_reverse] at h
  have hblank := List.head?_dropWhile_not isBlank (text.dropWhile isBlank).reverse
  rw [h] at hblank
  exact absurd hblank (by decide)

theorem isLowerSnake_plainWord_iff (word : String) :
    isLowerSnake (plainWord word) = true ↔ IsWord (plainWord word).toList := by
  rw [isLowerSnake_iff, or_iff_left]
  rintro ⟨text, -, htext⟩
  have hlast : ((trim word.toList).map small).getLast? = some '\n' :=
    List.getLast?_eq_some_iff.mpr ⟨text, by simpa [plainWord] using htext⟩
  rw [List.getLast?_map, Option.map_eq_some_iff] at hlast
  obtain ⟨c, hc, hsmall⟩ := hlast
  refine small_ne_line_break ?_ hsmall
  rintro rfl
  exact getLast?_trim_ne_line_break word.toList hc

/-! ### Main statement -/

/-- Just the words are accepted, unless a line break stands after one: then that is accepted too. Of
texts without white space around them, as ids are looked at, just the words are accepted. Each
underscore of a word has words on both sides, and nothing is no word. -/
theorem lower_snake_words (word : String) :
    ((isLowerSnake word = true ↔ IsWord word.toList) ↔
      ∀ text, IsWord text → word.toList ≠ text ++ ['\n']) ∧
    (isLowerSnake word = true ↔
      IsWord word.toList ∨ ∃ text, IsWord text ∧ word.toList = text ++ ['\n']) ∧
    (isLowerSnake (plainWord word) = true ↔ IsWord (plainWord word).toList) ∧
    (∀ before after, IsWord (before ++ '_' :: after) ↔ IsWord before ∧ IsWord after) ∧
    ¬IsWord [] := by
  have haccepted := isLowerSnake_iff word
  refine ⟨⟨?_, ?_⟩, haccepted, isLowerSnake_plainWord_iff word, isWord_append, not_isWord_nil⟩
  · intro h text htext hword
    refine not_isWord_append_line_break text ?_
    rw [← hword]
    exact h.mp (haccepted.mpr (.inr ⟨text, htext, hword⟩))
  · intro h
    rw [haccepted, or_iff_left]
    rintro ⟨text, htext, hword⟩
    exact h text htext hword

/-- A word is accepted with a line break at its end, which is no word. -/
theorem line_break_is_let_pass : isLowerSnake "a\n" = true ∧ ¬IsWord "a\n".toList := by
  decide

end DataSchema.Text
