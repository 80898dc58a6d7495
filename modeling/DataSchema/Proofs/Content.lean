import DataSchema.Proofs.Numeral
import Mathlib.Data.List.Sort
import Mathlib.Data.String.Basic

/-!
The content of data: what there is to be read in a canonical text. A text has one content, because
every part of it can be told from what follows.
-/

namespace DataSchema.Json

/-- What is written without quotes. -/
@[ext]
structure Word where
  text : String
  isToken : IsToken text

/-- What a text says: words, numbers among them, and texts, in sequences and under names. -/
inductive Content where
  | word (word : Word)
  | string (text : String)
  | sequence (items : List Content)
  | mapping (entries : List (String × Content))

namespace Content

mutual

def text : Content → String
  | word w => w.text
  | string s => quote s
  | sequence items => sequenceText (texts items)
  | mapping entries => "\x7b" ++ ",".intercalate (entryTexts entries) ++ "\x7d"
termination_by structural content => content

def texts : List Content → List String
  | [] => []
  | content :: contents => text content :: texts contents
termination_by structural contents => contents

def entryTexts : List (String × Content) → List String
  | [] => []
  | (name, content) :: entries => (quote name ++ ":" ++ text content) :: entryTexts entries
termination_by structural entries => entries

end

/-- The text of an entry of a mapping. -/
def entryText (entry : String × Content) : String := quote entry.1 ++ ":" ++ entry.2.text

theorem texts_eq_map (contents : List Content) : texts contents = contents.map text := by
  induction contents with
  | nil => rfl
  | cons content contents ih => rw [texts, ih, List.map_cons]

theorem entryTexts_eq_map (entries : List (String × Content)) :
    entryTexts entries = entries.map entryText := by
  induction entries with
  | nil => rfl
  | cons entry entries ih => rw [entryTexts, ih, List.map_cons, entryText]

end Content

/-! ### Quoted texts -/

def hexValue (c : Char) : Nat := if c.isDigit then c.toNat - 48 else c.toNat - 87

theorem hexValue_hexDigit : ∀ n < 16, hexValue (Text.hexDigit n) = n := by decide

/-- The character that an escape stands for, other than one by its code. -/
def unescaped (c : Char) : Char :=
  if c = 'b' then '\x08'
  else if c = 't' then '\t'
  else if c = 'n' then '\n'
  else if c = 'f' then '\x0c'
  else if c = 'r' then '\r'
  else c

/-- The first character of what is left of a quoted text, unless the text ends there. -/
def unescape? : List Char → Option (Char × List Char)
  | '\\' :: 'u' :: _ :: _ :: high :: low :: rest =>
    some (Char.ofNat (16 * hexValue high + hexValue low), rest)
  | '\\' :: c :: rest => some (unescaped c, rest)
  | '\x22' :: _ => none
  | c :: rest => some (c, rest)
  | [] => none

/-- Controls are written with the two last digits of four. -/
theorem hex_of_control {n : Nat} (h : n < 0x20) : ∃ first second, Text.hex 4 n =
    [first, second, Text.hexDigit (n / 16), Text.hexDigit (n % 16)] := by
  have hhigh : n / 16 % 16 = n / 16 := by omega
  refine ⟨Text.hexDigit (n / 16 / 16 / 16 % 16), Text.hexDigit (n / 16 / 16 % 16), ?_⟩
  simp only [Text.hex, List.nil_append, List.cons_append, hhigh]

theorem unescape?_escape (c : Char) (rest : List Char) :
    unescape? (escape c ++ rest) = some (c, rest) := by
  unfold escape
  by_cases hcontrol : c.toNat < 0x20
  · obtain ⟨first, second, hhex⟩ := hex_of_control hcontrol
    have hcode : 16 * hexValue (Text.hexDigit (c.toNat / 16)) +
        hexValue (Text.hexDigit (c.toNat % 16)) = c.toNat := by
      rw [hexValue_hexDigit _ (by omega), hexValue_hexDigit _ (by omega)]
      omega
    split_ifs
    all_goals try (subst c; rfl)
    simp only [hhex, List.cons_append, List.nil_append, unescape?, hcode, Char.ofNat_toNat]
  · split_ifs with _ hbackslash
    case neg => simp [unescape?, hbackslash]
    all_goals
      subst c
      rfl

/-- What is quoted can be told from what follows. -/
theorem eq_of_escaped {s t rest rest' : List Char}
    (h : s.flatMap escape ++ '\x22' :: rest = t.flatMap escape ++ '\x22' :: rest') :
    s = t ∧ rest = rest' := by
  have hend (rest : List Char) : unescape? ('\x22' :: rest) = none := rfl
  induction s generalizing t with
  | nil =>
    cases t with
    | nil => exact ⟨rfl, (List.cons.inj h).2⟩
    | cons d t => simpa [hend, unescape?_escape] using congrArg unescape? h
  | cons c s ih =>
    cases t with
    | nil => simpa [hend, unescape?_escape] using congrArg unescape? h
    | cons d t =>
      obtain ⟨rfl, hrest⟩ : c = d ∧ s.flatMap escape ++ '\x22' :: rest =
          t.flatMap escape ++ '\x22' :: rest' := by
        simpa [unescape?_escape] using congrArg unescape? h
      obtain ⟨rfl, rfl⟩ := ih hrest
      exact ⟨rfl, rfl⟩

theorem eq_of_quoted {s t : String} {rest rest' : List Char}
    (h : (quote s).toList ++ rest = (quote t).toList ++ rest') : s = t ∧ rest = rest' := by
  simp only [quote, String.toList_ofList, List.append_assoc, List.cons_append,
    List.nil_append, List.cons.injEq, true_and] at h
  obtain ⟨hs, hrest⟩ := eq_of_escaped h
  exact ⟨String.toList_injective hs, hrest⟩

/-! ### What can be told from what follows -/

/-- A text in which nothing goes on that came before. -/
def Ends (rest : List Char) : Prop := ∀ c ∈ rest.head?, isTokenChar c = false

theorem ends_cons {c : Char} (hc : isTokenChar c = false) (rest : List Char) :
    Ends (c :: rest) := by
  rintro d hd
  obtain rfl := Option.some.inj hd
  exact hc

theorem eq_of_words {w w' : Word} {rest rest' : List Char} (hrest : Ends rest)
    (hrest' : Ends rest') (h : w.text.toList ++ rest = w'.text.toList ++ rest') :
    w = w' ∧ rest = rest' := by
  have hspan {w : Word} {rest : List Char} (hrest : Ends rest) :
      (w.text.toList ++ rest).takeWhile isTokenChar = w.text.toList := by
    rw [List.takeWhile_append_of_pos (List.all_eq_true.mp w.isToken.all)]
    cases rest with
    | nil => simp
    | cons c rest => simp [hrest c rfl]
  have htext : w.text.toList = w'.text.toList := by
    rw [← hspan hrest, h, hspan hrest']
  obtain rfl : w = w' := Word.ext (String.toList_injective htext)
  exact ⟨rfl, List.append_cancel_left h⟩

section Separated

variable {α : Type} {text : α → String}

/-- A text that is of nothing else, and can be told from what follows. -/
def ReadsBack (text : α → String) (a : α) : Prop :=
  ∀ b rest rest', Ends rest → Ends rest' →
    (text a).toList ++ rest = (text b).toList ++ rest' → a = b ∧ rest = rest'

/-- What follows the first of texts with commas between them. -/
def remaining (text : α → String) (close : Char) : List α → List Char → List Char
  | [], rest => close :: rest
  | a :: as, rest => ',' :: ((text a).toList ++ remaining text close as rest)

theorem toList_intercalate_cons (text : α → String) (close : Char) (a : α) (as : List α)
    (rest : List Char) : (",".intercalate ((a :: as).map text)).toList ++ close :: rest =
      (text a).toList ++ remaining text close as rest := by
  induction as generalizing a with
  | nil => simp [remaining]
  | cons b as ih =>
    have hrest := ih b
    simp only [List.map_cons] at hrest
    simp only [List.map_cons, String.intercalate_cons_cons, String.toList_append, List.append_assoc,
      hrest, remaining]
    rfl

variable {close : Char}

theorem ends_remaining (hclose : isTokenChar close = false) (as : List α) (rest : List Char) :
    Ends (remaining text close as rest) := by
  cases as with
  | nil => exact ends_cons hclose rest
  | cons a as => exact ends_cons rfl _

theorem eq_of_remaining (hclose : isTokenChar close = false) (hcomma : close ≠ ',')
    {as bs : List α} (has : ∀ a ∈ as, ReadsBack text a) {rest rest' : List Char}
    (h : remaining text close as rest = remaining text close bs rest') :
    as = bs ∧ rest = rest' := by
  induction as generalizing bs with
  | nil =>
    cases bs with
    | nil => exact ⟨rfl, (List.cons.inj h).2⟩
    | cons b bs => exact absurd (List.cons.inj h).1 hcomma
  | cons a as ih =>
    cases bs with
    | nil => exact absurd (List.cons.inj h).1.symm hcomma
    | cons b bs =>
      obtain ⟨rfl, hrest⟩ := has a List.mem_cons_self b _ _ (ends_remaining hclose as rest)
        (ends_remaining hclose bs rest') (List.cons.inj h).2
      obtain ⟨rfl, rfl⟩ := ih (fun a ha => has a (List.mem_cons_of_mem _ ha)) hrest
      exact ⟨rfl, rfl⟩

/-- A sequence of texts can be told from what follows if each of them can, and none of them begins
like the end. -/
theorem eq_of_separated (hclose : isTokenChar close = false) (hcomma : close ≠ ',')
    (hfirst : ∀ a, ∃ c cs, (text a).toList = c :: cs ∧ c ≠ close)
    {as bs : List α} (has : ∀ a ∈ as, ReadsBack text a) {rest rest' : List Char}
    (h : (",".intercalate (as.map text)).toList ++ close :: rest =
      (",".intercalate (bs.map text)).toList ++ close :: rest') : as = bs ∧ rest = rest' := by
  have hopen (a : α) (as : List α) (rest rest' : List Char) :
      (text a).toList ++ remaining text close as rest ≠ close :: rest' := by
    obtain ⟨c, cs, htext, hne⟩ := hfirst a
    rw [htext]
    exact fun heq => hne (List.cons.inj heq).1
  cases as with
  | nil =>
    cases bs with
    | nil => simpa using h
    | cons b bs =>
      rw [toList_intercalate_cons] at h
      exact absurd h.symm (hopen b bs _ _)
  | cons a as =>
    cases bs with
    | nil =>
      rw [toList_intercalate_cons] at h
      exact absurd h (hopen a as _ _)
    | cons b bs =>
      rw [toList_intercalate_cons, toList_intercalate_cons] at h
      exact eq_of_remaining hclose hcomma has (congrArg (',' :: ·) h)

end Separated

/-! ### Contents -/

namespace Content

/-- What a content opens with that is no word. -/
def opening : Content → Option Char
  | word _ => none
  | string _ => some '\x22'
  | sequence _ => some '['
  | mapping _ => some '\x7b'

theorem toList_text (content : Content) : ∃ c rest, content.text.toList = c :: rest ∧
    content.opening = if isTokenChar c then none else some c := by
  cases content with
  | word w =>
    obtain ⟨hall, hnil⟩ := w.isToken
    obtain ⟨c, rest, htext⟩ := List.exists_cons_of_ne_nil hnil
    have hc : isTokenChar c = true := List.all_eq_true.mp hall c (htext ▸ List.mem_cons_self)
    exact ⟨c, rest, htext, (if_pos hc).symm⟩
  | string s => exact ⟨_, _, String.toList_ofList, rfl⟩
  | sequence items => exact ⟨'[', _, by simp [text, sequenceText]; rfl, rfl⟩
  | mapping entries => exact ⟨'\x7b', _, by simp [text]; rfl, rfl⟩

/-- What is written alike opens alike. -/
theorem opening_eq {a b : Content} {rest rest' : List Char}
    (h : a.text.toList ++ rest = b.text.toList ++ rest') : a.opening = b.opening := by
  obtain ⟨c, _, hc, hopening⟩ := a.toList_text
  obtain ⟨d, _, hd, hopening'⟩ := b.toList_text
  rw [hc, hd] at h
  rw [hopening, hopening', (List.cons.inj h).1]

theorem not_closed (content : Content) {close : Char} (h : close ∈ [']', '\x7d']) :
    ∃ c rest, content.text.toList = c :: rest ∧ c ≠ close := by
  obtain ⟨c, rest, htext, hopening⟩ := content.toList_text
  refine ⟨c, rest, htext, ?_⟩
  rintro rfl
  simp only [List.mem_cons, List.not_mem_nil, or_false] at h
  rcases h with rfl | rfl
  all_goals
    rw [if_neg (by decide)] at hopening
    cases content <;> simp [opening] at hopening

theorem toList_sequence (items : List Content) (rest : List Char) :
    (sequence items).text.toList ++ rest =
      '[' :: ((",".intercalate (items.map text)).toList ++ ']' :: rest) := by
  simp [text, sequenceText, texts_eq_map]

theorem toList_mapping (entries : List (String × Content)) (rest : List Char) :
    (mapping entries).text.toList ++ rest =
      '\x7b' :: ((",".intercalate (entries.map entryText)).toList ++ '\x7d' :: rest) := by
  simp [text, entryTexts_eq_map]

theorem opens_entryText (entry : String × Content) :
    ∃ c rest, (entryText entry).toList = c :: rest ∧ c ≠ '\x7d' :=
  ⟨'\x22', _, by simp [entryText, quote]; rfl, by decide⟩

theorem readsBack_entryText {entry : String × Content} (h : ReadsBack text entry.2) :
    ReadsBack entryText entry := by
  rintro ⟨name, content⟩ rest rest' hrest hrest' heq
  simp only [entryText, String.toList_append, List.append_assoc] at heq
  obtain ⟨hname, hcontent⟩ := eq_of_quoted heq
  obtain ⟨hsame, rfl⟩ := h content rest rest' hrest hrest' (List.cons.inj hcontent).2
  exact ⟨Prod.ext hname hsame, rfl⟩

mutual

/-- A text has one content. -/
theorem readsBack (content : Content) : ReadsBack text content := by
  intro other rest rest' hrest hrest' h
  have hopening := opening_eq h
  cases content with
  | word w =>
    cases other with
    | word w' =>
      obtain ⟨rfl, rfl⟩ := eq_of_words hrest hrest' h
      exact ⟨rfl, rfl⟩
    | _ => simp [opening] at hopening
  | string s =>
    cases other with
    | string t =>
      obtain ⟨rfl, rfl⟩ := eq_of_quoted h
      exact ⟨rfl, rfl⟩
    | _ => simp [opening] at hopening
  | sequence items =>
    cases other with
    | sequence items' =>
      rw [toList_sequence, toList_sequence] at h
      obtain ⟨rfl, rfl⟩ := eq_of_separated rfl (by decide) (fun a => a.not_closed (by decide))
        (readsBackAll items) (List.cons.inj h).2
      exact ⟨rfl, rfl⟩
    | _ => simp [opening] at hopening
  | mapping entries =>
    cases other with
    | mapping entries' =>
      rw [toList_mapping, toList_mapping] at h
      obtain ⟨rfl, rfl⟩ := eq_of_separated rfl (by decide)
        opens_entryText (readsBackEntries entries) (List.cons.inj h).2
      exact ⟨rfl, rfl⟩
    | _ => simp [opening] at hopening
termination_by structural content

theorem readsBackAll (items : List Content) : ∀ item ∈ items, ReadsBack text item := by
  cases items with
  | nil => exact fun _ h => absurd h List.not_mem_nil
  | cons item items => exact List.forall_mem_cons.mpr ⟨readsBack item, readsBackAll items⟩
termination_by structural items

theorem readsBackEntries (entries : List (String × Content)) :
    ∀ entry ∈ entries, ReadsBack entryText entry := by
  cases entries with
  | nil => exact fun _ h => absurd h List.not_mem_nil
  | cons entry entries =>
    exact List.forall_mem_cons.mpr
      ⟨readsBack_entryText (readsBack entry.2), readsBackEntries entries⟩
termination_by structural entries

end

theorem text_injective {a b : Content} (h : a.text = b.text) : a = b := by
  have hends : Ends [] := fun _ hc => absurd hc (by simp)
  exact (a.readsBack b [] [] hends hends (by rw [h])).1

end Content

end DataSchema.Json
