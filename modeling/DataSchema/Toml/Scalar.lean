import DataSchema.Number.Shortest
import DataSchema.Number.Integer
import DataSchema.Value

/-!
Single values of a settings document: quoted texts, numbers, truth values and dates. A reader takes
a value off the front of the text and returns it with the rest, or nothing if there is none. A value
may also be there and have too many digits to be read, or hold too many others within each other,
which ends the reading.
-/

namespace DataSchema.Toml

/-- Why a document is not read. -/
inductive Fault where
  | malformed
  | numberTooLong
  | tooDeep

abbrev Reader (α : Type) := List Char → Option (α × List Char)

/-- A reader that tells the faults apart. -/
abbrev Parser (α : Type) := List Char → Except Fault (α × List Char)

/-- What is not there is malformed. -/
def present {α : Type} : Option α → Except Fault α
  | some a => .ok a
  | none => .error .malformed

def isSpace (c : Char) : Bool := c == ' ' || c == '\t'

/-- Controls other than the tab stand nowhere in a document; line breaks only between lines. -/
def isControl (c : Char) : Bool := (c.toNat < 0x20 && c != '\t') || c.toNat == 0x7F

def hexValue? (c : Char) : Option Nat :=
  if c.isDigit then some (c.toNat - 48)
  else if 'a' ≤ c && c ≤ 'f' then some (c.toNat - 87)
  else if 'A' ≤ c && c ≤ 'F' then some (c.toNat - 55)
  else none

def hexNumber? (digits : List Char) : Option Nat :=
  digits.foldlM (fun n c => (hexValue? c).map (16 * n + ·)) 0

/-- A character by its code point, which is no surrogate. -/
def charOf? (digits : List Char) : Option Char := do
  let n ← hexNumber? digits
  if n < 0xD800 || (0xDFFF < n && n < 0x110000) then some (Char.ofNat n) else none

/-- The escapes of one character. -/
def plainEscape? : Char → Option Char
  | 'b' => some '\x08'
  | 't' => some '\t'
  | 'n' => some '\n'
  | 'f' => some '\x0c'
  | 'r' => some '\r'
  | '\x22' => some '\x22'
  | '\\' => some '\\'
  | _ => none

/-- The rest of a text in double quotes, in which a backslash begins an escape. -/
def basicRest : Reader (List Char)
  | [] => none
  | '\x22' :: rest => some ([], rest)
  | '\\' :: 'u' :: a :: b :: c :: d :: rest => do
    let (text, rest) ← basicRest rest
    return ((← charOf? [a, b, c, d]) :: text, rest)
  | '\\' :: 'U' :: a :: b :: c :: d :: e :: f :: g :: h :: rest => do
    let (text, rest) ← basicRest rest
    return ((← charOf? [a, b, c, d, e, f, g, h]) :: text, rest)
  | '\\' :: c :: rest => do
    let (text, rest) ← basicRest rest
    return ((← plainEscape? c) :: text, rest)
  | c :: rest => do
    if isControl c then failure
    let (text, rest) ← basicRest rest
    return (c :: text, rest)

/-- The rest of a text in single quotes, which stands as it is. -/
def literalRest : Reader (List Char)
  | [] => none
  | '\x27' :: rest => some ([], rest)
  | c :: rest => do
    if isControl c then failure
    let (text, rest) ← literalRest rest
    return (c :: text, rest)

def text? : Reader String
  | '\x22' :: rest => (basicRest rest).map fun (text, rest) => (String.ofList text, rest)
  | '\x27' :: rest => (literalRest rest).map fun (text, rest) => (String.ofList text, rest)
  | _ => none

/-- Digits with single underscores between them, without the underscores. -/
def digitRun (isDigit : Char → Bool) : List Char → List Char × List Char
  | '_' :: c :: rest =>
    if isDigit c then
      let (digits, tail) := digitRun isDigit rest
      (c :: digits, tail)
    else ([], '_' :: c :: rest)
  | c :: rest =>
    if isDigit c then
      let (digits, tail) := digitRun isDigit rest
      (c :: digits, tail)
    else ([], c :: rest)
  | [] => ([], [])

/-- One digit and the run after it. -/
def digits? (isDigit : Char → Bool) : Reader (List Char)
  | c :: rest =>
    if isDigit c then
      let (digits, tail) := digitRun isDigit rest
      some (c :: digits, tail)
    else none
  | [] => none

def isBase (base : Nat) (c : Char) : Bool := (hexValue? c).any (· < base)

/-- Whole numbers in another base than ten. They have no sign. -/
def basedNumber? : Reader Int
  | '0' :: mark :: rest => do
    let base ← match mark with
      | 'x' => some 16
      | 'o' => some 8
      | 'b' => some 2
      | _ => none
    let (digits, tail) ← digits? (isBase base) rest
    let n := digits.foldl (fun n c => base * n + (hexValue? c).getD 0) 0
    return ((n : Int), tail)
  | _ => none

/-- Digits without a zero in front of others. -/
def whole? : Reader (List Char)
  | '0' :: rest => some (['0'], rest)
  | text => digits? Char.isDigit text

def places? : Reader (List Char)
  | '.' :: rest => digits? Char.isDigit rest
  | _ => none

def exponent? : Reader Int
  | mark :: rest => do
    if mark != 'e' && mark != 'E' then failure
    let (negative, rest) := Scientific.splitSign rest
    let (digits, tail) ← digits? Char.isDigit rest
    let n : Int := Scientific.ofDigits digits
    return (if negative then -n else n, tail)
  | [] => none

/-- A decimal number: whole without places and exponent, else a float. Whole numbers have a bound on
their digits. -/
def decimalNumber? (source : List Char) : Option (Except Fault Value × List Char) := do
  let (negative, rest) := Scientific.splitSign source
  let (whole, rest) ← whole? rest
  let found := places? rest
  let (places, afterPlaces) := found.getD ([], rest)
  match found, exponent? afterPlaces with
  | none, none =>
    let n : Int := Scientific.ofDigits whole
    let v := Value.int (if negative then -n else n)
    return (if whole.length ≤ Integer.maxDigits then .ok v else .error .numberTooLong, rest)
  | _, scaled =>
    let (exponent, tail) := scaled.getD (0, afterPlaces)
    let coefficient := Scientific.ofDigits (whole ++ places)
    return (.ok (.float (.ofDecimal negative coefficient (exponent - places.length))), tail)

def specialNumber? (source : List Char) : Option (Value × List Char) :=
  let (negative, rest) := Scientific.splitSign source
  match rest with
  | 'i' :: 'n' :: 'f' :: tail => some (.float (.infinite negative), tail)
  | 'n' :: 'a' :: 'n' :: tail => some (.float .nan, tail)
  | _ => none

def isLeap (year : Nat) : Bool := (year % 4 == 0 && year % 100 != 0) || year % 400 == 0

def daysIn (year month : Nat) : Nat :=
  if month = 2 then (if isLeap year then 29 else 28)
  else if [4, 6, 9, 11].contains month then 30 else 31

def dateText (year month day : Nat) : String :=
  Text.bracketCall "datetime.date" [Nat.repr year, Nat.repr month, Nat.repr day]

/-- Whether the text begins like a date: four, two and two digits with hyphens between them. -/
def beginsDate (source : List Char) : Bool :=
  (source.take 10).map (fun c => if c.isDigit then '0' else c) == "0000-00-00".toList

/-- A date of the calendar, from year one on. -/
def date? (source : List Char) : Option (Value × List Char) := do
  if !beginsDate source then failure
  let number := fun (start count : Nat) => Scientific.ofDigits ((source.drop start).take count)
  let (year, month, day) := (number 0 4, number 5 2, number 8 2)
  if year = 0 || month = 0 || 12 < month || day = 0 || daysIn year month < day then failure
  return (.foreign "date" (dateText year month day) 0, source.drop 10)

/-- A value that is neither an array nor a table. -/
def scalar? (source : List Char) : Option (Except Fault Value × List Char) :=
  let read := fun (found : Value × List Char) => (Except.ok found.1, found.2)
  match source with
  | '\x22' :: _ | '\x27' :: _ => (text? source).map fun (s, rest) => (.ok (.string s), rest)
  | 't' :: 'r' :: 'u' :: 'e' :: rest => some (.ok (.bool true), rest)
  | 'f' :: 'a' :: 'l' :: 's' :: 'e' :: rest => some (.ok (.bool false), rest)
  | _ =>
    if beginsDate source then (date? source).map read
    else ((basedNumber? source).map fun (n, rest) => (.ok (.int n), rest)) <|>
      decimalNumber? source <|> (specialNumber? source).map read

/-- Reads a single value. -/
def parseScalar : Parser Value := fun source => do
  let (v, rest) ← present (scalar? source)
  return (← v, rest)

end DataSchema.Toml
