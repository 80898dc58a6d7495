/-!
Words in small letters and digits, joined by single underscores.
-/

namespace DataSchema.Text

def isSnakeChar (c : Char) : Bool := c.isLower || c.isDigit

/-- Reads the rest of a word; `begun` says whether the current part has a character yet. -/
def snakeRest : (begun : Bool) → List Char → Bool
  | begun, [] => begun
  | begun, c :: rest =>
    if c = '_' then begun && snakeRest false rest else isSnakeChar c && snakeRest true rest

/-- One line break at the end is let pass. -/
def isLowerSnake (word : String) : Bool :=
  let text := word.toList
  snakeRest false (if text.getLast? = some '\n' then text.dropLast else text)

end DataSchema.Text
