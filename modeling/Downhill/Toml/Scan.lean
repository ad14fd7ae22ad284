/-! # Scanning

A scanner takes characters from the front of a text and answers with what it has read, or refuses.
-/

namespace Downhill.Toml

abbrev Scan (β : Type) := StateT (List Char) Option β

namespace Scan

variable {β : Type}

/-- The next character, left in place. -/
def peek : Scan (Option Char) := fun cs => some (cs.head?, cs)

/-- What is left of the text, left in place. -/
def rest : Scan (List Char) := fun cs => some (cs, cs)

/-- Take exactly this character. -/
def char (c : Char) : Scan Unit
  | d :: cs => if c == d then some ((), cs) else none
  | [] => none

/-- Take the longest run of characters of a class. -/
def run (p : Char → Bool) : Scan (List Char) := fun cs => some (cs.takeWhile p, cs.dropWhile p)

/-- Repeat a scanner for as long as it asks for more, at most `n` times. -/
def times (step : Scan (β × Bool)) : Nat → Scan (List β)
  | 0 => failure
  | n + 1 => do
      let (first, more) ← step
      if more then return first :: (← times step n) else return [first]

/-- Repeat a scanner, which takes at least one character, for as long as it asks for more. -/
def repeated (step : Scan (β × Bool)) : Scan (List β) := fun cs => times step (cs.length + 1) cs

/-! ## Space between tokens -/

def isBlank (c : Char) : Bool := c == ' ' || c == '\t'

def blanks : Scan Unit := do
  let _ ← run isBlank

/-- Characters that comments may hold. -/
def isCommentChar (c : Char) : Bool := c == '\t' || (' ' ≤ c && c != '\x7f')

/-- A line break, or the end of the text. -/
def lineEnd : Scan Unit
  | [] => some ((), [])
  | '\n' :: cs => some ((), cs)
  | '\r' :: '\n' :: cs => some ((), cs)
  | _ => none

/-- A comment, if there is one, up to the end of its line. -/
def comment : Scan Unit := do
  match ← peek with
  | some '#' => let _ ← run isCommentChar
  | _ => return ()

/-- What may follow a statement on its line. -/
def trailing : Scan Unit := do
  blanks
  comment
  lineEnd

/-- Take one blank line or the rest of one, if there is any. -/
def spaceLine : Scan (Unit × Bool) := do
  blanks
  match ← rest with
  | '#' :: _ => trailing; return ((), true)
  | '\n' :: _ => lineEnd; return ((), true)
  | '\r' :: _ => lineEnd; return ((), true)
  | _ => return ((), false)

/-- Take blanks, comments and line breaks. -/
def space : Scan Unit := do
  let _ ← repeated spaceLine

end Scan

end Downhill.Toml
