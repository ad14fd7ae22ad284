import Downhill.Toml.Literal
import Downhill.Toml.Scan

/-! # Quoted texts

Basic texts know escapes, literal ones do not; either kind may run over several lines when its
quotes are tripled.
-/

namespace Downhill.Toml.Quoted

/-! ## Characters -/

/-- Characters that stand for themselves in a literal text, its quotes apart. -/
def isPlain (c : Char) : Bool := c == '\t' || (' ' ≤ c && c != '\x7f')

/-- The character with a number, if there is one. -/
def charOf (n : Nat) : Option Char := if n.isValidChar then some (Char.ofNat n) else none

/-- A character given by its number in hexadecimal digits. -/
def numbered (digits : List Char) : Option Char :=
  if digits.all Literal.isHexadecimal then charOf (Literal.natural 16 digits) else none

/-- The character that an escape stands for, after the backslash. -/
def escape : Scan Char
  | 'b' :: cs => some ('\x08', cs)
  | 't' :: cs => some ('\t', cs)
  | 'n' :: cs => some ('\n', cs)
  | 'f' :: cs => some ('\x0c', cs)
  | 'r' :: cs => some ('\r', cs)
  | '"' :: cs => some ('"', cs)
  | '\\' :: cs => some ('\\', cs)
  | 'u' :: a :: b :: c :: d :: cs => (numbered [a, b, c, d]).map fun x => (x, cs)
  | 'U' :: a :: b :: c :: d :: e :: f :: g :: h :: cs =>
      (numbered [a, b, c, d, e, f, g, h]).map fun x => (x, cs)
  | _ => none

/-! ## One line -/

/-- Take a piece of a basic text; the closing quote is the last one. -/
def basicPiece : Scan (List Char × Bool)
  | '"' :: cs => some (([], false), cs)
  | '\\' :: cs => (escape cs).map fun (x, cs) => (([x], true), cs)
  | c :: cs => if isPlain c then some (([c], true), cs) else none
  | [] => none

def literalPiece : Scan (List Char × Bool)
  | '\'' :: cs => some (([], false), cs)
  | c :: cs => if isPlain c then some (([c], true), cs) else none
  | [] => none

/-! ## Several lines -/

/-- Three quotes end a text; up to two more before them belong to it. -/
def closing (quote : Char) (cs : List Char) : (List Char × Bool) × List Char :=
  let extra := (cs.takeWhile fun c => c == quote).take 2
  ((extra, false), cs.drop extra.length)

def isBlankOrBreak (c : Char) : Bool := Scan.isBlank c || c == '\n'

/-- Drop blanks and line breaks. -/
def dropSpace : List Char → List Char
  | '\r' :: '\n' :: cs => dropSpace cs
  | c :: cs => if isBlankOrBreak c then dropSpace cs else c :: cs
  | [] => []

/-- A backslash at the end of a line swallows the space up to the next text. -/
def lineFold (cs : List Char) : Option (List Char) :=
  match cs.dropWhile Scan.isBlank with
  | '\n' :: rest => some (dropSpace rest)
  | '\r' :: '\n' :: rest => some (dropSpace rest)
  | _ => none

def longBasicPiece : Scan (List Char × Bool)
  | '"' :: '"' :: '"' :: cs => some (closing '"' cs)
  | '"' :: cs => some ((['"'], true), cs)
  | '\\' :: cs =>
      match lineFold cs with
      | some cs => some (([], true), cs)
      | none => (escape cs).map fun (x, cs) => (([x], true), cs)
  | '\r' :: '\n' :: cs => some ((['\n'], true), cs)
  | '\n' :: cs => some ((['\n'], true), cs)
  | c :: cs => if isPlain c then some (([c], true), cs) else none
  | [] => none

def longLiteralPiece : Scan (List Char × Bool)
  | '\'' :: '\'' :: '\'' :: cs => some (closing '\'' cs)
  | '\'' :: cs => some ((['\''], true), cs)
  | '\r' :: '\n' :: cs => some ((['\n'], true), cs)
  | '\n' :: cs => some ((['\n'], true), cs)
  | c :: cs => if isPlain c then some (([c], true), cs) else none
  | [] => none

/-- A line break right after the opening quotes is not part of the text. -/
def dropBreak : List Char → List Char
  | '\n' :: cs => cs
  | '\r' :: '\n' :: cs => cs
  | cs => cs

/-! ## Whole texts -/

/-- Put the pieces of a text together. -/
def pieces (piece : Scan (List Char × Bool)) : Scan String := do
  return String.ofList (← Scan.repeated piece).flatten

/-- A text on one line, from its opening quote on. -/
def short : Scan String
  | '"' :: cs => pieces basicPiece cs
  | '\'' :: cs => pieces literalPiece cs
  | _ => none

/-- A text of either length, from its opening quote on. -/
def text : Scan String
  | '"' :: '"' :: '"' :: cs => pieces longBasicPiece (dropBreak cs)
  | '\'' :: '\'' :: '\'' :: cs => pieces longLiteralPiece (dropBreak cs)
  | cs => short cs

end Downhill.Toml.Quoted
