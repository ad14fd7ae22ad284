import Downhill.Decimal.Reading
import Downhill.Toml.Item

/-! # Plain literals

Numbers, booleans, dates and times are written without quotes. A literal is read as a whole from
the characters that can belong to one.
-/

namespace Downhill.Toml.Literal

/-! ## Digits -/

def isBinary (c : Char) : Bool := c == '0' || c == '1'

def isOctal (c : Char) : Bool := '0' ≤ c && c ≤ '7'

def isHexadecimal (c : Char) : Bool :=
  c.isDigit || ('a' ≤ c && c ≤ 'f') || ('A' ≤ c && c ≤ 'F')

def digitValue (c : Char) : Nat :=
  if c.isDigit then c.toNat - 48
  else if 'a' ≤ c then c.toNat - 87
  else c.toNat - 55

/-- One or more digits, with single underscores between them taken out. -/
def ungroup (isDigit : Char → Bool) : List Char → Option (List Char)
  | [] => none
  | [c] => if isDigit c then some [c] else none
  | c :: '_' :: rest => if isDigit c then (ungroup isDigit rest).map (c :: ·) else none
  | c :: rest => if isDigit c then (ungroup isDigit rest).map (c :: ·) else none

def natural (base : Nat) (digits : List Char) : Nat :=
  digits.foldl (fun n c => n * base + digitValue c) 0

/-- Decimal digits without a leading zero. -/
def wholePart (cs : List Char) : Option (List Char) :=
  match ungroup Char.isDigit cs with
  | some ('0' :: _ :: _) => none
  | digits => digits

/-- Split off a sign; the flag tells whether it is a minus. -/
def sign : List Char → Bool × List Char
  | '+' :: cs => (false, cs)
  | '-' :: cs => (true, cs)
  | cs => (false, cs)

/-! ## Integers -/

/-- Integers have 64 bits. -/
def inRange (n : Int) : Option Int :=
  if -0x8000000000000000 ≤ n ∧ n < 0x8000000000000000 then some n else none

def integer (cs : List Char) : Option Int :=
  match cs with
  | '0' :: 'x' :: digits => (ungroup isHexadecimal digits).bind fun ds => inRange (natural 16 ds)
  | '0' :: 'o' :: digits => (ungroup isOctal digits).bind fun ds => inRange (natural 8 ds)
  | '0' :: 'b' :: digits => (ungroup isBinary digits).bind fun ds => inRange (natural 2 ds)
  | _ =>
      let (negative, digits) := sign cs
      (wholePart digits).bind fun ds =>
        inRange (if negative then -(natural 10 ds : Int) else natural 10 ds)

/-! ## Floats -/

/-- An exponent after its mark. -/
def exponent (cs : List Char) : Option Int :=
  let (negative, digits) := sign cs
  (ungroup Char.isDigit digits).map fun ds =>
    if negative then -(natural 10 ds : Int) else natural 10 ds

def isMark (c : Char) : Bool := c == 'e' || c == 'E'

/-- The digits of a float without its sign, and the power of ten of the last one. -/
def decimal (cs : List Char) : Option (List Char × Int) :=
  let (whole, rest) := cs.span fun c => c != '.' && !isMark c
  match rest with
  | '.' :: rest =>
      let (fraction, rest) := rest.span fun c => !isMark c
      match wholePart whole, ungroup Char.isDigit fraction, rest with
      | some ds, some fs, [] => some (ds ++ fs, -(fs.length : Int))
      | some ds, some fs, _ :: rest => (exponent rest).map fun e => (ds ++ fs, e - fs.length)
      | _, _, _ => none
  | _ :: rest =>
      match wholePart whole, exponent rest with
      | some ds, some e => some (ds, e)
      | _, _ => none
  | [] => none

/-- A float. One that is too large for a double is refused unless it is negative. -/
def real (cs : List Char) : Option Float :=
  let (negative, size) := sign cs
  let value? : Option Float :=
    if size == ['i', 'n', 'f'] then some (1.0 / 0.0)
    else if size == ['n', 'a', 'n'] then some (0.0 / 0.0)
    else
      match decimal size with
      | none => none
      | some (digits, e) =>
          let value := Decimal.nearestDouble (natural 10 digits) e
          if value.isInf && !negative then none else some value
  value?.map fun value => if negative then -value else value

/-! ## Dates and times -/

/-- A number written with exactly two digits. -/
def two (c d : Char) : Option Nat :=
  if c.isDigit && d.isDigit then some (digitValue c * 10 + digitValue d) else none

def daysInMonth (year month : Nat) : Nat :=
  if month = 2 then
    if year % 4 = 0 ∧ (year % 100 ≠ 0 ∨ year % 400 = 0) then 29 else 28
  else if month ∈ [4, 6, 9, 11] then 30
  else 31

/-- Take a date from the front. -/
def date : List Char → Option (List Char)
  | c :: x :: y :: a :: '-' :: m :: n :: '-' :: d :: e :: rest =>
      match two c x, two y a, two m n, two d e with
      | some century, some year, some month, some day =>
          if 1 ≤ month ∧ month ≤ 12 ∧ 1 ≤ day ∧
              day ≤ daysInMonth (century * 100 + year) month then some rest
          else none
      | _, _, _, _ => none
  | _ => none

/-- Take a time of day from the front. -/
def time : List Char → Option (List Char)
  | h :: i :: ':' :: m :: n :: ':' :: s :: t :: rest =>
      match two h i, two m n, two s t with
      | some hour, some minute, some second =>
          if hour ≤ 23 ∧ minute ≤ 59 ∧ second ≤ 60 then
            match rest with
            | '.' :: c :: fraction =>
                if c.isDigit then some (fraction.dropWhile Char.isDigit) else none
            | _ => some rest
          else none
      | _, _, _ => none
  | _ => none

/-- Whether a text is empty or the distance of a time from universal time. -/
def isOffset : List Char → Bool
  | [] => true
  | ['Z'] => true
  | ['z'] => true
  | [c, h, i, ':', m, n] =>
      match two h i, two m n with
      | some hour, some minute => (c == '+' || c == '-') && hour ≤ 23 && minute ≤ 59
      | _, _ => false
  | _ => false

def isMoment (cs : List Char) : Bool :=
  match date cs with
  | some [] => true
  | some (c :: rest) =>
      (c == 'T' || c == 't' || c == ' ') && ((time rest).map isOffset).getD false
  | none => time cs == some []

/-! ## All of them -/

/-- The characters that literals are made of. -/
def isLiteralChar (c : Char) : Bool :=
  c.isAlphanum || c == '+' || c == '-' || c == '_' || c == '.' || c == ':'

/-- Split a literal off the front. A date and a time of day may stand apart by one blank. -/
def split (cs : List Char) : List Char × List Char :=
  let (literal, rest) := cs.span isLiteralChar
  match date literal, rest with
  | some [], ' ' :: h :: i :: ':' :: rest =>
      if h.isDigit && i.isDigit then
        let (tail, rest) := rest.span isLiteralChar
        (literal ++ ' ' :: h :: i :: ':' :: tail, rest)
      else (literal, ' ' :: h :: i :: ':' :: rest)
  | _, rest => (literal, rest)

def item (literal : List Char) : Option Item :=
  if literal == ['t', 'r', 'u', 'e'] then some (.boolean true)
  else if literal == ['f', 'a', 'l', 's', 'e'] then some (.boolean false)
  else if isMoment literal then some .moment
  else
    match integer literal with
    | some n => some (.integer n)
    | none => (real literal).map .real

end Downhill.Toml.Literal
