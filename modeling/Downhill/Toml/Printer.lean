import Downhill.Decimal.Text
import Downhill.Toml.Item

/-! # Printing documents

A document is printed as one line for each entry, with the entries of a subtable under its header.
-/

namespace Downhill.Toml.Printer

/-- A float as a document spells it; a whole number keeps one place. -/
def real (x : Float) : String :=
  if x.isNaN then "nan"
  else
    let text := Decimal.plainText x
    if x.isInf || text.contains '.' then text else text ++ ".0"

/-- A count, if it fits into an integer of 64 bits. -/
def count? (n : Nat) : Option String :=
  if n < 0x8000000000000000 then some (toString n) else none

/-- A text that holds nothing to be escaped. -/
def word (text : String) : String := "\"" ++ text ++ "\""

def entry (key value : String) : String := key ++ " = " ++ value ++ "\n"

/-- The header of a subtable, set off by an empty line. -/
def header (key : String) : String := "\n[" ++ key ++ "]\n"

end Downhill.Toml.Printer
