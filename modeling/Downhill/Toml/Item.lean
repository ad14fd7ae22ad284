/-! # TOML items

What a document holds: literals, arrays and tables. A table remembers how it came to be, because
that decides who may add to it.
-/

namespace Downhill.Toml

inductive Origin where
  /-- The document itself, or a table opened by its own header. -/
  | header
  /-- Made on the way to the table of another header. -/
  | implied
  /-- Made by a dotted key. -/
  | dotted
  /-- Written out as a value; it is complete. -/
  | inline
  deriving DecidableEq, Repr

inductive Item where
  | string (text : String)
  | integer (value : Int)
  | real (value : Float)
  | boolean (value : Bool)
  /-- A date, a time of day, or both. -/
  | moment
  | array (items : List Item)
  | table (origin : Origin) (entries : List (String × Item))
  /-- The tables opened by headers in double brackets. -/
  | tables (elements : List (List (String × Item)))

abbrev Table := List (String × Item)

/-- Set the item of a key, in its place if the key is there. -/
def Table.put (key : String) (item : Item) : Table → Table
  | [] => [(key, item)]
  | (k, i) :: entries => if k == key then (k, item) :: entries else (k, i) :: put key item entries

end Downhill.Toml
