import Downhill.Toml.Quoted
import Downhill.Toml.Table

/-! # Keys and values -/

namespace Downhill.Toml

/-- Paths of keys and nested values stay below this depth. -/
def depthLimit : Nat := 80

/-! ## Keys -/

namespace Key

def isBareChar (c : Char) : Bool := c.isAlphanum || c == '-' || c == '_'

/-- One key, bare or quoted. -/
def simple : Scan String := do
  match ← Scan.peek with
  | some '"' => Quoted.short
  | some '\'' => Quoted.short
  | _ =>
      let name ← Scan.run isBareChar
      if name.isEmpty then failure else return String.ofList name

/-- One key of a path, with the dot after it if there is one. -/
def part : Scan (String × Bool) := do
  Scan.blanks
  let key ← simple
  Scan.blanks
  match ← Scan.peek with
  | some '.' => Scan.char '.'; return (key, true)
  | _ => return (key, false)

/-- A dotted key. -/
def path : Scan (List String) := do
  let keys ← Scan.repeated part
  if keys.length < depthLimit then return keys else failure

end Key

/-- A key with its path apart. -/
structure Entry where
  path : List String
  key : String
  item : Item

/-- An entry from all its keys. -/
def Entry.ofPath (keys : List String) (item : Item) : Entry :=
  ⟨keys.dropLast, keys.getLast?.getD "", item⟩

/-! ## Values -/

namespace Value

/-- A value that holds no other values. -/
def leaf : Scan Item := do
  match ← Scan.peek with
  | some '"' => return .string (← Quoted.text)
  | some '\'' => return .string (← Quoted.text)
  | _ => fun cs =>
      let (literal, cs) := Literal.split cs
      (Literal.item literal).map fun item => (item, cs)

variable (value : Scan Item)

/-- An element of an array, with the comma after it or the closing bracket. -/
def element : Scan (Item × Bool) := do
  let item ← value
  Scan.space
  match ← Scan.peek with
  | some ',' =>
      Scan.char ','
      Scan.space
      match ← Scan.peek with
      | some ']' => Scan.char ']'; return (item, false)
      | _ => return (item, true)
  | _ => Scan.char ']'; return (item, false)

/-- An array, from its opening bracket on. -/
def array : Scan Item := do
  Scan.char '['
  Scan.space
  match ← Scan.peek with
  | some ']' => Scan.char ']'; return .array []
  | _ => return .array (← Scan.repeated (element value))

/-- A key, the equals sign and a value. -/
def entry : Scan Entry := do
  let keys ← Key.path
  Scan.char '='
  Scan.blanks
  let item ← value
  return .ofPath keys item

/-- An entry of an inline table, with the comma after it or the closing brace. -/
def inlineEntry : Scan (Entry × Bool) := do
  let e ← entry value
  Scan.blanks
  match ← Scan.peek with
  | some ',' => Scan.char ','; return (e, true)
  | _ => Scan.char '\x7d'; return (e, false)

/-- Define entries one after the other. -/
def gather (entries : List Entry) : Option Table :=
  entries.foldlM (fun table e => table.define [] e.path e.key e.item .inline) []

/-- A table written out as a value, from its opening brace on. -/
def inlineTable : Scan Item := do
  Scan.char '\x7b'
  Scan.blanks
  match ← Scan.peek with
  | some '\x7d' => Scan.char '\x7d'; return .table .inline []
  | _ =>
      let entries ← Scan.repeated (inlineEntry value)
      let table ← gather entries
      return .table .inline table

end Value

/-- A value with at most the given depth of arrays and inline tables. -/
def value : Nat → Scan Item
  | 0 => Value.leaf
  | depth + 1 => do
      match ← Scan.peek with
      | some '[' => Value.array (value depth)
      | some '\x7b' => Value.inlineTable (value depth)
      | _ => Value.leaf

end Downhill.Toml
