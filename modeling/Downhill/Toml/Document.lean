import Downhill.Toml.Value

/-! # Documents

A document is a sequence of statements, each on its own line: headers, which open tables, and
entries, which go into the table opened last.
-/

namespace Downhill.Toml

inductive Statement where
  | openTable (path : List String)
  | openElement (path : List String)
  | define (entry : Entry)
  /-- A line without content. -/
  | blank

namespace Statement

/-- A statement, from its first character on. -/
def scan : Scan Statement := do
  match ← Scan.rest with
  | '[' :: '[' :: _ =>
      Scan.char '['
      Scan.char '['
      let path ← Key.path
      Scan.char ']'
      Scan.char ']'
      Scan.trailing
      return .openElement path
  | '[' :: _ =>
      Scan.char '['
      let path ← Key.path
      Scan.char ']'
      Scan.trailing
      return .openTable path
  | '#' :: _ => Scan.trailing; return .blank
  | '\n' :: _ => Scan.lineEnd; return .blank
  | '\r' :: _ => Scan.lineEnd; return .blank
  | [] => return .blank
  | _ =>
      let entry ← Value.entry (value (depthLimit - 1))
      Scan.trailing
      return .define entry

/-- A line, and whether another one may follow. -/
def line : Scan (Statement × Bool) := do
  Scan.blanks
  let statement ← scan
  return (statement, !(← Scan.rest).isEmpty)

/-- Carry out a statement on the document so far and the header that is open. -/
def apply : List String × Table → Statement → Option (List String × Table)
  | (header, root), blank => some (header, root)
  | (_, root), openTable path =>
      (root.openTable path.dropLast (path.getLast?.getD "")).map fun root => (path, root)
  | (_, root), openElement path =>
      (root.openElement path.dropLast (path.getLast?.getD "")).map fun root => (path, root)
  | (header, root), define e =>
      (root.define header e.path e.key e.item .header).map fun root => (header, root)

end Statement

/-- Drop a byte order mark from the front of a text. -/
def dropMark : List Char → List Char
  | '\ufeff' :: cs => cs
  | cs => cs

/-- The statements of a text. -/
def statements (text : String) : Option (List Statement) :=
  match Scan.repeated Statement.line (dropMark text.toList) with
  | some (lines, []) => some lines
  | _ => none

/-- Read a document. -/
def parse (text : String) : Option Table := do
  let lines ← statements text
  let (_, root) ← lines.foldlM Statement.apply ([], [])
  return root

end Downhill.Toml
