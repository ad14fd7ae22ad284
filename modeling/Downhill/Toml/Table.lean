import Downhill.Toml.Item

/-! # Defining tables

Headers and keys name the tables that they open and add to. A table is opened by at most one
header, and only dotted keys add to what dotted keys have made.
-/

namespace Downhill.Toml

/-- A step of a path, and whether it belongs to a dotted key rather than to a header. -/
structure Step where
  key : String
  dotted : Bool
  deriving DecidableEq, Repr

namespace Table

/-- Change the table at the end of a path, with the tables on the way made where they are
missing. -/
def alter (change : Origin → Table → Option Table) : List Step → Origin → Table → Option Table
  | [], origin, table => change origin table
  | step :: path, _, table =>
      match table.lookup step.key with
      | none =>
          let origin := if step.dotted then Origin.dotted else Origin.implied
          (alter change path origin []).map fun inner => table.put step.key (.table origin inner)
      | some (.table origin inner) =>
          if origin = .inline ∨ (step.dotted ∧ origin = .header) then none
          else
            (alter change path origin inner).map fun inner =>
              table.put step.key (.table origin inner)
      | some (.tables elements) =>
          (alter change path .header (elements.getLast?.getD [])).map fun inner =>
            table.put step.key (.tables (elements.dropLast ++ [inner]))
      | some _ => none

def headerSteps (path : List String) : List Step := path.map fun key => ⟨key, false⟩

def dottedSteps (path : List String) : List Step := path.map fun key => ⟨key, true⟩

/-! ## Definitions -/

/-- Open a table by its header. -/
def openTable (path : List String) (key : String) (root : Table) : Option Table :=
  alter (fun _ table =>
    match table.lookup key with
    | none => some (table.put key (.table .header []))
    | some (.table .implied inner) => some (table.put key (.table .header inner))
    | some _ => none) (headerSteps path) .header root

/-- Open the next table of an array of tables. -/
def openElement (path : List String) (key : String) (root : Table) : Option Table :=
  alter (fun _ table =>
    match table.lookup key with
    | none => some (table.put key (.tables [[]]))
    | some (.tables elements) => some (table.put key (.tables (elements ++ [[]])))
    | some _ => none) (headerSteps path) .header root

/-- Define a dotted key in the table that `header` has opened; `origin` is that of `root`. -/
def define (header path : List String) (key : String) (item : Item) (origin : Origin)
    (root : Table) : Option Table :=
  alter (fun origin table =>
    if (origin == .dotted) == path.isEmpty then none
    else
      match table.lookup key with
      | none => some (table.put key item)
      | some _ => none) (headerSteps header ++ dottedSteps path) origin root

end Table

end Downhill.Toml
