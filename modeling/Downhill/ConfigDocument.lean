import Downhill.Config
import Downhill.Toml.Document
import Downhill.Toml.Printer

/-! # Configurations as documents

A configuration is read from a document field by field: a field that is missing keeps its default,
and keys that are not fields are ignored. What is printed is read back.
-/

namespace Downhill

/-! ## Fields -/

namespace Toml.Item

/-- A float field also takes an integer. -/
def real? : Item → Option Float
  | real x => some x
  | integer n => some (Float.ofInt n)
  | _ => none

/-- A count takes only an integer that is not negative. -/
def count? : Item → Option Nat
  | integer n => if 0 ≤ n then some n.toNat else none
  | _ => none

/-- The fields of a record: by key from a table, by position from an array. A moment counts as a
table without any of the keys. -/
def fields? : Item → Option (String → Nat → Option Item)
  | table _ entries => some fun key _ => entries.lookup key
  | array items => some fun _ i => items[i]?
  | tables elements => some fun _ i => elements[i]?.map (table .header)
  | moment => some fun _ _ => none
  | _ => none

/-- Whether an item is a table or an array with nothing in it. -/
def isEmpty : Item → Bool
  | table _ entries => entries.isEmpty
  | array items => items.isEmpty
  | tables elements => elements.isEmpty
  | _ => false

end Toml.Item

/-- Read a field, or keep its default. -/
def readField {β : Type} (read : Toml.Item → Option β) (default : β) :
    Option Toml.Item → Option β
  | none => some default
  | some item => read item

/-! ## Reading -/

def SearchConfig.ofItem (item : Toml.Item) : Option (SearchConfig Float) := do
  let field ← item.fields?
  let default : SearchConfig Float := .default
  return {
    initialStep := ← readField Toml.Item.real? default.initialStep (field "initial_step" 0)
    alpha := ← readField Toml.Item.real? default.alpha (field "alpha" 1)
    tau := ← readField Toml.Item.real? default.tau (field "tau" 2)
    maxShrinks := ← readField Toml.Item.count? default.maxShrinks (field "max_shrinks" 3) }

def SolverConfig.ofItem (item : Toml.Item) : Option (SolverConfig Float) := do
  let field ← item.fields?
  let default : SolverConfig Float := .default
  return {
    tolerance := ← readField Toml.Item.real? default.tolerance (field "tolerance" 0)
    maxIterations :=
      ← readField Toml.Item.count? default.maxIterations (field "max_iterations" 1)
    lineSearch := ← readField SearchConfig.ofItem default.lineSearch (field "line_search" 2) }

def Schedule.name : Schedule → String
  | resetEachIteration => "reset_each_iteration"
  | carryForward => "carry_forward"

def Schedule.ofName (name : String) : Option Schedule :=
  if name == "reset_each_iteration" then some .resetEachIteration
  else if name == "carry_forward" then some .carryForward
  else none

/-- A schedule is given by its name, or by an empty table or array under its name. -/
def Schedule.ofItem : Toml.Item → Option Schedule
  | .string name => ofName name
  | .table _ [(name, body)] => if body.isEmpty then ofName name else none
  | _ => none

def ShiftConfig.ofItem (item : Toml.Item) : Option (ShiftConfig Float) := do
  let field ← item.fields?
  let default : ShiftConfig Float := .default
  return {
    gamma := ← readField Toml.Item.real? default.gamma (field "gamma" 0)
    initialDelta := ← readField Toml.Item.real? default.initialDelta (field "initial_delta" 1)
    maxDelta := ← readField Toml.Item.real? default.maxDelta (field "max_delta" 2)
    schedule := ← readField Schedule.ofItem default.schedule (field "schedule" 3) }

/-- Read a record from the whole of a document. -/
def readDocument {β : Type} (read : Toml.Item → Option β) (text : String) : Option β := do
  let root ← Toml.parse text
  read (.table .header root)

def SearchConfig.parse (text : String) : Option (SearchConfig Float) :=
  readDocument SearchConfig.ofItem text

def ShiftConfig.parse (text : String) : Option (ShiftConfig Float) :=
  readDocument ShiftConfig.ofItem text

/-- Read a configuration that a solve will not refuse. -/
def SolverConfig.parse (text : String) : Except (ConfigError Float) (SolverConfig Float) :=
  match readDocument SolverConfig.ofItem text with
  | none => .error .unreadable
  | some config => config.validate.map fun _ => config

/-! ## Printing -/

open Toml.Printer

/-- The document of a configuration; there is none if a count is too large for an integer. -/
def SearchConfig.print? (config : SearchConfig Float) : Option String := do
  let shrinks ← Toml.Printer.count? config.maxShrinks
  return entry "initial_step" (real config.initialStep) ++ entry "alpha" (real config.alpha) ++
    entry "tau" (real config.tau) ++ entry "max_shrinks" shrinks

def SolverConfig.print? (config : SolverConfig Float) : Option String := do
  let iterations ← Toml.Printer.count? config.maxIterations
  let search ← config.lineSearch.print?
  return entry "tolerance" (real config.tolerance) ++ entry "max_iterations" iterations ++
    header "line_search" ++ search

def ShiftConfig.print (config : ShiftConfig Float) : String :=
  entry "gamma" (real config.gamma) ++ entry "initial_delta" (real config.initialDelta) ++
    entry "max_delta" (real config.maxDelta) ++ entry "schedule" (word config.schedule.name)

end Downhill
