import Mathlib
import Downhill.ConfigDocument
import Downhill.Proofs.Document.Floats
import Downhill.Proofs.Document.Tables
import Downhill.Proofs.Validity

/-! # Configurations round trip

A configuration is read back from the document it is printed as, field by field and bit for bit.
-/

namespace Downhill

open Toml Toml.Printer

/-! ## Fields -/

namespace Toml.Setting

/-- A float under its key. -/
def ofReal (key : String) (x : Float) (bare : Key.IsBare key) (hx : x.isNaN = false) : Setting :=
  ⟨key, Printer.real x, .real x, bare, spells_real hx⟩

/-- A count under its key. -/
def ofCount (key : String) (n : ℕ) (bare : Key.IsBare key) (hn : n < 2 ^ 63) : Setting :=
  ⟨key, toString n, .integer n, bare, spells_count (if_pos hn)⟩

/-- A bare word under its key. -/
def ofWord (key word : String) (bare : Key.IsBare key) (hword : Key.IsBare word) : Setting :=
  ⟨key, Printer.word word, .string word, bare, spells_word hword⟩

end Toml.Setting

theorem readDocument_eq {β : Type} {text : String} {root : Table} (read : Item → Option β)
    (h : Toml.parse text = some root) : readDocument read text = read (.table .header root) := by
  unfold readDocument
  rw [h]
  rfl

/-! ## Line search -/

/-- All fields are numbers, infinities included. -/
structure SearchConfig.Numeric (config : SearchConfig Float) : Prop where
  initialStep : config.initialStep.isNaN = false
  alpha : config.alpha.isNaN = false
  tau : config.tau.isNaN = false

namespace SearchConfig

variable {config : SearchConfig Float}

/-- The entries of a configuration. -/
def settings (h : config.Numeric) (hcount : config.maxShrinks < 2 ^ 63) : List Setting :=
  [.ofReal "initial_step" config.initialStep (by decide) h.initialStep,
    .ofReal "alpha" config.alpha (by decide) h.alpha,
    .ofReal "tau" config.tau (by decide) h.tau,
    .ofCount "max_shrinks" config.maxShrinks (by decide) hcount]

variable (h : config.Numeric) (hcount : config.maxShrinks < 2 ^ 63)

theorem print?_eq : config.print? = some (String.ofList (Setting.lines (settings h hcount))) := by
  have hshrinks : count? config.maxShrinks = some (toString config.maxShrinks) := if_pos hcount
  simp only [print?, hshrinks]
  apply congrArg some
  apply String.toList_inj.mp
  simp [settings, Setting.lines, Setting.text, Setting.ofReal, Setting.ofCount]

theorem nodup_settings : ((settings h hcount).map Setting.key).Nodup := by
  simp [settings, Setting.ofReal, Setting.ofCount]

theorem ofItem_settings :
    ofItem (.table .header (Setting.table (settings h hcount))) = some config := rfl

include h hcount in
/-- Any configuration of numbers is read back, valid or not. -/
theorem parse_print :
    ∃ text, config.print? = some text ∧ SearchConfig.parse text = some config := by
  refine ⟨_, print?_eq h hcount, ?_⟩
  unfold SearchConfig.parse
  rw [readDocument_eq _ (Setting.parse_lines (nodup_settings h hcount))]
  exact ofItem_settings h hcount

end SearchConfig

/-! ## Solvers -/

theorem isNaN_of_pos {x : Float} (h : (0.0 : Float) < x) : x.isNaN = false := by
  rcases (FloatGrid.zero_lt_iff x).mp h with hexceeds | ⟨m, e, _, hholds⟩
  · rw [Decimal.isNaN_eq_unpack, hexceeds]
    rfl
  · rw [Decimal.isNaN_eq_unpack, hholds]
    rfl

/-- What a solve accepts is made of numbers. -/
theorem SearchConfig.numeric_of_validate {config : SearchConfig Float}
    (h : config.validate = .ok ()) : config.Numeric := by
  obtain ⟨hinitial, halpha, htau⟩ := validate_ok h
  simp only [inUnitInterval, Bool.and_eq_true, decide_eq_true_eq] at halpha htau
  exact ⟨isNaN_of_pos hinitial, isNaN_of_pos halpha.1, isNaN_of_pos htau.1⟩

namespace SolverConfig

variable {config : SolverConfig Float}

theorem numeric_of_validate (h : config.validate = .ok ()) :
    config.tolerance.isNaN = false ∧ config.lineSearch.Numeric := by
  obtain ⟨htolerance, hsearch⟩ := validate_ok h
  exact ⟨isNaN_of_pos htolerance, SearchConfig.numeric_of_validate hsearch⟩

/-- The entries above the table of the line search. -/
def settings (h : config.tolerance.isNaN = false) (hcount : config.maxIterations < 2 ^ 63) :
    List Setting :=
  [.ofReal "tolerance" config.tolerance (by decide) h,
    .ofCount "max_iterations" config.maxIterations (by decide) hcount]

section

variable (h : config.tolerance.isNaN = false) (hcount : config.maxIterations < 2 ^ 63)
  (hsearch : config.lineSearch.Numeric) (hshrinks : config.lineSearch.maxShrinks < 2 ^ 63)

/-- The characters of the document, with the line search in a table of its own. -/
def document : List Char :=
  Setting.lines (settings h hcount) ++ (header "line_search").toList ++
    Setting.lines (SearchConfig.settings hsearch hshrinks)

/-- What the document is read as. -/
def root : Table :=
  Setting.table (settings h hcount) ++
    [("line_search", .table .header (Setting.table (SearchConfig.settings hsearch hshrinks)))]

theorem print?_eq :
    config.print? = some (String.ofList (document h hcount hsearch hshrinks)) := by
  have hiterations : count? config.maxIterations = some (toString config.maxIterations) :=
    if_pos hcount
  simp only [print?, hiterations, SearchConfig.print?_eq hsearch hshrinks]
  apply congrArg some
  apply String.toList_inj.mp
  simp [document, settings, Setting.lines, Setting.text, Setting.ofReal, Setting.ofCount]

theorem parse_document :
    Toml.parse (String.ofList (document h hcount hsearch hshrinks)) =
      some (root h hcount hsearch hshrinks) :=
  Setting.parse_lines_header (by decide) (by simp [settings, Setting.ofReal, Setting.ofCount])
    (by simp [settings, Setting.ofReal, Setting.ofCount])
    (SearchConfig.nodup_settings hsearch hshrinks)

theorem ofItem_root :
    ofItem (.table .header (root h hcount hsearch hshrinks)) = some config := rfl

end

/-- A valid configuration is read back with its line search. -/
theorem parse_print (h : config.validate = .ok ()) (hcount : config.maxIterations < 2 ^ 63)
    (hshrinks : config.lineSearch.maxShrinks < 2 ^ 63) :
    ∃ text, config.print? = some text ∧ SolverConfig.parse text = .ok config := by
  obtain ⟨hnumber, hsearch⟩ := numeric_of_validate h
  refine ⟨_, print?_eq hnumber hcount hsearch hshrinks, ?_⟩
  unfold SolverConfig.parse
  rw [readDocument_eq _ (parse_document hnumber hcount hsearch hshrinks), ofItem_root]
  simp only [h]
  rfl

end SolverConfig

/-! ## Diagonal shift -/

/-- All fields are numbers, infinities included. -/
structure ShiftConfig.Numeric (config : ShiftConfig Float) : Prop where
  gamma : config.gamma.isNaN = false
  initialDelta : config.initialDelta.isNaN = false
  maxDelta : config.maxDelta.isNaN = false

theorem Schedule.isBare_name (schedule : Schedule) : Key.IsBare schedule.name := by
  cases schedule <;> decide

namespace ShiftConfig

variable {config : ShiftConfig Float}

/-- The entries of a configuration. -/
def settings (h : config.Numeric) : List Setting :=
  [.ofReal "gamma" config.gamma (by decide) h.gamma,
    .ofReal "initial_delta" config.initialDelta (by decide) h.initialDelta,
    .ofReal "max_delta" config.maxDelta (by decide) h.maxDelta,
    .ofWord "schedule" config.schedule.name (by decide) config.schedule.isBare_name]

/-- Any configuration of numbers is read back, valid or not, under either schedule. -/
theorem parse_print (h : config.Numeric) : ShiftConfig.parse config.print = some config := by
  have hprint : config.print = String.ofList (Setting.lines (settings h)) := by
    apply String.toList_inj.mp
    simp [settings, print, Setting.lines, Setting.text, Setting.ofReal, Setting.ofWord]
  have hroot : Toml.parse config.print = some (Setting.table (settings h)) := by
    rw [hprint]
    exact Setting.parse_lines (by simp [settings, Setting.ofReal, Setting.ofWord])
  have hitem : ofItem (.table .header (Setting.table (settings h))) = some config := by
    rcases config with ⟨gamma, initialDelta, maxDelta, _ | _⟩ <;> rfl
  unfold ShiftConfig.parse
  rw [readDocument_eq _ hroot, hitem]

end ShiftConfig

/-! ## All of them -/

/-- What is printed is read back. -/
theorem configs_round_trip :
    (∀ config : SolverConfig Float, config.validate = .ok () → config.maxIterations < 2 ^ 63 →
      config.lineSearch.maxShrinks < 2 ^ 63 →
      ∃ text, config.print? = some text ∧ SolverConfig.parse text = .ok config) ∧
    (∀ config : SearchConfig Float, config.Numeric → config.maxShrinks < 2 ^ 63 →
      ∃ text, config.print? = some text ∧ SearchConfig.parse text = some config) ∧
    ∀ config : ShiftConfig Float, config.Numeric → ShiftConfig.parse config.print = some config :=
  ⟨fun _ => SolverConfig.parse_print, fun _ => SearchConfig.parse_print,
    fun _ => ShiftConfig.parse_print⟩

/-- The defaults, with an infinite step, a negative zero and the other schedule. -/
theorem default_configs_round_trip :
    (∃ text, (SolverConfig.default : SolverConfig Float).print? = some text ∧
      SolverConfig.parse text = .ok .default) ∧
    (∃ text, (⟨1.0 / 0.0, -0.0, 0.75, 1000⟩ : SearchConfig Float).print? = some text ∧
      SearchConfig.parse text = some ⟨1.0 / 0.0, -0.0, 0.75, 1000⟩) ∧
    ShiftConfig.parse (⟨10.0, 1e-4, 1e20, .carryForward⟩ : ShiftConfig Float).print =
      some ⟨10.0, 1e-4, 1e20, .carryForward⟩ :=
  ⟨configs_round_trip.1 _ rfl (by decide) (by decide),
    configs_round_trip.2.1 _ ⟨rfl, rfl, rfl⟩ (by decide),
    configs_round_trip.2.2 _ ⟨rfl, rfl, rfl⟩⟩

end Downhill
