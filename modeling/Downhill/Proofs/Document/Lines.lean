import Downhill.Toml.Document
import Downhill.Toml.Printer
import Downhill.Proofs.Document.Scanning

/-! # Lines of a document

What the printer writes on a line is one statement to the reader: an entry with a bare key, the
header of a subtable, or nothing.
-/

namespace Downhill.Toml

open Scan

/-! ## Bare keys -/

namespace Key

/-- A key that is written without quotes. -/
def IsBare (key : String) : Prop := key.toList ≠ [] ∧ ∀ c ∈ key.toList, isBareChar c = true

instance (key : String) : Decidable (IsBare key) :=
  @instDecidableAnd _ _ inferInstance (List.decidableBAll _ _)

theorem ne_of_bare {c d : Char} (hc : isBareChar c = true) (hd : isBareChar d = false) :
    c ≠ d := by
  rintro rfl
  simp [hc] at hd

theorem not_blank_of_bare {c : Char} (hc : isBareChar c = true) : isBlank c = false := by
  simp [isBlank, ne_of_bare hc (d := ' ') rfl, ne_of_bare hc (d := '\t') rfl]

theorem not_bare_of_blank {c : Char} (hc : isBlank c = true) : isBareChar c = false := by
  cases hbare : isBareChar c with
  | false => rfl
  | true => simp [not_blank_of_bare hbare] at hc

variable {key : String} {d : Char}

/-- A bare key is nothing but its first character and others of the kind. -/
theorem IsBare.exists_cons (h : IsBare key) :
    ∃ c cs, key.toList = c :: cs ∧ isBareChar c = true := by
  obtain ⟨hne, hall⟩ := h
  obtain ⟨c, cs, hkey⟩ := List.exists_cons_of_ne_nil hne
  exact ⟨c, cs, hkey, hall c (by simp [hkey])⟩

theorem IsBare.takes_simple (h : IsBare key) (hd : isBareChar d = false) (rest : List Char) :
    Takes simple key.toList key (d :: rest) := by
  obtain ⟨c, cs, hkey, hc⟩ := h.exists_cons
  have hrun : Takes (run isBareChar) key.toList key.toList (d :: rest) :=
    takes_run h.2 (by simpa using hd)
  have hname : Takes (run isBareChar >>= fun name =>
      if name.isEmpty then failure else return String.ofList name) key.toList key (d :: rest) := by
    refine hrun.before ?_
    rw [if_neg (by simp [hkey]), String.ofList_toList]
    exact takes_pure _ _
  refine Takes.after (takes_peek _) ?_
  rw [hkey, List.cons_append, List.head?_cons, ← hkey]
  split
  · rename_i heq
    exact absurd (Option.some.inj heq) (ne_of_bare hc rfl)
  · rename_i heq
    exact absurd (Option.some.inj heq) (ne_of_bare hc rfl)
  · exact hname

/-- What comes after a key and the blanks that follow it. -/
structure Ends (d : Char) : Prop where
  bare : isBareChar d = false
  blank : isBlank d = false
  dot : d ≠ '.'

theorem IsBare.takes_part (h : IsBare key) {space : List Char}
    (hspace : ∀ c ∈ space, isBlank c = true) (hd : Ends d) (rest : List Char) :
    Takes part (key.toList ++ space) (key, false) (d :: rest) := by
  obtain ⟨c, cs, hkey, hc⟩ := h.exists_cons
  have hfront : Takes blanks [] () (key.toList ++ space ++ d :: rest) :=
    takes_blanks (by simp) (by simp [hkey, not_blank_of_bare hc])
  have hsimple : Takes simple key.toList key (space ++ d :: rest) := by
    cases space with
    | nil => exact h.takes_simple hd.bare rest
    | cons b space =>
      exact h.takes_simple (not_bare_of_blank (hspace b (by simp))) (space ++ d :: rest)
  have hback : Takes blanks space () (d :: rest) := takes_blanks hspace (by simp [hd.blank])
  refine hfront.after (hsimple.bind (hback.before (Takes.after (takes_peek _) ?_)))
  rw [List.nil_append, List.head?_cons]
  split
  · rename_i heq
    exact absurd (Option.some.inj heq) hd.dot
  · exact takes_pure _ _

theorem IsBare.takes_path (h : IsBare key) {space : List Char}
    (hspace : ∀ c ∈ space, isBlank c = true) (hd : Ends d) (rest : List Char) :
    Takes path (key.toList ++ space) [key] (d :: rest) :=
  (Steps.last (h.takes_part hspace hd rest)).takes_repeated.before (takes_pure _ _)

end Key

/-! ## Values -/

/-- What stands for a value up to the end of its line, however deep values may nest. -/
structure Spells (literal : String) (item : Item) : Prop where
  solid : ∀ c ∈ literal.toList.head?, isBlank c = false
  takes (depth : Nat) (rest : List Char) :
    Takes (value depth) literal.toList item ('\n' :: rest)

namespace Value

theorem takes_entry {key literal : String} {item : Item} (hkey : Key.IsBare key)
    (hliteral : Spells literal item) (depth : Nat) (rest : List Char) :
    Takes (entry (value depth)) (key ++ " = " ++ literal).toList ⟨[], key, item⟩
      ('\n' :: rest) := by
  have hpath : Takes Key.path (key.toList ++ [' ']) [key]
      ('=' :: (' ' :: (literal.toList ++ '\n' :: rest))) :=
    hkey.takes_path (List.forall_mem_singleton.mpr rfl) ⟨rfl, rfl, by decide⟩ _
  have hsolid : ∀ c ∈ (literal.toList ++ '\n' :: rest).head?, isBlank c = false := by
    cases htext : literal.toList with
    | nil => simp [isBlank]
    | cons c cs => simpa [htext] using hliteral.solid
  have hblank : Takes blanks [' '] () (literal.toList ++ '\n' :: rest) :=
    takes_blanks (List.forall_mem_singleton.mpr rfl) hsolid
  have htext : (key ++ " = " ++ literal).toList =
      key.toList ++ [' '] ++ (['='] ++ ([' '] ++ literal.toList)) := by
    simp
  rw [htext]
  exact hpath.bind ((takes_char _ _).bind (hblank.bind
    ((hliteral.takes depth rest).before (takes_pure _ _))))

end Value

/-! ## Statements -/

/-- Whatever follows, the text is one line of a document. -/
def Reads (text : List Char) (statement : Statement) : Prop :=
  ∀ rest, Takes Statement.line text (statement, !rest.isEmpty) rest

namespace Statement

theorem takes_line {text : List Char} {statement : Statement} {c : Char}
    (htext : text.head? = some c) (hc : isBlank c = false)
    (hscan : ∀ rest, Takes scan text statement rest) : Reads text statement := by
  intro rest
  have hfront : Takes blanks [] () (text ++ rest) := by
    refine takes_blanks (by simp) ?_
    cases text with
    | nil => simp at htext
    | cons d cs => simp_all
  exact hfront.after ((hscan rest).before (Takes.after (takes_rest rest) (takes_pure _ _)))

theorem reads_entry {key literal : String} {item : Item} (hkey : Key.IsBare key)
    (hliteral : Spells literal item) :
    Reads (Printer.entry key literal).toList (define ⟨[], key, item⟩) := by
  obtain ⟨c, cs, hchars, hc⟩ := hkey.exists_cons
  have hne (d : Char) (hd : Key.isBareChar d = false) : c ≠ d := Key.ne_of_bare hc hd
  refine takes_line (c := c) (by simp [Printer.entry, hchars]) (Key.not_blank_of_bare hc) ?_
  intro rest
  have htext : (Printer.entry key literal).toList =
      (key ++ " = " ++ literal).toList ++ ['\n'] := by
    simp [Printer.entry]
  have hend : Takes (trailing >>= fun _ => return define ⟨[], key, item⟩) ['\n']
      (define ⟨[], key, item⟩) rest := (takes_trailing rest).before (takes_pure _ _)
  refine Takes.after (takes_rest _) ?_
  rw [htext]
  -- A bare key starts none of the other statements.
  split
  case h_7 => exact (Value.takes_entry hkey hliteral _ rest).bind hend
  all_goals
    rename_i heq
    simp [hchars, hne '[' rfl, hne '#' rfl, hne '\n' rfl, hne '\r' rfl] at heq

theorem reads_blank : Reads ['\n'] blank := fun _ => rfl

theorem reads_header {key : String} (hkey : Key.IsBare key) :
    Reads ("[" ++ key ++ "]\n").toList (openTable [key]) := by
  obtain ⟨c, cs, hchars, hc⟩ := hkey.exists_cons
  refine takes_line (c := '[') (by simp) rfl ?_
  intro rest
  have htext : ("[" ++ key ++ "]\n").toList = ['['] ++ (key.toList ++ [] ++ [']', '\n']) := by
    simp
  have hpath : Takes Key.path (key.toList ++ []) [key] (']' :: '\n' :: rest) :=
    hkey.takes_path (by simp) ⟨rfl, rfl, by decide⟩ _
  have hend : Takes (char ']' >>= fun _ => do
      trailing
      return openTable [key]) [']', '\n'] (openTable [key]) rest := rfl
  refine Takes.after (takes_rest _) ?_
  rw [htext]
  split
  case h_2 => exact (takes_char _ _).bind (hpath.bind hend)
  case h_7 =>
    rename_i hbracket _ _ _ _
    exact (hbracket _ rfl).elim
  all_goals
    rename_i heq
    simp [hchars, Key.ne_of_bare hc (d := '[') rfl] at heq

end Statement

end Downhill.Toml
