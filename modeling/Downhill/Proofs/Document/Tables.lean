import Downhill.Proofs.Document.Lines

/-! # Documents of one table

A document of entries with different keys, and of one subtable under its header, is read as the
table that it was printed from.
-/

namespace Downhill.Toml

open Scan

/-! ## Lines and statements -/

/-- The lines, one after the other, and what each of them says. -/
inductive ReadsAll : List Char → List Statement → Prop where
  | nil : ReadsAll [] []
  | cons {line lines : List Char} {s : Statement} {ss : List Statement} :
      line ≠ [] → Reads line s → ReadsAll lines ss → ReadsAll (line ++ lines) (s :: ss)

theorem ReadsAll.append {text text' : List Char} {ss ss' : List Statement} (h : ReadsAll text ss)
    (h' : ReadsAll text' ss') : ReadsAll (text ++ text') (ss ++ ss') := by
  induction h with
  | nil => exact h'
  | cons hne hline _ ih =>
    rw [List.append_assoc]
    exact .cons hne hline ih

theorem ReadsAll.steps {text : List Char} {ss : List Statement} (h : ReadsAll text ss)
    (hne : text ≠ []) : Steps Statement.line [] text ss := by
  induction h with
  | nil => exact absurd rfl hne
  | @cons line lines s ss hline hreads hrest ih =>
    cases hrest with
    | nil =>
      rw [List.append_nil]
      exact .last (hreads [])
    | @cons line' lines' s' ss' hline' hreads' hrest' =>
      have hmore : (!(line' ++ lines' ++ []).isEmpty) = true := by simp [hline']
      have hstep := hreads (line' ++ lines' ++ [])
      rw [hmore] at hstep
      exact .more hline hstep (ih (by simp [hline']))

/-- A text of lines is read statement by statement. -/
theorem ReadsAll.parse_eq {text : List Char} {ss : List Statement} (h : ReadsAll text ss)
    (hne : text ≠ []) (hmark : text.head? ≠ some '\ufeff') :
    parse (String.ofList text) = (ss.foldlM Statement.apply ([], [])).map Prod.snd := by
  have hdrop : dropMark text = text := by
    unfold dropMark
    split
    · exact absurd rfl hmark
    · rfl
  have htakes := (h.steps hne).takes_repeated
  unfold Takes at htakes
  rw [List.append_nil] at htakes
  have hstatements : statements (String.ofList text) = some ss := by
    unfold statements
    rw [String.toList_ofList, hdrop, htakes]
  unfold parse
  rw [hstatements]
  change (ss.foldlM Statement.apply ([], [])).bind (fun state => some state.2) = _
  cases ss.foldlM Statement.apply ([], []) <;> rfl

/-! ## Entries -/

/-- An entry with the literal that its item is written as. -/
structure Setting where
  key : String
  literal : String
  item : Item
  bare : Key.IsBare key
  spells : Spells literal item

namespace Setting

def text (s : Setting) : String := Printer.entry s.key s.literal

def statement (s : Setting) : Statement := .define ⟨[], s.key, s.item⟩

/-- What a table holds under the key. -/
def pair (s : Setting) : String × Item := (s.key, s.item)

theorem reads (s : Setting) : Reads s.text.toList s.statement :=
  Statement.reads_entry s.bare s.spells

theorem text_ne_nil (s : Setting) : s.text.toList ≠ [] := by simp [text, Printer.entry]

/-- The characters of the lines. -/
def lines (settings : List Setting) : List Char := settings.flatMap fun s => s.text.toList

theorem readsAll (settings : List Setting) :
    ReadsAll (lines settings) (settings.map statement) := by
  induction settings with
  | nil => exact .nil
  | cons s settings ih => exact .cons s.text_ne_nil s.reads ih

end Setting

/-! ## Tables -/

namespace Table

theorem put_append {key : String} {front : Table} (h : front.lookup key = none) (item : Item)
    (back : Table) : put key item (front ++ back) = front ++ put key item back := by
  induction front with
  | nil => rfl
  | cons entry front ih =>
    have hall := List.lookup_eq_none_iff.mp h
    have hne : (entry.1 == key) = false := by
      have := hall entry (by simp)
      grind
    have htail : front.lookup key = none :=
      List.lookup_eq_none_iff.mpr fun p hp => hall p (by simp [hp])
    rw [List.cons_append, put, hne, if_neg (by simp), ih htail, List.cons_append]

theorem put_of_none {key : String} {table : Table} (h : table.lookup key = none) (item : Item) :
    put key item table = table ++ [(key, item)] := by
  have := put_append h item []
  rwa [List.append_nil] at this

/-- A new key goes to the end of the document. -/
theorem define_top {key : String} {table : Table} (h : table.lookup key = none) (item : Item) :
    define [] [] key item .header table = some (table ++ [(key, item)]) := by
  simp [define, headerSteps, dottedSteps, alter, h, put_of_none h]

/-- Under a header, it goes to the end of its table. -/
theorem define_under {header key : String} {front inner : Table}
    (hfront : front.lookup header = none) (hinner : inner.lookup key = none) (item : Item) :
    define [header] [] key item .header (front ++ [(header, .table .header inner)]) =
      some (front ++ [(header, .table .header (inner ++ [(key, item)]))]) := by
  have hlookup : (front ++ [(header, Item.table .header inner)]).lookup header =
      some (.table .header inner) := by
    simp [List.lookup_append, hfront]
  simp [define, headerSteps, dottedSteps, alter, hlookup, hinner, put_of_none hinner,
    put_append hfront, put]

/-- So does a new table, which is empty when its header opens it. -/
theorem openTable_top {key : String} {table : Table} (h : table.lookup key = none) :
    openTable [] key table = some (table ++ [(key, .table .header [])]) := by
  simp [openTable, headerSteps, alter, h, put_of_none h]

end Table

/-! ## Documents -/

namespace Setting

/-- The table that holds them. -/
def table (settings : List Setting) : Table := settings.map pair

theorem lookup_table {settings : List Setting} {key : String} (h : key ∉ settings.map Setting.key) :
    (table settings).lookup key = none := by
  rw [List.lookup_eq_none_iff]
  intro p hp
  obtain ⟨s, hs, rfl⟩ := List.mem_map.mp hp
  have : s.key ∈ settings.map Setting.key := List.mem_map_of_mem hs
  grind [pair]

variable {settings : List Setting}

/-- The entries fill the table they stand under. -/
theorem foldlM_apply (header : List String) (root : Table → Table)
    (hdefine : ∀ (inner : Table) (key : String) (item : Item), inner.lookup key = none →
      Table.define header [] key item .header (root inner) =
        some (root (inner ++ [(key, item)])))
    (front : List Setting) (h : ((front ++ settings).map Setting.key).Nodup) :
    (settings.map statement).foldlM Statement.apply (header, root (table front)) =
      some (header, root (table (front ++ settings))) := by
  induction settings generalizing front with
  | nil => simp
  | cons s settings ih =>
    have hsplit : front ++ s :: settings = (front ++ [s]) ++ settings := by simp
    have hfresh : s.key ∉ front.map Setting.key := by
      rw [List.map_append, List.nodup_append] at h
      intro hmem
      exact h.2.2 _ hmem s.key (by simp) rfl
    have hstep : Statement.apply (header, root (table front)) s.statement =
        some (header, root (table (front ++ [s]))) := by
      change (Table.define header [] s.key s.item .header (root (table front))).map _ = _
      rw [hdefine _ s.key s.item (lookup_table hfresh)]
      simp [table, pair]
    rw [List.map_cons, List.foldlM_cons, hstep, hsplit]
    exact ih (front ++ [s]) (hsplit ▸ h)

theorem foldlM_apply_top (h : (settings.map Setting.key).Nodup) :
    (settings.map statement).foldlM Statement.apply ([], []) = some ([], table settings) :=
  foldlM_apply [] id (fun _ _ item hfresh => Table.define_top hfresh item) [] h

theorem head_lines (settings : List Setting) {rest : List Char} (h : rest.head? ≠ some '\ufeff') :
    (lines settings ++ rest).head? ≠ some '\ufeff' := by
  cases settings with
  | nil => exact h
  | cons s settings =>
    obtain ⟨c, cs, hkey, hc⟩ := s.bare.exists_cons
    simpa [lines, text, Printer.entry, hkey] using Key.ne_of_bare hc rfl

/-- Entries alone make a document of one table. -/
theorem parse_lines (h : (settings.map Setting.key).Nodup) :
    parse (String.ofList (lines settings)) = some (table settings) := by
  cases settings with
  | nil => rfl
  | cons s settings =>
    have hne : lines (s :: settings) ≠ [] := by simp [lines, s.text_ne_nil]
    have hhead := head_lines (s :: settings) (by simp : ([] : List Char).head? ≠ some '\ufeff')
    rw [List.append_nil] at hhead
    rw [(readsAll _).parse_eq hne hhead, foldlM_apply_top h]
    rfl

/-- Entries and a subtable under its header make a document of two. -/
theorem parse_lines_header {inner : List Setting} {header : String} (hheader : Key.IsBare header)
    (h : (settings.map Setting.key).Nodup) (hfresh : header ∉ settings.map Setting.key)
    (hinner : (inner.map Setting.key).Nodup) :
    parse (String.ofList (lines settings ++ (Printer.header header).toList ++ lines inner)) =
      some (table settings ++ [(header, .table .header (table inner))]) := by
  have hopen : Statement.apply ([], table settings) (.openTable [header]) =
      some ([header], table settings ++ [(header, .table .header [])]) := by
    change (Table.openTable [] header (table settings)).map _ = _
    rw [Table.openTable_top (lookup_table hfresh)]
    rfl
  have hunder := foldlM_apply [header]
    (fun inner => table settings ++ [(header, .table .header inner)])
    (fun _ _ item hkey => Table.define_under (lookup_table hfresh) hkey item) [] hinner
  have hheaderText : (Printer.header header).toList =
      ['\n'] ++ ("[" ++ header ++ "]\n").toList := by
    simp [Printer.header]
  have hreads : ReadsAll (lines settings ++ ((Printer.header header).toList ++ lines inner))
      (settings.map statement ++ (.blank :: .openTable [header] :: inner.map statement)) := by
    rw [hheaderText, List.append_assoc]
    exact (readsAll settings).append (.cons (by simp) Statement.reads_blank
      (.cons (by simp) (Statement.reads_header hheader) (readsAll inner)))
  rw [List.append_assoc]
  rw [hreads.parse_eq (by simp [hheaderText]) (head_lines settings (by simp [hheaderText])),
    List.foldlM_append, foldlM_apply_top h]
  change Option.map _ ((Statement.apply ([], table settings) (.openTable [header])).bind
    fun state => (inner.map statement).foldlM Statement.apply state) = _
  rw [hopen]
  exact congrArg _ hunder

end Setting

end Downhill.Toml
