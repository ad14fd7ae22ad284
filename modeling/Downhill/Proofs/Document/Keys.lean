import Downhill.Proofs.Document.Scanning
import Downhill.Toml.Document

/-! # Keys of a document

No table of a document holds a key twice, however deep it lies: values are scanned without such a
table, and no statement makes one.
-/

namespace Downhill.Toml

/-! ## Tables without repeated keys -/

/-- No table in the item holds a key twice. -/
inductive Item.Distinct : Item → Prop where
  | string (text : String) : Distinct (.string text)
  | integer (value : Int) : Distinct (.integer value)
  | real (value : Float) : Distinct (.real value)
  | boolean (value : Bool) : Distinct (.boolean value)
  | moment : Distinct .moment
  | array {items : List Item} : (∀ item ∈ items, Distinct item) → Distinct (.array items)
  | table {origin : Origin} {entries : List (String × Item)} :
      (entries.map Prod.fst).Nodup → (∀ entry ∈ entries, Distinct entry.2) →
      Distinct (.table origin entries)
  | tables {elements : List (List (String × Item))} :
      (∀ entries ∈ elements, Distinct (.table .header entries)) → Distinct (.tables elements)

namespace Table

/-- No key stands in the table twice, nor in any table below it. -/
structure Distinct (table : Table) : Prop where
  keys : (table.map Prod.fst).Nodup
  items : ∀ entry ∈ table, entry.2.Distinct

theorem distinct_nil : Distinct [] := ⟨List.nodup_nil, fun _ h => absurd h List.not_mem_nil⟩

end Table

theorem Item.distinct_table {origin : Origin} {entries : Table} :
    (Item.table origin entries).Distinct ↔ entries.Distinct := by
  constructor
  · intro h
    cases h with
    | table hkeys hitems => exact ⟨hkeys, hitems⟩
  · exact fun h => .table h.keys h.items

theorem Item.distinct_tables {elements : List Table} :
    (Item.tables elements).Distinct ↔ ∀ entries ∈ elements, entries.Distinct := by
  constructor
  · intro h entries hmem
    cases h with
    | tables hall => exact distinct_table.mp (hall entries hmem)
  · exact fun h => .tables fun entries hmem => distinct_table.mpr (h entries hmem)

namespace Table

variable {table : Table} {key : String} {item : Item}

theorem mem_of_lookup (h : table.lookup key = some item) : (key, item) ∈ table := by
  obtain ⟨front, back, rfl, -⟩ := List.lookup_eq_some_iff.mp h
  simp

/-- In a table without repeated keys, what is found under a key is all there is. -/
theorem Distinct.lookup_eq_some_iff (h : table.Distinct) :
    table.lookup key = some item ↔ (key, item) ∈ table := by
  refine ⟨mem_of_lookup, fun hmem => ?_⟩
  obtain ⟨front, back, rfl⟩ := List.append_of_mem hmem
  refine List.lookup_eq_some_iff.mpr ⟨front, back, rfl, fun entry hentry => ?_⟩
  have hkeys := h.keys
  rw [List.map_append, List.nodup_append] at hkeys
  have hne : entry.1 ≠ key := hkeys.2.2 _ (List.mem_map_of_mem hentry) key (by simp)
  simpa using fun heq => hne heq.symm

theorem Distinct.lookup (h : table.Distinct) (hlookup : table.lookup key = some item) :
    item.Distinct := h.items _ (mem_of_lookup hlookup)

/-! ## Changing tables -/

theorem mem_put {entry : String × Item} (h : entry ∈ put key item table) :
    entry.2 = item ∨ entry ∈ table := by
  induction table with
  | nil => simp_all [put]
  | cons first table ih =>
    obtain ⟨k, i⟩ := first
    simp only [put] at h
    split at h
    · rcases List.mem_cons.mp h with rfl | h
      · exact .inl rfl
      · exact .inr (by simp [h])
    · rcases List.mem_cons.mp h with rfl | h
      · exact .inr (by simp)
      · exact (ih h).imp_right fun hmem => by simp [hmem]

theorem keys_put : (put key item table).map Prod.fst =
    if key ∈ table.map Prod.fst then table.map Prod.fst else table.map Prod.fst ++ [key] := by
  induction table with
  | nil => simp [put]
  | cons first table ih =>
    obtain ⟨k, i⟩ := first
    by_cases hkey : k = key
    · simp [put, hkey]
    · have hother : key ≠ k := fun heq => hkey heq.symm
      simp only [put, beq_eq_false_iff_ne.mpr hkey, Bool.false_eq_true, if_false, List.map_cons, ih,
        List.mem_cons, hother, false_or]
      split <;> simp

theorem Distinct.put (h : table.Distinct) (hitem : item.Distinct) :
    Distinct (put key item table) := by
  refine ⟨?_, fun entry hentry => ?_⟩
  · rw [keys_put]
    split
    · exact h.keys
    · rename_i hfresh
      refine List.nodup_append.mpr ⟨h.keys, by simp, fun k hk k' hk' heq => hfresh ?_⟩
      obtain rfl := List.mem_singleton.mp hk'
      exact heq ▸ hk
  · rcases mem_put hentry with rfl | hmem
    · exact hitem
    · exact h.items entry hmem

/-- What a statement does to a table does not repeat a key. -/
def KeepsDistinct (change : Origin → Table → Option Table) : Prop :=
  ∀ origin table changed, change origin table = some changed → table.Distinct → changed.Distinct

/-- A change at the end of a path is no more than the change itself on the way there. -/
theorem KeepsDistinct.alter {change : Origin → Table → Option Table} (h : KeepsDistinct change)
    (path : List Step) : KeepsDistinct (alter change path) := by
  intro origin table
  fun_induction Table.alter change path origin table with
  | case1 origin table => exact h origin table
  | case2 origin step path table hnone made ih =>
    intro changed halter hdistinct
    obtain ⟨inner, hinner, rfl⟩ := Option.map_eq_some_iff.mp halter
    exact hdistinct.put (Item.distinct_table.mpr (ih inner hinner distinct_nil))
  | case3 origin step path table origin' inner hlookup hrefused => simp
  | case4 origin step path table origin' inner hlookup hopen ih =>
    intro changed halter hdistinct
    obtain ⟨inner', hinner, rfl⟩ := Option.map_eq_some_iff.mp halter
    have hbelow := Item.distinct_table.mp (hdistinct.lookup hlookup)
    exact hdistinct.put (Item.distinct_table.mpr (ih inner' hinner hbelow))
  | case5 origin step path table elements hlookup ih =>
    intro changed halter hdistinct
    obtain ⟨inner, hinner, rfl⟩ := Option.map_eq_some_iff.mp halter
    have helements := Item.distinct_tables.mp (hdistinct.lookup hlookup)
    have hlast : Distinct (elements.getLast?.getD []) := by
      cases hlast : elements.getLast? with
      | none => exact distinct_nil
      | some entries => exact helements entries (List.mem_of_getLast? hlast)
    refine hdistinct.put (Item.distinct_tables.mpr fun entries hmem => ?_)
    rcases List.mem_append.mp hmem with hfront | hback
    · exact helements entries (List.dropLast_subset elements hfront)
    · rw [List.mem_singleton.mp hback]
      exact ih inner hinner hlast
  | case6 origin step path table other hlookup hother hother' => simp

theorem keepsDistinct_openTable (path : List String) (key : String) :
    KeepsDistinct fun _ => openTable path key := by
  intro origin table changed hopen
  refine KeepsDistinct.alter (fun _ table changed hchange hdistinct => ?_) _ _ table changed hopen
  split at hchange
  · obtain rfl := Option.some.inj hchange
    exact hdistinct.put (Item.distinct_table.mpr distinct_nil)
  · rename_i inner hlookup
    obtain rfl := Option.some.inj hchange
    exact hdistinct.put
      (Item.distinct_table.mpr (Item.distinct_table.mp (hdistinct.lookup hlookup)))
  · cases hchange

theorem keepsDistinct_openElement (path : List String) (key : String) :
    KeepsDistinct fun _ => openElement path key := by
  intro origin table changed hopen
  refine KeepsDistinct.alter (fun _ table changed hchange hdistinct => ?_) _ _ table changed hopen
  split at hchange
  · obtain rfl := Option.some.inj hchange
    exact hdistinct.put (Item.distinct_tables.mpr (by simpa using distinct_nil))
  · rename_i elements hlookup
    obtain rfl := Option.some.inj hchange
    have helements := Item.distinct_tables.mp (hdistinct.lookup hlookup)
    refine hdistinct.put (Item.distinct_tables.mpr fun entries hmem => ?_)
    rcases List.mem_append.mp hmem with hmem | hmem
    · exact helements entries hmem
    · obtain rfl := List.mem_singleton.mp hmem
      exact distinct_nil
  · cases hchange

theorem keepsDistinct_define (header path : List String) (key : String) (hitem : item.Distinct) :
    KeepsDistinct (define header path key item) := by
  intro origin table changed hdefine
  refine KeepsDistinct.alter (fun _ table changed hchange hdistinct => ?_) _ origin table changed
    hdefine
  split at hchange
  · cases hchange
  · split at hchange
    · obtain rfl := Option.some.inj hchange
      exact hdistinct.put hitem
    · cases hchange

end Table

/-! ## Scanners -/

namespace Scan

variable {β γ : Type}

/-- Whatever the text, an answer of the scanner has the property. -/
def Ensures (scan : Scan β) (P : β → Prop) : Prop :=
  ∀ cs answer rest, scan cs = some (answer, rest) → P answer

variable {P : β → Prop} {Q : γ → Prop}

theorem ensures_pure {b : β} (h : P b) : Ensures (pure b) P := by
  intro cs answer rest hscan
  cases hscan
  exact h

theorem Ensures.bind {scan : Scan β} {next : β → Scan γ} (h : Ensures scan P)
    (hnext : ∀ b, P b → Ensures (next b) Q) : Ensures (scan >>= next) Q := by
  intro cs answer rest hscan
  obtain ⟨⟨b, cs'⟩, hfirst, hsecond⟩ := Option.bind_eq_some_iff.mp hscan
  exact hnext b (h cs b cs' hfirst) cs' answer rest hsecond

/-- What a scanner answers that only clears the way does not matter. -/
theorem ensures_bind (scan : Scan β) {next : β → Scan γ} (h : ∀ b, Ensures (next b) Q) :
    Ensures (scan >>= next) Q :=
  Ensures.bind (P := fun _ => True) (fun _ _ _ _ => trivial) fun b _ => h b

theorem Ensures.times {step : Scan (β × Bool)} (h : Ensures step fun piece => P piece.1) (n : Nat) :
    Ensures (times step n) fun pieces => ∀ b ∈ pieces, P b := by
  induction n with
  | zero =>
    intro cs answer rest hscan
    cases hscan
  | succ n ih =>
    refine h.bind fun piece hpiece => ?_
    dsimp only
    split
    · refine ih.bind fun pieces hpieces => ensures_pure ?_
      simpa using ⟨hpiece, hpieces⟩
    · exact ensures_pure (by simpa using hpiece)

theorem Ensures.repeated {step : Scan (β × Bool)} (h : Ensures step fun piece => P piece.1) :
    Ensures (repeated step) fun pieces => ∀ b ∈ pieces, P b :=
  fun cs => h.times (cs.length + 1) cs

end Scan

open Scan

/-! ## Values -/

namespace Value

theorem ensures_leaf : Ensures leaf Item.Distinct := by
  refine ensures_bind _ fun first => ?_
  have hliteral : Ensures (fun cs => (Literal.item (Literal.split cs).1).map fun item =>
      (item, (Literal.split cs).2)) Item.Distinct := by
    intro cs answer rest hscan
    obtain ⟨item, hitem, heq⟩ := Option.map_eq_some_iff.mp hscan
    cases heq
    unfold Literal.item at hitem
    split at hitem
    · cases hitem
      exact .boolean true
    · split at hitem
      · cases hitem
        exact .boolean false
      · split at hitem
        · cases hitem
          exact .moment
        · split at hitem
          · cases hitem
            exact .integer _
          · obtain ⟨x, -, rfl⟩ := Option.map_eq_some_iff.mp hitem
            exact .real x
  split
  · exact ensures_bind _ fun text => ensures_pure (.string text)
  · exact ensures_bind _ fun text => ensures_pure (.string text)
  · exact hliteral

variable {value : Scan Item} (h : Ensures value Item.Distinct)

include h

theorem ensures_element : Ensures (element value) fun piece => piece.1.Distinct := by
  refine h.bind fun item hitem => ensures_bind _ fun _ => ensures_bind _ fun first => ?_
  split
  · refine ensures_bind _ fun _ => ensures_bind _ fun _ => ensures_bind _ fun second => ?_
    split
    · exact ensures_bind _ fun _ => ensures_pure hitem
    · exact ensures_pure hitem
  · exact ensures_bind _ fun _ => ensures_pure hitem

theorem ensures_array : Ensures (array value) Item.Distinct := by
  refine ensures_bind _ fun _ => ensures_bind _ fun _ => ensures_bind _ fun first => ?_
  split
  · exact ensures_bind _ fun _ => ensures_pure (.array (by simp))
  · exact (ensures_element h).repeated.bind fun items hitems => ensures_pure (.array hitems)

theorem ensures_entry : Ensures (entry value) fun e => e.item.Distinct :=
  ensures_bind _ fun _ => ensures_bind _ fun _ => ensures_bind _ fun _ =>
    h.bind fun _ hitem => ensures_pure hitem

theorem ensures_inlineEntry : Ensures (inlineEntry value) fun piece => piece.1.item.Distinct := by
  refine (ensures_entry h).bind fun e he => ensures_bind _ fun _ => ensures_bind _ fun first => ?_
  split
  · exact ensures_bind _ fun _ => ensures_pure he
  · exact ensures_bind _ fun _ => ensures_pure he

omit h in
theorem distinct_gather {entries : List Entry} {table : Table}
    (hentries : ∀ e ∈ entries, e.item.Distinct) (hgather : gather entries = some table) :
    table.Distinct := by
  unfold gather at hgather
  have hstart : Table.Distinct [] := Table.distinct_nil
  generalize ([] : Table) = start at hgather hstart
  induction entries generalizing start with
  | nil =>
    cases hgather
    exact hstart
  | cons e entries ih =>
    rw [List.foldlM_cons] at hgather
    obtain ⟨next, hdefine, hrest⟩ := Option.bind_eq_some_iff.mp hgather
    have hnext := Table.keepsDistinct_define [] e.path e.key (hentries e (by simp)) _ _ _ hdefine
    exact ih (fun e' he' => hentries e' (by simp [he'])) next hrest (hnext hstart)

theorem ensures_inlineTable : Ensures (inlineTable value) Item.Distinct := by
  refine ensures_bind _ fun _ => ensures_bind _ fun _ => ensures_bind _ fun first => ?_
  split
  · exact ensures_bind _ fun _ => ensures_pure (Item.distinct_table.mpr Table.distinct_nil)
  · refine (Ensures.repeated (P := fun e => e.item.Distinct) (ensures_inlineEntry h)).bind
      fun entries hentries => ?_
    have hgather : Ensures (liftM (gather entries) : Scan Table) Table.Distinct := by
      intro cs table rest hscan
      obtain ⟨table', hgather, heq⟩ := Option.bind_eq_some_iff.mp hscan
      cases heq
      exact distinct_gather hentries hgather
    exact hgather.bind fun table htable => ensures_pure (Item.distinct_table.mpr htable)

end Value

theorem ensures_value (depth : Nat) : Ensures (value depth) Item.Distinct := by
  induction depth with
  | zero => exact Value.ensures_leaf
  | succ depth ih =>
    refine ensures_bind _ fun first => ?_
    split
    · exact Value.ensures_array ih
    · exact Value.ensures_inlineTable ih
    · exact Value.ensures_leaf

/-! ## Statements -/

namespace Statement

/-- What a statement defines holds no key twice. -/
def Distinct : Statement → Prop
  | define e => e.item.Distinct
  | _ => True

theorem ensures_scan : Ensures scan Distinct := by
  refine ensures_bind _ fun text => ?_
  split
  · exact ensures_bind _ fun _ => ensures_bind _ fun _ => ensures_bind _ fun _ =>
      ensures_bind _ fun _ => ensures_bind _ fun _ => ensures_bind _ fun _ => ensures_pure trivial
  · exact ensures_bind _ fun _ => ensures_bind _ fun _ => ensures_bind _ fun _ =>
      ensures_bind _ fun _ => ensures_pure trivial
  · exact ensures_bind _ fun _ => ensures_pure trivial
  · exact ensures_bind _ fun _ => ensures_pure trivial
  · exact ensures_bind _ fun _ => ensures_pure trivial
  · exact ensures_pure trivial
  · exact (Value.ensures_entry (ensures_value _)).bind fun e he =>
      ensures_bind _ fun _ => ensures_pure he

theorem ensures_line : Ensures line fun piece => piece.1.Distinct :=
  ensures_bind _ fun _ => ensures_scan.bind fun _ hstatement =>
    ensures_bind _ fun _ => ensures_pure hstatement

/-- No statement repeats a key. -/
theorem Distinct.apply {statement : Statement} (h : statement.Distinct)
    {before after : List String × Table} (happly : apply before statement = some after)
    (hbefore : before.2.Distinct) : after.2.Distinct := by
  obtain ⟨header, root⟩ := before
  cases statement with
  | blank =>
    cases happly
    exact hbefore
  | openTable path =>
    obtain ⟨changed, hopen, rfl⟩ := Option.map_eq_some_iff.mp happly
    exact Table.keepsDistinct_openTable _ _ .header _ _ hopen hbefore
  | openElement path =>
    obtain ⟨changed, hopen, rfl⟩ := Option.map_eq_some_iff.mp happly
    exact Table.keepsDistinct_openElement _ _ .header _ _ hopen hbefore
  | define e =>
    obtain ⟨changed, hdefine, rfl⟩ := Option.map_eq_some_iff.mp happly
    exact Table.keepsDistinct_define _ _ _ h _ _ _ hdefine hbefore

theorem distinct_foldlM {lines : List Statement} (h : ∀ s ∈ lines, s.Distinct)
    {before after : List String × Table} (hlines : lines.foldlM apply before = some after)
    (hbefore : before.2.Distinct) : after.2.Distinct := by
  induction lines generalizing before with
  | nil =>
    cases hlines
    exact hbefore
  | cons s lines ih =>
    rw [List.foldlM_cons] at hlines
    obtain ⟨next, happly, hrest⟩ := Option.bind_eq_some_iff.mp hlines
    have hnext := (h s (by simp)).apply happly hbefore
    exact ih (fun s' hs' => h s' (by simp [hs'])) hrest hnext

end Statement

/-- A document that is read holds no key twice in any of its tables. -/
theorem distinct_parse {text : String} {root : Table} (h : parse text = some root) :
    root.Distinct := by
  obtain ⟨lines, hlines, hfold⟩ := Option.bind_eq_some_iff.mp h
  obtain ⟨⟨header, root'⟩, hfold, heq⟩ := Option.bind_eq_some_iff.mp hfold
  cases heq
  unfold statements at hlines
  split at hlines
  · rename_i scanned hscan
    cases hlines
    have hdistinct := Statement.ensures_line.repeated _ _ _ hscan
    exact Statement.distinct_foldlM hdistinct hfold Table.distinct_nil
  · cases hlines

end Downhill.Toml
