import Mathlib
import Downhill.ConfigDocument
import Downhill.Proofs.Document.Keys
import Downhill.Proofs.Document.RoundTrip
import Downhill.Proofs.Run.Counting

/-! # Configurations field by field

What a document gives for a field is its value, and what it leaves out keeps its default, whatever
else the document holds and in whatever order. One field that cannot be read spoils the document.
-/

namespace Downhill

open Toml

/-! ## Records -/

namespace Toml.Item

/-- What fields are read from: a table, an array of the fields in order, or a moment, which has
none of them. -/
inductive IsRecord : Item → Prop where
  | table (origin : Origin) (entries : Table) : IsRecord (.table origin entries)
  | array (items : List Item) : IsRecord (.array items)
  | tables (elements : List Table) : IsRecord (.tables elements)
  | moment : IsRecord .moment

/-- What a record gives for the field with a key, the `i`-th one. -/
inductive Provides : Item → String → ℕ → Item → Prop where
  | key {origin : Origin} {entries : Table} {key : String} {i : ℕ} {item : Item} :
      (key, item) ∈ entries → Provides (.table origin entries) key i item
  | place {items : List Item} {key : String} {i : ℕ} {item : Item} :
      items[i]? = some item → Provides (.array items) key i item
  | element {elements : List Table} {key : String} {i : ℕ} {entries : Table} :
      elements[i]? = some entries → Provides (.tables elements) key i (.table .header entries)

variable {record item other : Item} {key : String} {i : ℕ}

theorem exists_fields_iff : (∃ field, record.fields? = some field) ↔ record.IsRecord := by
  constructor
  · rintro ⟨field, hfields⟩
    cases record with
    | table origin entries => exact .table origin entries
    | array items => exact .array items
    | tables elements => exact .tables elements
    | moment => exact .moment
    | string text => cases hfields
    | integer value => cases hfields
    | real value => cases hfields
    | boolean value => cases hfields
  · rintro (_ | _ | _ | _) <;> exact ⟨_, rfl⟩

/-- The fields that are found are those that the record provides. -/
theorem fields?_eq_some_iff (hdistinct : record.Distinct) {field : String → ℕ → Option Item}
    (hfields : record.fields? = some field) :
    field key i = some item ↔ record.Provides key i item := by
  cases record with
  | table origin entries =>
    cases hfields
    refine (distinct_table.mp hdistinct).lookup_eq_some_iff.trans ⟨.key, fun h => ?_⟩
    cases h with
    | key hmem => exact hmem
  | array items =>
    cases hfields
    refine ⟨.place, fun h => ?_⟩
    cases h with
    | place hitem => exact hitem
  | tables elements =>
    cases hfields
    refine Option.map_eq_some_iff.trans ⟨?_, fun h => ?_⟩
    · rintro ⟨entries, hentries, rfl⟩
      exact .element hentries
    · cases h with
      | element hentries => exact ⟨_, hentries, rfl⟩
  | moment =>
    cases hfields
    refine iff_of_false (by simp) fun h => ?_
    cases h
  | string text => cases hfields
  | integer value => cases hfields
  | real value => cases hfields
  | boolean value => cases hfields

theorem Provides.isRecord (h : record.Provides key i item) : record.IsRecord := by
  cases h with
  | key => exact .table _ _
  | place => exact .array _
  | element => exact .tables _

/-- A record gives at most one item for a field. -/
theorem Provides.unique (hdistinct : record.Distinct) (h : record.Provides key i item)
    (h' : record.Provides key i other) : item = other := by
  obtain ⟨field, hfields⟩ := exists_fields_iff.mpr h.isRecord
  have hitem := (fields?_eq_some_iff hdistinct hfields).mpr h
  have hother := (fields?_eq_some_iff hdistinct hfields).mpr h'
  exact Option.some.inj (hitem.symm.trans hother)

theorem Provides.distinct (hdistinct : record.Distinct) (h : record.Provides key i item) :
    item.Distinct := by
  cases h with
  | key hmem => exact (distinct_table.mp hdistinct).items _ hmem
  | place hitem =>
    cases hdistinct with
    | array hall => exact hall _ (List.mem_of_getElem? hitem)
  | element hentries =>
    exact distinct_table.mpr (distinct_tables.mp hdistinct _ (List.mem_of_getElem? hentries))

end Toml.Item

/-! ## Readers -/

/-- What an item is read as, and which items are read at all. -/
structure Decoded {β : Type} (answer : Option β) (decodes : β → Prop) (readable : Prop) : Prop where
  some_iff : ∀ b, answer = some b ↔ decodes b
  none_iff : answer = none ↔ ¬ readable

namespace Decoded

variable {β δ : Type} {answer : Option β} {decodes decodes' : β → Prop} {readable readable' : Prop}

theorem of_iff (h : ∀ b, answer = some b ↔ decodes b) (hexists : (∃ b, decodes b) ↔ readable) :
    Decoded answer decodes readable := by
  refine ⟨h, ?_⟩
  rw [← hexists, Option.eq_none_iff_forall_ne_some, not_exists]
  exact forall_congr' fun b => (h b).not

theorem exists_iff (h : Decoded answer decodes readable) : (∃ b, decodes b) ↔ readable := by
  rw [← not_iff_not, ← h.none_iff, Option.eq_none_iff_forall_ne_some, not_exists]
  exact forall_congr' fun b => (h.some_iff b).symm.not

theorem congr (h : Decoded answer decodes readable) (hdecodes : ∀ b, decodes b ↔ decodes' b)
    (hreadable : readable ↔ readable') : Decoded answer decodes' readable' where
  some_iff b := (h.some_iff b).trans (hdecodes b)
  none_iff := h.none_iff.trans hreadable.not

theorem pure (b : β) : Decoded (some b) (fun c => b = c) True where
  some_iff _ := Option.some_inj
  none_iff := by simp

/-- What is read in two parts is readable if both parts are. -/
theorem bind {f : β → Option δ} {decodesNext : β → δ → Prop} (h : Decoded answer decodes readable)
    (hnext : ∀ b, decodes b → Decoded (f b) (decodesNext b) readable') :
    Decoded (answer >>= f) (fun d => ∃ b, decodes b ∧ decodesNext b d) (readable ∧ readable') := by
  refine .of_iff (fun d => ?_) ?_
  · refine Option.bind_eq_some_iff.trans (exists_congr fun b => ?_)
    rw [h.some_iff b]
    exact and_congr_right fun hb => (hnext b hb).some_iff d
  · constructor
    · rintro ⟨d, b, hb, hd⟩
      exact ⟨h.exists_iff.mp ⟨b, hb⟩, (hnext b hb).exists_iff.mp ⟨d, hd⟩⟩
    · rintro ⟨hreadable, hreadable'⟩
      obtain ⟨b, hb⟩ := h.exists_iff.mpr hreadable
      obtain ⟨d, hd⟩ := (hnext b hb).exists_iff.mpr hreadable'
      exact ⟨d, b, hb, hd⟩

end Decoded

/-! ## Fields -/

/-- A field has the value that is given for it, and its default if none is given. -/
structure FieldIs {β : Type} (reads : Item → β → Prop) (default : β) (given : Item → Prop)
    (value : β) : Prop where
  present : ∀ item, given item → reads item value
  absent : (∀ item, ¬ given item) → value = default

section Field

variable {β : Type} {read : Item → Option β} {reads : Item → β → Prop} {default value : β}
  {record : Item} {key : String} {i : ℕ}

/-- Reading a field finds its value. -/
theorem readField_eq_some_iff
    (hread : ∀ item b, item.Distinct → (read item = some b ↔ reads item b))
    (hdistinct : record.Distinct) {field : String → ℕ → Option Item}
    (hfields : record.fields? = some field) :
    readField read default (field key i) = some value ↔
      FieldIs reads default (record.Provides key i) value := by
  have hprovides (item : Item) : field key i = some item ↔ record.Provides key i item :=
    Item.fields?_eq_some_iff hdistinct hfields
  cases hfield : field key i with
  | none =>
    have hnone (item : Item) : ¬ record.Provides key i item := by
      rw [← hprovides item, hfield]
      simp
    constructor
    · intro heq
      cases heq
      exact ⟨fun item hitem => absurd hitem (hnone item), fun _ => rfl⟩
    · intro his
      rw [his.absent hnone]
      rfl
  | some item =>
    have hitem := (hprovides item).mp hfield
    refine (hread item value (hitem.distinct hdistinct)).trans ⟨fun hvalue => ?_, fun his => ?_⟩
    · refine ⟨fun other hother => hitem.unique hdistinct hother ▸ hvalue, fun hnone => ?_⟩
      exact absurd hitem (hnone item)
    · exact his.present item hitem

/-- There is a value unless something that cannot be read is given. -/
theorem exists_fieldIs_iff (hdistinct : record.Distinct) :
    (∃ value, FieldIs reads default (record.Provides key i) value) ↔
      ∀ item, record.Provides key i item → ∃ value, reads item value := by
  constructor
  · rintro ⟨value, his⟩ item hitem
    exact ⟨value, his.present item hitem⟩
  · intro hreads
    by_cases hgiven : ∃ item, record.Provides key i item
    · obtain ⟨item, hitem⟩ := hgiven
      obtain ⟨value, hvalue⟩ := hreads item hitem
      refine ⟨value, fun other hother => hitem.unique hdistinct hother ▸ hvalue, fun hnone => ?_⟩
      exact absurd hitem (hnone item)
    · rw [not_exists] at hgiven
      exact ⟨default, fun item hitem => absurd hitem (hgiven item), fun _ => rfl⟩

theorem decoded_readField {readable : Item → Prop}
    (hread : ∀ item, item.Distinct → Decoded (read item) (reads item) (readable item))
    (hdistinct : record.Distinct) {field : String → ℕ → Option Item}
    (hfields : record.fields? = some field) :
    Decoded (readField read default (field key i))
      (FieldIs reads default (record.Provides key i))
      (∀ item, record.Provides key i item → readable item) := by
  refine .of_iff (fun value => ?_) ((exists_fieldIs_iff hdistinct).trans ?_)
  · exact readField_eq_some_iff (fun item b hitem => (hread item hitem).some_iff b) hdistinct
      hfields
  · exact forall₂_congr fun item hitem => (hread item (hitem.distinct hdistinct)).exists_iff

end Field

/-! ## Kinds of values -/

namespace Toml.Item

/-- A float, or an integer in its place. -/
inductive IsReal : Item → Float → Prop where
  | real (x : Float) : IsReal (.real x) x
  | integer (n : ℤ) : IsReal (.integer n) (Float.ofInt n)

/-- An integer that is not negative. -/
inductive IsCount : Item → ℕ → Prop where
  | integer (n : ℕ) : IsCount (.integer n) n

theorem real?_eq_some_iff {item : Item} {x : Float} : item.real? = some x ↔ item.IsReal x := by
  constructor
  · intro h
    cases item with
    | real value =>
      cases h
      exact .real x
    | integer n =>
      cases h
      exact .integer n
    | string text => cases h
    | boolean value => cases h
    | moment => cases h
    | array items => cases h
    | table origin entries => cases h
    | tables elements => cases h
  · rintro (_ | _) <;> rfl

theorem count?_eq_some_iff {item : Item} {n : ℕ} : item.count? = some n ↔ item.IsCount n := by
  constructor
  · intro h
    cases item with
    | integer k =>
      rw [count?, Option.ite_none_right_eq_some] at h
      obtain ⟨hnonneg, heq⟩ := h
      obtain rfl := Option.some.inj heq
      have hk := IsCount.integer k.toNat
      rwa [Int.toNat_of_nonneg hnonneg] at hk
    | real value => cases h
    | string text => cases h
    | boolean value => cases h
    | moment => cases h
    | array items => cases h
    | table origin entries => cases h
    | tables elements => cases h
  · rintro ⟨⟩
    simp [count?]

theorem decoded_fields? (record : Item) :
    Decoded record.fields? (fun field => record.fields? = some field) record.IsRecord :=
  .of_iff (fun _ => Iff.rfl) exists_fields_iff

theorem decoded_real? (item : Item) : Decoded item.real? item.IsReal (∃ x, item.IsReal x) :=
  .of_iff (fun _ => real?_eq_some_iff) Iff.rfl

theorem decoded_count? (item : Item) : Decoded item.count? item.IsCount (∃ n, item.IsCount n) :=
  .of_iff (fun _ => count?_eq_some_iff) Iff.rfl

end Toml.Item

namespace Schedule

/-- The name of a schedule, alone or as the one key of a table with nothing under it. -/
inductive IsNamed : Item → Schedule → Prop where
  | word (schedule : Schedule) : IsNamed (.string schedule.name) schedule
  | key (origin : Origin) {body : Item} (schedule : Schedule) : body.isEmpty = true →
      IsNamed (.table origin [(schedule.name, body)]) schedule

theorem ofName_eq_some_iff {name : String} {schedule : Schedule} :
    ofName name = some schedule ↔ name = schedule.name := by
  unfold ofName
  constructor
  · intro h
    split at h
    · cases h
      simpa using ‹(name == _) = true›
    · split at h
      · cases h
        simpa using ‹(name == _) = true›
      · cases h
  · rintro rfl
    cases schedule <;> decide

theorem ofItem_eq_some_iff {item : Item} {schedule : Schedule} :
    ofItem item = some schedule ↔ IsNamed item schedule := by
  constructor
  · intro h
    unfold ofItem at h
    split at h
    · rw [ofName_eq_some_iff.mp h]
      exact .word schedule
    · split at h
      · rw [ofName_eq_some_iff.mp h]
        exact .key _ schedule ‹_›
      · cases h
    · cases h
  · intro h
    cases h with
    | word => exact ofName_eq_some_iff.mpr rfl
    | key origin _ hbody =>
      simp only [ofItem, hbody, if_true]
      exact ofName_eq_some_iff.mpr rfl

theorem decoded_ofItem (item : Item) :
    Decoded (ofItem item) (IsNamed item) (∃ schedule, IsNamed item schedule) :=
  .of_iff (fun _ => ofItem_eq_some_iff) Iff.rfl

end Schedule

/-! ## Configurations -/

namespace SearchConfig

/-- Each field is given by the record or keeps its default. -/
structure Decodes (record : Item) (config : SearchConfig Float) : Prop where
  isRecord : record.IsRecord
  initialStep : FieldIs Item.IsReal (default : SearchConfig Float).initialStep
    (record.Provides "initial_step" 0) config.initialStep
  alpha : FieldIs Item.IsReal (default : SearchConfig Float).alpha
    (record.Provides "alpha" 1) config.alpha
  tau : FieldIs Item.IsReal (default : SearchConfig Float).tau
    (record.Provides "tau" 2) config.tau
  maxShrinks : FieldIs Item.IsCount (default : SearchConfig Float).maxShrinks
    (record.Provides "max_shrinks" 3) config.maxShrinks

/-- Each field that the record gives is of its kind. -/
structure Readable (record : Item) : Prop where
  isRecord : record.IsRecord
  initialStep : ∀ item, record.Provides "initial_step" 0 item → ∃ x, item.IsReal x
  alpha : ∀ item, record.Provides "alpha" 1 item → ∃ x, item.IsReal x
  tau : ∀ item, record.Provides "tau" 2 item → ∃ x, item.IsReal x
  maxShrinks : ∀ item, record.Provides "max_shrinks" 3 item → ∃ n, item.IsCount n

variable {record : Item}

theorem decoded_ofItem (hdistinct : record.Distinct) :
    Decoded (ofItem record) (Decodes record) (Readable record) := by
  refine ((Item.decoded_fields? record).bind fun field hfields =>
    (decoded_readField (fun item _ => item.decoded_real?) hdistinct hfields).bind fun _ _ =>
    (decoded_readField (fun item _ => item.decoded_real?) hdistinct hfields).bind fun _ _ =>
    (decoded_readField (fun item _ => item.decoded_real?) hdistinct hfields).bind fun _ _ =>
    (decoded_readField (fun item _ => item.decoded_count?) hdistinct hfields).bind fun _ _ =>
    .pure _).congr (fun config => ?_) ?_
  · constructor
    · rintro ⟨field, hfields, _, hinitialStep, _, halpha, _, htau, _, hmaxShrinks, rfl⟩
      exact ⟨Item.exists_fields_iff.mp ⟨field, hfields⟩, hinitialStep, halpha, htau, hmaxShrinks⟩
    · intro h
      obtain ⟨field, hfields⟩ := Item.exists_fields_iff.mpr h.isRecord
      exact ⟨field, hfields, _, h.initialStep, _, h.alpha, _, h.tau, _, h.maxShrinks, rfl⟩
  · constructor
    · rintro ⟨hrecord, hinitialStep, halpha, htau, hmaxShrinks, -⟩
      exact ⟨hrecord, hinitialStep, halpha, htau, hmaxShrinks⟩
    · intro h
      exact ⟨h.isRecord, h.initialStep, h.alpha, h.tau, h.maxShrinks, trivial⟩

/-- The keys of the fields, in their order. -/
def keys : List String := ["initial_step", "alpha", "tau", "max_shrinks"]

/-- An array is read as the table that has the same items under the keys in their order: what is
missing at its end keeps its default, and what is too much is ignored. -/
theorem ofItem_array (items : List Item) (origin : Origin) :
    ofItem (.array items) = ofItem (.table origin (keys.zip items)) := by
  rcases items with _ | ⟨initialStep, _ | ⟨alpha, _ | ⟨tau, _ | ⟨maxShrinks, rest⟩⟩⟩⟩
  all_goals rfl

end SearchConfig

namespace SolverConfig

/-- Each field is given by the record or keeps its default, and so is each field of the line search
if there is one. -/
structure Decodes (record : Item) (config : SolverConfig Float) : Prop where
  isRecord : record.IsRecord
  tolerance : FieldIs Item.IsReal (default : SolverConfig Float).tolerance
    (record.Provides "tolerance" 0) config.tolerance
  maxIterations : FieldIs Item.IsCount (default : SolverConfig Float).maxIterations
    (record.Provides "max_iterations" 1) config.maxIterations
  lineSearch : FieldIs SearchConfig.Decodes (default : SolverConfig Float).lineSearch
    (record.Provides "line_search" 2) config.lineSearch

/-- Each field that the record gives is of its kind. -/
structure Readable (record : Item) : Prop where
  isRecord : record.IsRecord
  tolerance : ∀ item, record.Provides "tolerance" 0 item → ∃ x, item.IsReal x
  maxIterations : ∀ item, record.Provides "max_iterations" 1 item → ∃ n, item.IsCount n
  lineSearch : ∀ item, record.Provides "line_search" 2 item → SearchConfig.Readable item

variable {record : Item}

theorem decoded_ofItem (hdistinct : record.Distinct) :
    Decoded (ofItem record) (Decodes record) (Readable record) := by
  refine ((Item.decoded_fields? record).bind fun field hfields =>
    (decoded_readField (fun item _ => item.decoded_real?) hdistinct hfields).bind fun _ _ =>
    (decoded_readField (fun item _ => item.decoded_count?) hdistinct hfields).bind fun _ _ =>
    (decoded_readField (fun _ => SearchConfig.decoded_ofItem) hdistinct hfields).bind fun _ _ =>
    .pure _).congr (fun config => ?_) ?_
  · constructor
    · rintro ⟨field, hfields, _, htolerance, _, hmaxIterations, _, hlineSearch, rfl⟩
      exact ⟨Item.exists_fields_iff.mp ⟨field, hfields⟩, htolerance, hmaxIterations, hlineSearch⟩
    · intro h
      obtain ⟨field, hfields⟩ := Item.exists_fields_iff.mpr h.isRecord
      exact ⟨field, hfields, _, h.tolerance, _, h.maxIterations, _, h.lineSearch, rfl⟩
  · constructor
    · rintro ⟨hrecord, htolerance, hmaxIterations, hlineSearch, -⟩
      exact ⟨hrecord, htolerance, hmaxIterations, hlineSearch⟩
    · intro h
      exact ⟨h.isRecord, h.tolerance, h.maxIterations, h.lineSearch, trivial⟩

end SolverConfig

namespace ShiftConfig

/-- Each field is given by the record or keeps its default. -/
structure Decodes (record : Item) (config : ShiftConfig Float) : Prop where
  isRecord : record.IsRecord
  gamma : FieldIs Item.IsReal (default : ShiftConfig Float).gamma
    (record.Provides "gamma" 0) config.gamma
  initialDelta : FieldIs Item.IsReal (default : ShiftConfig Float).initialDelta
    (record.Provides "initial_delta" 1) config.initialDelta
  maxDelta : FieldIs Item.IsReal (default : ShiftConfig Float).maxDelta
    (record.Provides "max_delta" 2) config.maxDelta
  schedule : FieldIs Schedule.IsNamed (default : ShiftConfig Float).schedule
    (record.Provides "schedule" 3) config.schedule

/-- Each field that the record gives is of its kind. -/
structure Readable (record : Item) : Prop where
  isRecord : record.IsRecord
  gamma : ∀ item, record.Provides "gamma" 0 item → ∃ x, item.IsReal x
  initialDelta : ∀ item, record.Provides "initial_delta" 1 item → ∃ x, item.IsReal x
  maxDelta : ∀ item, record.Provides "max_delta" 2 item → ∃ x, item.IsReal x
  schedule : ∀ item, record.Provides "schedule" 3 item → ∃ s, Schedule.IsNamed item s

variable {record : Item}

theorem decoded_ofItem (hdistinct : record.Distinct) :
    Decoded (ofItem record) (Decodes record) (Readable record) := by
  refine ((Item.decoded_fields? record).bind fun field hfields =>
    (decoded_readField (fun item _ => item.decoded_real?) hdistinct hfields).bind fun _ _ =>
    (decoded_readField (fun item _ => item.decoded_real?) hdistinct hfields).bind fun _ _ =>
    (decoded_readField (fun item _ => item.decoded_real?) hdistinct hfields).bind fun _ _ =>
    (decoded_readField (fun item _ => Schedule.decoded_ofItem item) hdistinct
      hfields).bind fun _ _ =>
    .pure _).congr (fun config => ?_) ?_
  · constructor
    · rintro ⟨field, hfields, _, hgamma, _, hinitialDelta, _, hmaxDelta, _, hschedule, rfl⟩
      exact ⟨Item.exists_fields_iff.mp ⟨field, hfields⟩, hgamma, hinitialDelta, hmaxDelta,
        hschedule⟩
    · intro h
      obtain ⟨field, hfields⟩ := Item.exists_fields_iff.mpr h.isRecord
      exact ⟨field, hfields, _, h.gamma, _, h.initialDelta, _, h.maxDelta, _, h.schedule, rfl⟩
  · constructor
    · rintro ⟨hrecord, hgamma, hinitialDelta, hmaxDelta, hschedule, -⟩
      exact ⟨hrecord, hgamma, hinitialDelta, hmaxDelta, hschedule⟩
    · intro h
      exact ⟨h.isRecord, h.gamma, h.initialDelta, h.maxDelta, h.schedule, trivial⟩

end ShiftConfig

/-! ## Documents -/

/-- What is read from the root table of a document as each of the configurations is decoded field
by field. -/
structure DecodesByField (root : Table) (search : Option (SearchConfig Float))
    (shift : Option (ShiftConfig Float)) (solver : Option (SolverConfig Float)) : Prop where
  search : Decoded search (SearchConfig.Decodes (.table .header root))
    (SearchConfig.Readable (.table .header root))
  shift : Decoded shift (ShiftConfig.Decodes (.table .header root))
    (ShiftConfig.Readable (.table .header root))
  solver : Decoded solver (SolverConfig.Decodes (.table .header root))
    (SolverConfig.Readable (.table .header root))

theorem decodesByField_ofItem {root : Table} (hdistinct : root.Distinct) :
    DecodesByField root (SearchConfig.ofItem (.table .header root))
      (ShiftConfig.ofItem (.table .header root)) (SolverConfig.ofItem (.table .header root)) where
  search := SearchConfig.decoded_ofItem (Item.distinct_table.mpr hdistinct)
  shift := ShiftConfig.decoded_ofItem (Item.distinct_table.mpr hdistinct)
  solver := SolverConfig.decoded_ofItem (Item.distinct_table.mpr hdistinct)

theorem decodesByField_parse {text : String} {root : Table} (h : Toml.parse text = some root) :
    DecodesByField root (SearchConfig.parse text) (ShiftConfig.parse text)
      (readDocument SolverConfig.ofItem text) := by
  rw [SearchConfig.parse, ShiftConfig.parse, readDocument_eq _ h, readDocument_eq _ h,
    readDocument_eq _ h]
  exact decodesByField_ofItem (distinct_parse h)

theorem SolverConfig.parse_eq_ok_iff {text : String} {config : SolverConfig Float} :
    SolverConfig.parse text = .ok config ↔
      readDocument SolverConfig.ofItem text = some config ∧ config.validate = .ok () := by
  unfold SolverConfig.parse
  cases readDocument SolverConfig.ofItem text with
  | none => simp
  | some read =>
    dsimp only
    cases hread : read.validate with
    | error reason =>
      refine iff_of_false (by simp [Except.map]) ?_
      rintro ⟨hsome, hvalid⟩
      cases hsome
      cases hread.symm.trans hvalid
    | ok _ =>
      constructor
      · intro hok
        cases hok
        exact ⟨rfl, hread⟩
      · rintro ⟨hsome, -⟩
        cases hsome
        rfl

/-- The fields of a configuration are decoded one by one, whatever else a document holds, and an
array gives them in their order. What is returned for a solver is what is decoded, if it is valid,
and no solve refuses it later. -/
theorem documents_decode :
    (∀ root : Table, root.Distinct →
      DecodesByField root (SearchConfig.ofItem (.table .header root))
        (ShiftConfig.ofItem (.table .header root)) (SolverConfig.ofItem (.table .header root))) ∧
    (∀ text root, Toml.parse text = some root →
      DecodesByField root (SearchConfig.parse text) (ShiftConfig.parse text)
        (readDocument SolverConfig.ofItem text)) ∧
    (∀ items origin, SearchConfig.ofItem (.array items) =
      SearchConfig.ofItem (.table origin (SearchConfig.keys.zip items))) ∧
    (∀ text config, SolverConfig.parse text = .ok config ↔
      readDocument SolverConfig.ofItem text = some config ∧ config.validate = .ok ()) ∧
    ∀ text config, SolverConfig.parse text = .ok config →
      ∀ {σ : Type} (rule : Rule Float) (attempts : ℕ) (problem : Objective σ Float)
        (x0 : Vec Float) (inherited : Option Float) (o : σ) (reason : ConfigError Float),
        (solve rule attempts problem config x0 (.start o inherited)).1 =
          .error (.error (.invalidConfig reason)) → rule.Refuses reason := by
  refine ⟨fun root => decodesByField_ofItem, fun text root => decodesByField_parse,
    SearchConfig.ofItem_array, fun text config => SolverConfig.parse_eq_ok_iff, ?_⟩
  intro text config hparse σ rule attempts problem x0 inherited o reason hstop
  exact solve_refuses (SolverConfig.parse_eq_ok_iff.mp hparse).2 o hstop

/-- A document with an array for the line search, an unknown key and no tolerance. -/
def shortDocument : String :=
  "line_search = [2]\nother = \x7b tau = 7 \x7d\nmax_iterations = 5\n"

/-- The short document is read, and a solve with what it holds still refuses a shift that does not
grow. -/
theorem documents_decode_short :
    ∃ (root : Table) (config : SolverConfig Float),
      root.Distinct ∧ Toml.parse shortDocument = some root ∧
      DecodesByField root (SearchConfig.ofItem (.table .header root))
        (ShiftConfig.ofItem (.table .header root)) (SolverConfig.ofItem (.table .header root)) ∧
      DecodesByField root (SearchConfig.parse shortDocument) (ShiftConfig.parse shortDocument)
        (some config) ∧
      SolverConfig.parse shortDocument = .ok config ∧
      config.maxIterations = 5 ∧ config.lineSearch.initialStep = 2.0 ∧
      config.lineSearch.tau = (SearchConfig.default : SearchConfig Float).tau ∧
      (Rule.stabilised (.shiftByGamma 1.0) : Rule Float).Refuses (.gamma 1.0) := by
  have hsome : (Toml.parse shortDocument).isSome = true := by decide +kernel
  obtain ⟨root, hroot⟩ := Option.isSome_iff_exists.mp hsome
  have hdistinct : root.Distinct := distinct_parse hroot
  have hparse : SolverConfig.parse shortDocument = .ok
      ⟨1e-4, 5, { (SearchConfig.default : SearchConfig Float) with initialStep := 2.0 }⟩ := by
    decide +kernel
  have hrefused (config : SolverConfig Float) :
      (solve (.stabilised (.shiftByGamma 1.0)) 100 ((Problem.saddle .default).objective Unit) config
        [0.0, 1.5] (.start ())).1 = .error (.error (.invalidConfig (.gamma 1.0))) := by
    have hgamma : (Stabiliser.shiftByGamma 1.0 : Stabiliser Float).validate =
        .error (.gamma 1.0) := by decide +kernel
    simp only [solve, bind_apply, Rule.prepare, hgamma]
    rfl
  obtain ⟨hroots, htexts, -, hok, hsolves⟩ := documents_decode
  have hdecoded := htexts shortDocument root hroot
  rw [((hok shortDocument _).mp hparse).1] at hdecoded
  exact ⟨root, _, hdistinct, hroot, hroots root hdistinct, hdecoded, hparse, rfl, rfl, rfl,
    hsolves shortDocument _ hparse _ _ _ _ none _ _ (hrefused _)⟩

end Downhill
