import TapMysql.Lib.KeyedTable
import TapMysql.Binlog.Run

/-!
# The table that a target builds from the records

A target that holds a table reads the RECORD messages of its row events: a record replaces the
row with the same key, and a record with the marker of a delete removes it. The handlers render
one image of each row change, so the target is a replica in the sense of `Keyed`. It shows the
table exactly when every key that an update moved a row away from is written again later.
-/

namespace TapMysql.Binlog

/-- The key of a row, and of its record: the values of the key columns. -/
def keyOf (names : List String) (row : Record) : List Val :=
  names.map fun c => (row.get? c).getD .null

theorem keyOf_congr {names : List String} {r r' : Record}
    (h : ∀ c ∈ names, r.get? c = r'.get? c) : keyOf names r = keyOf names r' :=
  List.map_congr_left fun c hc => by rw [h c hc]

theorem get?_eq_of_keyOf {names : List String} {r r' : Record} (h : keyOf names r = keyOf names r')
    {c : String} (hc : c ∈ names) : (r.get? c).getD .null = (r'.get? c).getD .null :=
  List.map_inj_left.mp h c hc

/-- A synced table with a key: its entry of the streams map, and its columns in the events. -/
structure SyncedTable where
  lib : RenderLib
  database : String
  entry : StreamsMapEntry
  dbColumns : List DbColumn
  keysDesired : ∀ c ∈ entry.catalogEntry.getKeyProperties, c ∈ entry.desiredColumns
  markerDesired : sdcDeletedAt ∈ entry.desiredColumns
  markerSchema : entry.catalogEntry.schema.get? sdcDeletedAt = some deletedAtSchema
  markerNoColumn : ∀ c ∈ dbColumns, c.name ≠ some sdcDeletedAt
  markerNoKey : sdcDeletedAt ∉ entry.catalogEntry.getKeyProperties

namespace SyncedTable

variable (T : SyncedTable)

def keyColumns : List String := T.entry.catalogEntry.getKeyProperties

/-- The desired columns of an image, as a record shows them. -/
def render (image : Record) : Except Err (List (String × Val)) :=
  renderItems T.lib T.entry.catalogEntry.schema T.dbColumns
    (image.filterKeys T.entry.desiredColumns.contains).entries

/-- A row that the table can have: it has the key columns, no column stands for the marker, and
its values can be rendered. -/
structure Row where
  values : Record
  hasKeys : ∀ c ∈ T.keyColumns, c ∈ values.keys
  noMarker : sdcDeletedAt ∉ values.keys
  items : List (String × Val)
  rendered : T.render values = .ok items

variable {T}

def Row.key (row : T.Row) : List Val := keyOf T.keyColumns row.values

def Row.record (row : T.Row) : Record := Dict.ofList row.items

/-! ### The records of a row -/

theorem Row.items_names (row : T.Row) :
    row.items.map Prod.fst = (row.values.filterKeys T.entry.desiredColumns.contains).keys :=
  renderItems_names row.rendered

theorem Row.items_nodup (row : T.Row) : (row.items.map Prod.fst).Nodup := by
  rw [row.items_names]
  exact Dict.keys_nodup _

theorem Row.record_noMarker (row : T.Row) : sdcDeletedAt ∉ row.record.keys := by
  intro h
  have hmem := Dict.mem_keys_ofList.mp h
  rw [row.items_names] at hmem
  exact row.noMarker (Dict.mem_keys_filterKeys.mp hmem).1

theorem Row.record_keyColumn (row : T.Row) {c : String} (hc : c ∈ T.keyColumns) :
    ∃ p y, T.entry.catalogEntry.schema.get? c = some p ∧
      renderValue T.lib p (dbColumn T.dbColumns c) ((row.values.get? c).getD .null) = .ok y ∧
      row.record.get? c = some y := by
  obtain ⟨x, hx⟩ := Dict.mem_keys_iff.mp (row.hasKeys c hc)
  have hdesired : (row.values.filterKeys T.entry.desiredColumns.contains).get? c = some x := by
    rw [Dict.get?_filterKeys, hx]
    simp [T.keysDesired c hc]
  obtain ⟨p, y, hp, hy, hmem⟩ := renderItems_mem row.rendered (Dict.get?_eq_some.mp hdesired)
  refine ⟨p, y, hp, ?_, Dict.get?_ofList_of_mem row.items_nodup hmem⟩
  rw [hx]
  exact hy

theorem Row.record_key {row row' : T.Row} (h : row.key = row'.key) :
    keyOf T.keyColumns row.record = keyOf T.keyColumns row'.record := by
  apply keyOf_congr
  intro c hc
  obtain ⟨p, y, hp, hy, hget⟩ := row.record_keyColumn hc
  obtain ⟨p', y', hp', hy', hget'⟩ := row'.record_keyColumn hc
  obtain rfl := Option.some.inj (hp.symm.trans hp')
  rw [get?_eq_of_keyOf h hc] at hy
  rw [hget, hget', Except.ok.inj (hy.symm.trans hy')]

end SyncedTable

/-! ### Row events of the table -/

inductive TableChange (ρ : Type) where
  | write (rows : List ρ)
  | update (rows : List (ρ × ρ))
  | delete (rows : List ρ)

def TableChange.edits {ρ : Type} : TableChange ρ → List (Edit ρ)
  | .write rows => rows.map .insert
  | .update rows => rows.map fun row => .update row.1 row.2
  | .delete rows => rows.map .delete

namespace SyncedTable

def changeOf {T : SyncedTable} : TableChange T.Row → Change
  | .write rows => .write (rows.map Row.values)
  | .update rows => .update (rows.map fun row => (row.1.values, row.2.values))
  | .delete rows => .delete (rows.map Row.values)

/-- A row event of the table, with what its handler reads besides. -/
structure Event (T : SyncedTable) where
  change : TableChange T.Row
  timestamp : Int
  state : State
  timeExtracted : String
  millis : Int

namespace Event

variable {T : SyncedTable}

def rowsEvent (ev : T.Event) : RowsEvent where
  schema := T.database
  table := T.entry.catalogEntry.table
  columns := T.dbColumns
  timestamp := ev.timestamp
  change := changeOf ev.change

def handled (ev : T.Event) : List Message × Option Err :=
  handleRowsEvent ⟨T.lib, T.entry.catalogEntry, ev.state, T.entry.desiredColumns,
    ev.timeExtracted, ev.millis⟩ ev.rowsEvent

/-- The image of a row change, as the event has it. -/
def imageOf (ev : T.Event) : Edit T.Row → Record
  | .insert v => v.values
  | .update _ v => v.values
  | .delete u => u.values.set sdcDeletedAt (eventTimestamp ev.rowsEvent)

def recordOf (ev : T.Event) : Edit T.Row → Record
  | .insert v => v.record
  | .update _ v => v.record
  | .delete u => u.record.set sdcDeletedAt (eventTimestamp ev.rowsEvent)

def messageOf (ev : T.Event) (e : Edit T.Row) : Message :=
  .record T.entry.catalogEntry.stream (ev.recordOf e)
    (getStreamVersion T.entry.catalogEntry.tapStreamId ev.state ev.millis) ev.timeExtracted

end Event

variable {T : SyncedTable}

theorem images_eq (ev : T.Event) : ev.rowsEvent.images = ev.change.edits.map ev.imageOf := by
  obtain ⟨change, timestamp, state, timeExtracted, millis⟩ := ev
  cases change with
  | write rows => simp [RowsEvent.images, Event.rowsEvent, changeOf, TableChange.edits,
      Event.imageOf, Function.comp_def]
  | update rows => simp [RowsEvent.images, Event.rowsEvent, changeOf, TableChange.edits,
      Event.imageOf, Function.comp_def]
  | delete rows => simp [RowsEvent.images, Event.rowsEvent, changeOf, TableChange.edits,
      Event.imageOf, Function.comp_def]

theorem dbColumn_marker : dbColumn T.dbColumns sdcDeletedAt = none := by
  rw [dbColumn, List.find?_eq_none]
  intro c hc
  have hne := T.markerNoColumn c (List.mem_reverse.mp hc)
  simpa using hne

theorem Row.render_deleted (row : T.Row) (s : String) :
    T.render (row.values.set sdcDeletedAt (.str s)) =
      .ok (row.items ++ [(sdcDeletedAt, .str s)]) := by
  have hfiltered : ((row.values.set sdcDeletedAt (.str s)).filterKeys
        T.entry.desiredColumns.contains).entries =
      (row.values.filterKeys T.entry.desiredColumns.contains).entries ++
        [(sdcDeletedAt, .str s)] := by
    simp [Dict.filterKeys, Dict.entries_set_of_notMem _ row.noMarker, T.markerDesired]
  have hmarker : renderItems T.lib T.entry.catalogEntry.schema T.dbColumns
      [(sdcDeletedAt, .str s)] = .ok [(sdcDeletedAt, .str s)] := by
    rw [renderItems, T.markerSchema, dbColumn_marker]
    rfl
  rw [render, hfiltered]
  exact renderItems_append row.rendered hmarker

theorem Event.render_image (ev : T.Event) (e : Edit T.Row) :
    ∃ items, T.render (ev.imageOf e) = .ok items ∧ Dict.ofList items = ev.recordOf e := by
  cases e with
  | insert v => exact ⟨v.items, v.rendered, rfl⟩
  | update u v => exact ⟨v.items, v.rendered, rfl⟩
  | delete u => exact ⟨_, u.render_deleted _, Dict.ofList_concat ..⟩

/-- The handler of an event writes the record of every row change. -/
theorem Event.handled_eq (ev : T.Event) :
    ev.handled = (ev.change.edits.map ev.messageOf, none) := by
  rw [Event.handled, handleRowsEvent_eq, handleRows, images_eq]
  apply emitRows_map
  intro e _
  obtain ⟨items, hitems, hrecord⟩ := ev.render_image e
  rw [Event.messageOf, ← hrecord, rowToSingerRecord]
  simp only [render] at hitems
  simp only [Event.rowsEvent, hitems]

end SyncedTable

/-! ### Targets -/

/-- What a target that holds a table does with a message. -/
def applyMessage {names : List String} (target : Keyed (keyOf names)) :
    Message → Keyed (keyOf names)
  | .record _ record _ _ =>
    if record.contains sdcDeletedAt then target.remove record else target.put record
  | _ => target

namespace SyncedTable

variable {T : SyncedTable}

/-- The table itself, and the copy of it that a target keeps. -/
abbrev Content (T : SyncedTable) := Keyed (Row.key : T.Row → List Val)

abbrev Target (T : SyncedTable) := Keyed (keyOf T.keyColumns)

theorem Row.contains_marker (row : T.Row) : row.record.contains sdcDeletedAt = false := by
  rw [Bool.eq_false_iff, ne_eq, Dict.contains_iff]
  exact row.record_noMarker

theorem applyMessage_messageOf (target : T.Target) (ev : T.Event) (e : Edit T.Row) :
    applyMessage target (ev.messageOf e) = target.write (e.map Row.record) := by
  cases e with
  | insert v =>
    simp [Event.messageOf, applyMessage, Event.recordOf, v.contains_marker, Edit.map, Keyed.write]
  | update u v =>
    simp [Event.messageOf, applyMessage, Event.recordOf, v.contains_marker, Edit.map, Keyed.write]
  | delete u =>
    have hmarked : (u.record.set sdcDeletedAt (eventTimestamp ev.rowsEvent)).contains
        sdcDeletedAt = true := by
      rw [Dict.contains, Dict.get?_set_self]
      rfl
    have hkey : keyOf T.keyColumns (u.record.set sdcDeletedAt (eventTimestamp ev.rowsEvent)) =
        keyOf T.keyColumns u.record := by
      apply keyOf_congr
      intro c hc
      rw [Dict.get?_set_ne]
      intro heq
      exact T.markerNoKey (heq ▸ hc)
    simp only [Event.messageOf, applyMessage, Event.recordOf, hmarked, if_true]
    exact target.remove_congr hkey

/-- The RECORD messages of the events, in order. -/
def written (evs : List T.Event) : List Message := evs.flatMap fun ev => ev.handled.1

def edits (evs : List T.Event) : List (Edit T.Row) := evs.flatMap fun ev => ev.change.edits

theorem foldl_applyMessage_map (target : T.Target) (ev : T.Event) (es : List (Edit T.Row)) :
    (es.map ev.messageOf).foldl applyMessage target =
      target.writeAll (es.map (Edit.map Row.record)) := by
  induction es generalizing target with
  | nil => rfl
  | cons e es ih =>
    rw [List.map_cons, List.foldl_cons, applyMessage_messageOf, ih]
    rfl

/-- A target that reads the records is a replica fed with the images of the row changes. -/
theorem foldl_applyMessage (target : T.Target) (evs : List T.Event) :
    (written evs).foldl applyMessage target =
      target.writeAll ((edits evs).map (Edit.map Row.record)) := by
  induction evs generalizing target with
  | nil => rfl
  | cons ev evs ih =>
    have hhead := foldl_applyMessage_map target ev ev.change.edits
    rw [written, List.flatMap_cons, List.foldl_append, ev.handled_eq, hhead]
    rw [edits, List.flatMap_cons, List.map_append, Keyed.writeAll_append]
    exact ih _

/-! ### When the target shows the table -/

/-- The target holds the records of the rows of the table, and nothing else. -/
def Reproduces (content : T.Content) (target : T.Target) : Prop :=
  Keyed.Mirrors Row.record content target

/-- Rows with different keys have records with different keys, as far as rows occur. -/
def KeysApart (content : T.Content) (evs : List T.Event) : Prop :=
  ∀ u v, content.Occurs (edits evs) u → content.Occurs (edits evs) v →
    keyOf T.keyColumns u.record = keyOf T.keyColumns v.record → u.key = v.key

/-- Every key that an update moves a row away from is written again later. -/
def KeysRewritten (evs : List T.Event) : Prop :=
  ∀ a u v b, edits evs = a ++ .update u v :: b → v.key ≠ u.key → ∃ e ∈ b, e.image.key = u.key

theorem keysRewritten_iff (evs : List T.Event) :
    KeysRewritten evs ↔ ∀ k, ¬ Keyed.LeftBehind Row.key k (edits evs) := by
  constructor
  · intro h k ⟨a, e, b, hes, ⟨u, v, he, hu, hv⟩, hlater⟩
    subst he hu
    obtain ⟨e, he, hkey⟩ := h a u v b hes hv
    exact hlater e he hkey
  · intro h a u v b hes hne
    by_contra hnone
    apply h u.key
    refine ⟨a, .update u v, b, hes, ⟨u, v, rfl, rfl, hne⟩, ?_⟩
    intro e he hkey
    exact hnone ⟨e, he, hkey⟩

theorem KeysApart.apart {content : T.Content} {evs : List T.Event} (h : KeysApart content evs) :
    Keyed.Apart Row.key (keyOf T.keyColumns) Row.record (content.Occurs (edits evs)) := by
  intro u v hu hv
  constructor
  · exact h u v hu hv
  · exact Row.record_key

/-- A target that shows the table shows it again after the records of its row events exactly when
every key that an update moved a row away from was written again. -/
theorem stream_reproduces_iff {content : T.Content} {target : T.Target} {evs : List T.Event}
    (hloaded : Reproduces content target) (hlegal : content.Legal (edits evs))
    (hapart : KeysApart content evs) :
    Reproduces (content.applyAll (edits evs)) ((written evs).foldl applyMessage target) ↔
      KeysRewritten evs := by
  rw [keysRewritten_iff, foldl_applyMessage]
  exact Keyed.mirrors_writeAll_iff hloaded hlegal hapart.apart

/-! ### Keys of numbers and texts -/

/-- A column whose numbers and texts are rendered as they are. -/
structure PlainColumn (p : PropSchema) (col : Option DbColumn) : Prop where
  notBoolean : isBooleanType p = .ok false
  notSpatial : p.format ≠ some "spatial"
  notJson : col.map DbColumn.type ≠ some FieldType.json

def PlainValue (x : Val) : Prop := (∃ n, x = .int n) ∨ ∃ s, x = .str s

theorem renderValue_plain {lib : RenderLib} {p : PropSchema} {col : Option DbColumn} {x : Val}
    (hcol : PlainColumn p col) (hx : PlainValue x) : renderValue lib p col x = .ok x := by
  rcases hx with ⟨n, rfl⟩ | ⟨s, rfl⟩
  · simp [renderValue, renderOther, hcol.notJson, hcol.notSpatial, hcol.notBoolean]
  · simp [renderValue, renderOther, hcol.notJson, hcol.notSpatial, hcol.notBoolean]

theorem Row.record_key_of_plain (row : T.Row)
    (hcols : ∀ c ∈ T.keyColumns, ∀ p, T.entry.catalogEntry.schema.get? c = some p →
      PlainColumn p (dbColumn T.dbColumns c))
    (hvals : ∀ c ∈ T.keyColumns, PlainValue ((row.values.get? c).getD .null)) :
    keyOf T.keyColumns row.record = row.key := by
  apply List.map_congr_left
  intro c hc
  obtain ⟨p, y, hp, hy, hget⟩ := row.record_keyColumn hc
  rw [renderValue_plain (hcols c hc p hp) (hvals c hc), Except.ok.injEq] at hy
  rw [hget, hy]
  rfl

/-- Keys of numbers and texts stay apart. -/
theorem keysApart_of_plain {content : T.Content} {evs : List T.Event}
    (hcols : ∀ c ∈ T.keyColumns, ∀ p, T.entry.catalogEntry.schema.get? c = some p →
      PlainColumn p (dbColumn T.dbColumns c))
    (hvals : ∀ row, content.Occurs (edits evs) row → ∀ c ∈ T.keyColumns,
      PlainValue ((row.values.get? c).getD .null)) : KeysApart content evs := by
  intro u v hu hv h
  rwa [u.record_key_of_plain hcols (hvals u hu), v.record_key_of_plain hcols (hvals v hv)] at h

end SyncedTable

/-! ### A row that gets another key -/

open SyncedTable

namespace Sample

/-- The table `db.t`, with the entry that the streams map has for it. -/
def table : SyncedTable where
  lib := lib
  database := "db"
  entry := ⟨addAutomaticProperties entry, entry.schema.keys ++ [sdcDeletedAt]⟩
  dbColumns := [⟨some "id", 3, none⟩]
  keysDesired := by decide
  markerDesired := by decide
  markerSchema := by decide
  markerNoColumn := by decide
  markerNoKey := by decide

def row (n : ℤ) : table.Row where
  values := Dict.ofList [("id", .int n)]
  hasKeys c hc := hc
  noMarker h := absurd (List.mem_singleton.mp h) (show sdcDeletedAt ≠ "id" by decide)
  items := [("id", .int n)]
  rendered := rfl

def event (change : TableChange table.Row) : table.Event := ⟨change, 0, State.empty, "now", 0⟩

/-- Row 1 becomes row 2. -/
def renumbered : table.Event := event (.update [(row 1, row 2)])

def loaded : table.Content := Keyed.empty.put (row 1)

def copy : table.Target := Keyed.empty.put (row 1).record

theorem loaded_copy : Reproduces loaded copy := by
  apply Keyed.mirrors_empty.put (S := fun v => v = row 1) _ _ rfl
  · intro u v hu hv
    rw [hu, hv]
    exact iff_of_true rfl rfl
  · intro u hu
    exact absurd hu (Keyed.not_holds_empty u)

theorem loaded_holds {v : table.Row} : loaded.Holds v ↔ v = row 1 := by
  rw [loaded, Keyed.holds_put]
  simp

theorem row_key_ne : (row 2).key ≠ (row 1).key := by decide

theorem edits_renumbered : edits [renumbered] = [.update (row 1) (row 2)] := rfl

theorem renumbered_legal : loaded.Legal (edits [renumbered]) := by
  rw [edits_renumbered, Keyed.legal_cons]
  refine ⟨⟨loaded_holds.mpr rfl, .inr ?_⟩, Keyed.legal_nil _⟩
  rw [Keyed.get_eq_none]
  intro v hv
  rw [loaded_holds.mp hv]
  exact row_key_ne.symm

/-- Row 3 stays in the table. -/
def twoRows : table.Content := loaded.put (row 3)

def twoCopies : table.Target := copy.put (row 3).record

/-- A new row 1 comes into the place of the renumbered one. -/
def reinserted : table.Event := event (.write [row 1])

theorem edits_reinserted :
    edits [renumbered, reinserted] = [.update (row 1) (row 2), .insert (row 1)] := rfl

theorem rows_apart : Keyed.Apart Row.key (keyOf table.keyColumns) Row.record
    fun v : table.Row => ∃ n, v = row n := by
  rintro _ _ ⟨m, rfl⟩ ⟨n, rfl⟩
  exact Iff.rfl

theorem twoCopies_reproduces : Reproduces twoRows twoCopies :=
  loaded_copy.put rows_apart (fun _ hu => ⟨1, loaded_holds.mp hu⟩) ⟨3, rfl⟩

theorem keysApart_twoRows {evs : List table.Event}
    (h : ∀ e ∈ edits evs, ∀ u ∈ e.rows, ∃ n, u = row n) : KeysApart twoRows evs := by
  have hrow : ∀ u, twoRows.Occurs (edits evs) u → ∃ n, u = row n := by
    intro u hu
    rcases hu with hu | ⟨e, he, hu⟩
    · rcases Keyed.holds_put.mp hu with rfl | ⟨hu, -⟩
      · exact ⟨3, rfl⟩
      · exact ⟨1, loaded_holds.mp hu⟩
    · exact h e he u hu
  exact fun u v hu hv => (rows_apart u v (hrow u hu) (hrow v hv)).mp

theorem renumbered_rows : ∀ e ∈ edits [renumbered], ∀ u ∈ e.rows, ∃ n, u = row n := by
  intro e he u hu
  obtain rfl := List.mem_singleton.mp he
  rcases List.mem_pair.mp hu with rfl | rfl
  · exact ⟨1, rfl⟩
  · exact ⟨2, rfl⟩

theorem reinserted_rows : ∀ e ∈ edits [renumbered, reinserted], ∀ u ∈ e.rows, ∃ n, u = row n := by
  intro e he u hu
  rcases List.mem_pair.mp he with rfl | rfl
  · exact renumbered_rows _ (List.mem_singleton_self _) u hu
  · exact ⟨1, List.mem_singleton.mp hu⟩

theorem reinserted_legal : twoRows.Legal (edits [renumbered, reinserted]) := by
  rw [edits_reinserted, Keyed.legal_cons, Keyed.legal_cons]
  exact ⟨⟨rfl, .inr rfl⟩, rfl, Keyed.legal_nil _⟩

theorem reinserted_rewritten : KeysRewritten [renumbered, reinserted] := by
  intro a u v b hes hne
  rw [edits_reinserted] at hes
  rcases List.cons_eq_append_iff.mp hes with ⟨rfl, h⟩ | ⟨a', rfl, h⟩
  · obtain ⟨hu, rfl⟩ := List.cons.inj h
    cases hu
    exact ⟨_, List.mem_singleton_self _, rfl⟩
  · rcases List.cons_eq_append_iff.mp h with ⟨rfl, h⟩ | ⟨a'', -, h⟩
    · cases (List.cons.inj h).1
    · simp at h

theorem renumbered_not_rewritten : ¬ KeysRewritten [renumbered] := by
  intro h
  obtain ⟨e, he, -⟩ := h [] (row 1) (row 2) [] edits_renumbered row_key_ne
  cases he

end Sample

/-- The update emits the record of row 2 alone, and the target keeps row 1. -/
theorem renumbered_row_stays :
    Reproduces Sample.loaded Sample.copy ∧ Sample.loaded.Legal (edits [Sample.renumbered]) ∧
      ¬ Reproduces (Sample.loaded.applyAll (edits [Sample.renumbered]))
        ((written [Sample.renumbered]).foldl applyMessage Sample.copy) := by
  refine ⟨Sample.loaded_copy, Sample.renumbered_legal, ?_⟩
  intro h
  have hkept : ((written [Sample.renumbered]).foldl applyMessage Sample.copy).Holds
      (Sample.row 1).record := by
    rw [foldl_applyMessage, Sample.edits_renumbered]
    apply Keyed.holds_put.mpr
    exact .inr ⟨Keyed.holds_put.mpr (.inl rfl), by decide⟩
  obtain ⟨v, hv, hrecord⟩ := (h _).mp hkept
  rw [Sample.edits_renumbered] at hv
  rcases Keyed.holds_put.mp hv with rfl | ⟨hv, -⟩
  · exact absurd hrecord (by decide)
  · obtain ⟨hv, hne⟩ := Keyed.holds_remove.mp hv
    rw [Sample.loaded_holds.mp hv] at hne
    exact hne rfl

/-- The target shows the table when a new row has taken the key that the update left, and not
before. -/
theorem stream_reproduces_iff_renumbered :
    Reproduces (Sample.twoRows.applyAll (edits [Sample.renumbered, Sample.reinserted]))
        ((written [Sample.renumbered, Sample.reinserted]).foldl applyMessage Sample.twoCopies) ∧
      ¬ Reproduces (Sample.twoRows.applyAll (edits [Sample.renumbered]))
        ((written [Sample.renumbered]).foldl applyMessage Sample.twoCopies) := by
  constructor
  · exact (stream_reproduces_iff Sample.twoCopies_reproduces Sample.reinserted_legal
      (Sample.keysApart_twoRows Sample.reinserted_rows)).mpr Sample.reinserted_rewritten
  · have hlegal : Sample.twoRows.Legal (edits [Sample.renumbered]) := by
      rw [Sample.edits_renumbered, Keyed.legal_cons]
      exact ⟨⟨rfl, .inr rfl⟩, Keyed.legal_nil _⟩
    exact fun h => Sample.renumbered_not_rewritten ((stream_reproduces_iff
      Sample.twoCopies_reproduces hlegal (Sample.keysApart_twoRows Sample.renumbered_rows)).mp h)

end TapMysql.Binlog
