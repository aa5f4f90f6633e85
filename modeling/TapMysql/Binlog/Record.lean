import TapMysql.Discovery

/-!
# Row events and their records

A row event as mysql-replication delivers it, the checks on its column names, and the
rendering of its rows as RECORD messages. Library calls whose result only passes through (time
zones, geometries, JSON text, character sets) are functions of `RenderLib`.
-/

namespace TapMysql.Binlog

def sdcDeletedAt : String := "_sdc_deleted_at"

/-! ### Row events -/

def FieldType.timestamp : Nat := 7
def FieldType.bit : Nat := 16
def FieldType.timestamp2 : Nat := 17
def FieldType.json : Nat := 245

def mysqlTimestampTypes : List Nat := [FieldType.timestamp, FieldType.timestamp2]

/-- A column of a row event; it has no name when MySQL did not write the names. -/
structure DbColumn where
  name : Option String
  type : Nat
  maxLength : Option Nat
  deriving DecidableEq

/-- The rows of an event: images for an insert or a delete, pairs of images for an update. -/
inductive Change where
  | write (rows : List Record)
  | update (rows : List (Record × Record))
  | delete (rows : List Record)
  | other
  deriving DecidableEq

structure RowsEvent where
  schema : String
  table : String
  columns : List DbColumn
  timestamp : Int
  change : Change
  deriving DecidableEq

def RowsEvent.tapStreamId (ev : RowsEvent) : String := generateTapStreamId ev.schema ev.table

def Change.rowCount : Change → Nat
  | .write rows => rows.length
  | .update rows => rows.length
  | .delete rows => rows.length
  | .other => 0

/-! ### Column names -/

def dropPrefix : List Char → List Char → Option (List Char)
  | [], cs => some cs
  | _ :: _, [] => none
  | p :: ps, c :: cs => if p = c then dropPrefix ps cs else none

/-- `^UNKNOWN_COL\d+$`. -/
def isUnknownColumn (name : String) : Bool :=
  match dropPrefix "UNKNOWN_COL".toList name.toList with
  | none => false
  | some rest =>
    match rest.dropWhile Char.isDigit with
    | [] => !rest.isEmpty
    | ['\n'] => decide (1 < rest.length)
    | _ => false

/-- `re.match(r'__dropped_col_\d+__', col_name)`. -/
def isDroppedColumn (name : String) : Bool :=
  match dropPrefix "__dropped_col_".toList name.toList with
  | none => false
  | some rest =>
    (rest.headD ' ').isDigit && (dropPrefix "__".toList (rest.dropWhile Char.isDigit)).isSome

/-- `__get_diff_in_columns_list`: the columns of the event that the schema does not have. -/
def getDiffInColumnsList (ev : RowsEvent) (schemaProperties ignoreColumns : List String) :
    List String :=
  (ev.columns.filterMap DbColumn.name).filter fun name =>
    !(isDroppedColumn name || ignoreColumns.contains name) && !schemaProperties.contains name

def unnamedColumns (ev : RowsEvent) : List DbColumn :=
  ev.columns.filter fun c => match c.name with
    | none => true
    | some name => isUnknownColumn name

def verifyEventColumnNames (ev : RowsEvent) (tapStreamId logFile : String) (logPos : Nat) :
    Except Err Unit :=
  if (unnamedColumns ev).isEmpty then .ok ()
  else
    let unnamed := (unnamedColumns ev).length
    let total := ev.columns.length
    .error ⟨.exception,
      s!"Stream `{tapStreamId}`: the values of the binlog event at {logFile}:{logPos} cannot be " ++
      s!"mapped to columns safely, so the tap does not emit it ({unnamed} of " ++
      s!"{total} columns have no name). Either MySQL wrote the event while " ++
      "binlog_row_metadata was not 'FULL', or the table gained or lost a column after MySQL " ++
      "wrote it. Set binlog_row_metadata to 'FULL' on the source server, then re-sync this " ++
      "stream with FULL_TABLE to get past the events that MySQL has already written."⟩

/-! ### Rendering -/

structure RenderLib where
  /-- `val.replace(tzinfo=local zone).astimezone(UTC).isoformat()` -/
  utcOfLocal : DateTime → String
  /-- `json.dumps(Geometry(wkb, srid=srid).geojson)` -/
  geojson : List UInt8 → Nat → Except Err String
  jsonDumps : Val → Except Err String
  /-- `bytes.decode()` -/
  decode : List UInt8 → Option String
  /-- `bytes.decode('utf-8', errors='replace')` -/
  decodeReplace : List UInt8 → String

mutual

def jsonBytesToString (lib : RenderLib) : Val → Except Err Val
  | .bytes bs =>
    match lib.decode bs with
    | some s => .ok (.str s)
    | none => .error ⟨.decodeError, "invalid start byte"⟩
  | .dict items =>
    match jsonItemsToString lib items with
    | .ok items => .ok (.dict (Dict.ofList items).entries)
    | .error e => .error e
  | .tuple xs =>
    match jsonListToString lib xs with
    | .ok xs => .ok (.tuple xs)
    | .error e => .error e
  | .list xs =>
    match jsonListToString lib xs with
    | .ok xs => .ok (.list xs)
    | .error e => .error e
  | v => .ok v

def jsonListToString (lib : RenderLib) : List Val → Except Err (List Val)
  | [] => .ok []
  | x :: xs =>
    match jsonBytesToString lib x with
    | .error e => .error e
    | .ok x =>
      match jsonListToString lib xs with
      | .ok xs => .ok (x :: xs)
      | .error e => .error e

def jsonItemsToString (lib : RenderLib) : List (Val × Val) → Except Err (List (Val × Val))
  | [] => .ok []
  | item :: items =>
    match jsonItemToString lib item with
    | .error e => .error e
    | .ok item =>
      match jsonItemsToString lib items with
      | .ok items => .ok (item :: items)
      | .error e => .error e

def jsonItemToString (lib : RenderLib) : Val × Val → Except Err (Val × Val)
  | (k, v) =>
    match jsonBytesToString lib k with
    | .error e => .error e
    | .ok k =>
      match jsonBytesToString lib v with
      | .ok v => .ok (k, v)
      | .error e => .error e

end

section JsonBytesToString

variable {ι : Type*} {lib : RenderLib}

theorem jsonListToString_map {xs : List ι} {f g : ι → Val}
    (h : ∀ x ∈ xs, jsonBytesToString lib (f x) = .ok (g x)) :
    jsonListToString lib (xs.map f) = .ok (xs.map g) := by
  induction xs with
  | nil => rfl
  | cons x xs ih =>
    obtain ⟨hx, hrest⟩ := List.forall_mem_cons.mp h
    rw [List.map_cons, List.map_cons, jsonListToString, hx, ih hrest]

theorem jsonItemsToString_map {items : List ι} {f g : ι → Val × Val}
    (hkeys : ∀ i ∈ items, jsonBytesToString lib (f i).1 = .ok (g i).1)
    (hvalues : ∀ i ∈ items, jsonBytesToString lib (f i).2 = .ok (g i).2) :
    jsonItemsToString lib (items.map f) = .ok (items.map g) := by
  induction items with
  | nil => rfl
  | cons i items ih =>
    obtain ⟨hkey, hkeys⟩ := List.forall_mem_cons.mp hkeys
    obtain ⟨hvalue, hvalues⟩ := List.forall_mem_cons.mp hvalues
    rw [List.map_cons, List.map_cons, jsonItemsToString, jsonItemToString, hkey, hvalue,
      ih hkeys hvalues]

end JsonBytesToString

/-- `int(val)` of a value that is not a byte string. -/
def intOfVal : Val → Except Err Int
  | .bool b => .ok (if b then 1 else 0)
  | .int n => .ok n
  | .float q => .ok (if q < 0 then -((-q).floor) else q.floor)
  | .decimal q => .ok (if q < 0 then -((-q).floor) else q.floor)
  | .str s =>
    match pyInt s with
    | some n => .ok n
    | none => .error ⟨.valueError, "invalid literal for int() with base 10: '" ++ s ++ "'"⟩
  | _ => .error ⟨.typeError, "int() argument must be a string, a bytes-like object or a real number"⟩

def isBooleanType (prop : PropSchema) : Except Err Bool :=
  match prop.type with
  | some types => .ok (types.contains "boolean")
  | none => .error ⟨.typeError, "argument of type 'NoneType' is not iterable"⟩

/-- The value of a boolean property. -/
def renderBoolean (dbType : Option Nat) (val : Val) : Except Err Val :=
  if val = .null then .ok .null
  else if val.isZero then .ok (.bool false)
  else if dbType = some FieldType.bit then
    match val with
    | .bytes bs => .ok (.bool (decide (intFromBytesBig bs ≠ 0)))
    | v =>
      match intOfVal v with
      | .ok n => .ok (.bool (decide (n ≠ 0)))
      | .error e => .error e
  else .ok (.bool true)

/-- The branches of `row_to_singer_record` after those for date and time values. -/
def renderOther (lib : RenderLib) (prop : PropSchema) (col : Option DbColumn) (val : Val) :
    Except Err Val :=
  if col.map DbColumn.type = some FieldType.json then
    match jsonBytesToString lib val with
    | .error e => .error e
    | .ok doc =>
      match lib.jsonDumps doc with
      | .ok s => .ok (.str s)
      | .error e => .error e
  else if prop.format = some "spatial" then
    if val.truthy then
      match val with
      | .bytes bs =>
        match lib.geojson (bs.drop 4) (intFromBytesLittle (bs.take 4)) with
        | .ok s => .ok (.str s)
        | .error e => .error e
      | _ => .error ⟨.typeError, "a bytes-like object is required"⟩
    else .ok .null
  else
    match val with
    | .bytes bs =>
      if prop.format = some "binary" then
        match col.bind DbColumn.maxLength with
        | some n => .ok (.str (ljustZero (n * 2) (hexEncode bs)))
        | none => .ok (.str (hexEncode bs))
      else
        match isBooleanType prop with
        | .error e => .error e
        | .ok true => renderBoolean (col.map DbColumn.type) val
        | .ok false => .ok (.str (lib.decodeReplace bs))
    | val =>
      match isBooleanType prop with
      | .error e => .error e
      | .ok true => renderBoolean (col.map DbColumn.type) val
      | .ok false => .ok val

/-- One column of `row_to_singer_record`. -/
def renderValue (lib : RenderLib) (prop : PropSchema) (col : Option DbColumn) (val : Val) :
    Except Err Val :=
  match val with
  | .datetime d =>
    if (col.map DbColumn.type).any mysqlTimestampTypes.contains then .ok (.str (lib.utcOfLocal d))
    else .ok (.str (d.isoformat ++ "+00:00"))
  | .date d => .ok (.str d.isoformat)
  | .timedelta us =>
    if prop.format = some "time" then .ok (.str (timedeltaStr us))
    else .ok (.str ((dateTimeOfEpoch us).isoformat ++ "+00:00" ++ "+00:00"))
  | val => renderOther lib prop col val

/-- `db_column_map.get(name)`, where a later column of the same name has overwritten an
earlier one. -/
def dbColumn (columns : List DbColumn) (name : String) : Option DbColumn :=
  columns.reverse.find? fun c => decide (c.name = some name)

def renderItems (lib : RenderLib) (schema : Schema) (columns : List DbColumn) :
    List (String × Val) → Except Err (List (String × Val))
  | [] => .ok []
  | (name, val) :: rest =>
    match schema.get? name with
    | none => .error (.keyError name)
    | some prop =>
      match renderValue lib prop (dbColumn columns name) val with
      | .error e => .error e
      | .ok v =>
        match renderItems lib schema columns rest with
        | .ok items => .ok ((name, v) :: items)
        | .error e => .error e

def rowToSingerRecord (lib : RenderLib) (entry : CatalogEntry) (version : Val)
    (columns : List DbColumn) (row : Record) (timeExtracted : String) : Except Err Message :=
  match renderItems lib entry.schema columns row.entries with
  | .ok items => .ok (.record entry.stream (Dict.ofList items) version timeExtracted)
  | .error e => .error e

/-! ### Handlers -/

/-- Write one RECORD for each image, restricted to the wanted columns; an error ends the
event after the records already written. -/
def emitRows (lib : RenderLib) (entry : CatalogEntry) (version : Val) (dbColumns : List DbColumn)
    (columns : List String) (timeExtracted : String) : List Record → List Message × Option Err
  | [] => ([], none)
  | row :: rest =>
    match rowToSingerRecord lib entry version dbColumns (row.filterKeys columns.contains)
        timeExtracted with
    | .error e => ([], some e)
    | .ok m =>
      let r := emitRows lib entry version dbColumns columns timeExtracted rest
      (m :: r.1, r.2)

/-- What a handler reads besides the event. -/
structure HandlerArgs where
  lib : RenderLib
  entry : CatalogEntry
  state : State
  columns : List String
  timeExtracted : String
  millis : Int

def handleRows (a : HandlerArgs) (ev : RowsEvent) (images : List Record) :
    List Message × Option Err :=
  emitRows a.lib a.entry (getStreamVersion a.entry.tapStreamId a.state a.millis) ev.columns
    a.columns a.timeExtracted images

def handleWriteRowsEvent (a : HandlerArgs) (ev : RowsEvent) (rows : List Record) :
    List Message × Option Err :=
  handleRows a ev rows

def handleUpdateRowsEvent (a : HandlerArgs) (ev : RowsEvent) (rows : List (Record × Record)) :
    List Message × Option Err :=
  handleRows a ev (rows.map Prod.snd)

/-- The marker that a delete puts into the image of the deleted row. -/
def eventTimestamp (ev : RowsEvent) : Val :=
  .str ((dateTimeOfEpoch (ev.timestamp * 1000000)).isoformat ++ "+00:00")

def handleDeleteRowsEvent (a : HandlerArgs) (ev : RowsEvent) (rows : List Record) :
    List Message × Option Err :=
  handleRows a ev (rows.map fun row => row.set sdcDeletedAt (eventTimestamp ev))

def handleRowsEvent (a : HandlerArgs) (ev : RowsEvent) : List Message × Option Err :=
  match ev.change with
  | .write rows => handleWriteRowsEvent a ev rows
  | .update rows => handleUpdateRowsEvent a ev rows
  | .delete rows => handleDeleteRowsEvent a ev rows
  | .other => ([], none)

/-- The images that the handler of an event renders. -/
def RowsEvent.images (ev : RowsEvent) : List Record :=
  match ev.change with
  | .write rows => rows
  | .update rows => rows.map Prod.snd
  | .delete rows => rows.map fun row => row.set sdcDeletedAt (eventTimestamp ev)
  | .other => []

theorem handleRowsEvent_eq (a : HandlerArgs) (ev : RowsEvent) :
    handleRowsEvent a ev = handleRows a ev ev.images := by
  unfold handleRowsEvent RowsEvent.images
  cases ev.change <;> rfl

@[simp] theorem images_length (ev : RowsEvent) : ev.images.length = ev.change.rowCount := by
  unfold RowsEvent.images Change.rowCount
  cases ev.change <;> simp

section RenderItems

variable {lib : RenderLib} {schema : Schema} {columns : List DbColumn}
  {row rest items items' : List (String × Val)} {name c : String} {x y : Val}

theorem renderItems_cons_iff :
    renderItems lib schema columns ((name, x) :: rest) = .ok items ↔
      ∃ p y items', schema.get? name = some p ∧
        renderValue lib p (dbColumn columns name) x = .ok y ∧
        renderItems lib schema columns rest = .ok items' ∧ items = (name, y) :: items' := by
  rw [renderItems]
  cases hp : schema.get? name with
  | none => simp
  | some p =>
    cases hy : renderValue lib p (dbColumn columns name) x with
    | error e => simp [hy]
    | ok y =>
      cases hr : renderItems lib schema columns rest with
      | error e => simp [hy]
      | ok items' => simp [hy, eq_comm]

theorem renderItems_names (h : renderItems lib schema columns row = .ok items) :
    items.map Prod.fst = row.map Prod.fst := by
  induction row generalizing items with
  | nil =>
    cases h
    rfl
  | cons item rest ih =>
    obtain ⟨p, y, items', -, -, hr, rfl⟩ := renderItems_cons_iff.mp h
    rw [List.map_cons, List.map_cons, ih hr]

theorem renderItems_append (ha : renderItems lib schema columns row = .ok items)
    (hb : renderItems lib schema columns rest = .ok items') :
    renderItems lib schema columns (row ++ rest) = .ok (items ++ items') := by
  induction row generalizing items with
  | nil =>
    cases ha
    exact hb
  | cons item row ih =>
    obtain ⟨p, y, tail, hp, hy, hr, rfl⟩ := renderItems_cons_iff.mp ha
    exact renderItems_cons_iff.mpr ⟨p, y, tail ++ items', hp, hy, ih hr, rfl⟩

theorem renderItems_mem (h : renderItems lib schema columns row = .ok items)
    (hin : (c, x) ∈ row) :
    ∃ p y, schema.get? c = some p ∧ renderValue lib p (dbColumn columns c) x = .ok y ∧
      (c, y) ∈ items := by
  induction row generalizing items with
  | nil => cases hin
  | cons item rest ih =>
    obtain ⟨p, y, tail, hp, hy, hr, rfl⟩ := renderItems_cons_iff.mp h
    rcases List.mem_cons.mp hin with rfl | hin
    · exact ⟨p, y, hp, hy, List.mem_cons_self⟩
    · obtain ⟨q, z, hq, hz, hmem⟩ := ih hr hin
      exact ⟨q, z, hq, hz, List.mem_cons_of_mem _ hmem⟩

theorem renderItems_schema (h : renderItems lib schema columns row = .ok items) :
    ∀ name ∈ row.map Prod.fst, name ∈ schema.keys := by
  intro name hname
  obtain ⟨⟨name, x⟩, hin, rfl⟩ := List.mem_map.mp hname
  obtain ⟨p, -, hp, -⟩ := renderItems_mem h hin
  exact Dict.mem_keys_iff.mpr ⟨p, hp⟩

end RenderItems

theorem rowToSingerRecord_keys {lib : RenderLib} {entry : CatalogEntry} {version : Val}
    {dbColumns : List DbColumn} {row : Record} {time : String} {m : Message}
    (h : rowToSingerRecord lib entry version dbColumns row time = .ok m) :
    ∃ record, m = .record entry.stream record version time ∧
      (∀ k, k ∈ record.keys ↔ k ∈ row.keys) ∧ ∀ k ∈ record.keys, k ∈ entry.schema.keys := by
  rw [rowToSingerRecord] at h
  cases hr : renderItems lib entry.schema dbColumns row.entries with
  | error e => simp [hr] at h
  | ok items =>
    simp only [hr, Except.ok.injEq] at h
    have hkeys : ∀ k, k ∈ (Dict.ofList items).keys ↔ k ∈ row.keys := by
      intro k
      rw [Dict.mem_keys_ofList, renderItems_names hr]
      rfl
    refine ⟨Dict.ofList items, h.symm, hkeys, ?_⟩
    intro k hk
    exact renderItems_schema hr k ((hkeys k).mp hk)

theorem emitRows_columns {lib : RenderLib} {entry : CatalogEntry} {version : Val}
    {dbColumns : List DbColumn} {columns : List String} {time : String} {images : List Record} :
    ∀ m ∈ (emitRows lib entry version dbColumns columns time images).1,
      ∃ record, m = .record entry.stream record version time ∧ ∀ c ∈ record.keys, c ∈ columns := by
  induction images with
  | nil => simp [emitRows]
  | cons row rest ih =>
    intro m hm
    rw [emitRows] at hm
    cases hr : rowToSingerRecord lib entry version dbColumns (row.filterKeys columns.contains)
        time with
    | error e => simp [hr] at hm
    | ok head =>
      simp only [hr, List.mem_cons] at hm
      rcases hm with rfl | hm
      · obtain ⟨record, rfl, hkeys, -⟩ := rowToSingerRecord_keys hr
        refine ⟨record, rfl, fun c hc => ?_⟩
        simpa using (Dict.mem_keys_filterKeys.mp ((hkeys c).mp hc)).2
      · exact ih m hm

theorem emitRows_length {lib : RenderLib} {entry : CatalogEntry} {version : Val}
    {dbColumns : List DbColumn} {columns : List String} {time : String} {images : List Record}
    (h : (emitRows lib entry version dbColumns columns time images).2 = none) :
    (emitRows lib entry version dbColumns columns time images).1.length = images.length := by
  induction images with
  | nil => rfl
  | cons row rest ih =>
    simp only [emitRows] at h ⊢
    split at h
    · cases h
    · simp [ih h]

theorem emitRows_map {ι : Type*} {lib : RenderLib} {entry : CatalogEntry} {version : Val}
    {dbColumns : List DbColumn} {columns : List String} {time : String} {xs : List ι}
    {f : ι → Record} {g : ι → Message} (h : ∀ x ∈ xs, rowToSingerRecord lib entry version dbColumns
      ((f x).filterKeys columns.contains) time = .ok (g x)) :
    emitRows lib entry version dbColumns columns time (xs.map f) = (xs.map g, none) := by
  induction xs with
  | nil => rfl
  | cons x rest ih =>
    obtain ⟨hx, hrest⟩ := List.forall_mem_cons.mp h
    simp [emitRows, hx, ih hrest]

end TapMysql.Binlog
