import TapMysql.Lib.Loop
import TapMysql.Select.Query

/-!
# One query of a SELECT-based sync

`sync_query` and `_sync_query_arrow` of `sync_strategies/common.py` with their batch writers.
Both loops are one loop over units of rows: a unit is a row for the first and a record batch for
the second. They differ in how a unit is rendered and in how the key values of its last row are
read. The state is the dictionary that the callers share, so it is returned also when an
exception ends the loop.
-/

namespace TapMysql

/-! ### Batch configuration and writers -/

structure BatchConfig where
  batchSize : Nat
  format : BatchFormat
  batchSize_pos : 0 < batchSize

/-- `BatchConfig.__post_init__`, for a supported format. -/
def BatchConfig.make (batchSize : Int) (format : BatchFormat) : Except Err BatchConfig :=
  if h : batchSize ≤ 0 then
    .error ⟨.valueError, "batch_size must be a positive integer, got " ++ toString batchSize⟩
  else .ok ⟨batchSize.toNat, format, by omega⟩

/-- `batch_config is not None and batch_config.format == 'arrow'`. -/
def isArrow (config : Option BatchConfig) : Bool :=
  (config.filter fun c => decide (c.format = .arrow)).isSome

/-- A batch writer with the rows of the file that it has not announced yet. -/
structure BatchWriter where
  stream : String
  config : BatchConfig
  rows : List Record

namespace BatchWriter

def new (stream : String) (config : BatchConfig) : BatchWriter := ⟨stream, config, []⟩

def flush (w : BatchWriter) : List Message × BatchWriter :=
  if w.rows.isEmpty then ([], w)
  else ([.batch w.stream w.config.format w.rows], { w with rows := [] })

/-- Append rows to the file; the last component says whether this completed a batch. -/
def write (w : BatchWriter) (rows : List Record) : List Message × BatchWriter × Bool :=
  let w := { w with rows := w.rows ++ rows }
  if w.config.batchSize ≤ w.rows.length then (w.flush.1, w.flush.2, true)
  else ([], w, false)

end BatchWriter

/-! ### Rendering -/

def renderElem (p : PropSchema) (elem : Val) : Except Err Val :=
  match elem with
  | .datetime d => .ok (.str (d.isoformat ++ "+00:00"))
  | .timedelta us =>
    if p.format = some "time" then .ok (.str (timedeltaStr us))
    else .ok (.str ((dateTimeOfEpoch us).isoformat ++ "+00:00" ++ "+00:00"))
  | elem =>
    match p.type with
    | none => .error ⟨.typeError, "argument of type 'NoneType' is not iterable"⟩
    | some types =>
      if types.contains "boolean" then
        .ok (match elem with | .null => .null | v => .bool !v.isZero)
      else .ok elem

def renderItems (schema : Schema) : List String → Row → Except Err (List (String × Val))
  | _, [] => .ok []
  | [], _ :: _ => .error ⟨.indexError, "list index out of range"⟩
  | c :: cs, v :: vs =>
    match schema.get? c with
    | none => .error (.keyError c)
    | some p =>
      match renderElem p v with
      | .error err => .error err
      | .ok x =>
        match renderItems schema cs vs with
        | .error err => .error err
        | .ok rest => .ok ((c, x) :: rest)

def rowToSingerRecord (e : CatalogEntry) (row : Row) (columns : List String) :
    Except Err Record :=
  match renderItems e.schema columns row with
  | .error err => .error err
  | .ok items => .ok (Dict.ofList items)

def booleanColumns (e : CatalogEntry) : List String :=
  (e.schema.entries.filter fun p => match p.2.type with
    | none => false
    | some types => types.contains "boolean").map Prod.fst

theorem mem_booleanColumns {e : CatalogEntry} {k : String} {p : PropSchema}
    (hp : e.schema.get? k = some p) {types : List String} (htypes : p.type = some types) :
    k ∈ booleanColumns e ↔ "boolean" ∈ types := by
  rw [booleanColumns, List.mem_map]
  constructor
  · rintro ⟨⟨c, q⟩, hq, rfl⟩
    obtain ⟨hmem, hbool⟩ := List.mem_filter.mp hq
    rw [Dict.get?_eq_some.mpr hmem, Option.some.injEq] at hp
    subst hp
    simpa [htypes] using hbool
  · intro h
    exact ⟨(k, p), List.mem_filter.mpr ⟨Dict.get?_eq_some.mp hp, by simpa [htypes] using h⟩, rfl⟩

/-- A column that discovery maps to a boolean, as it does TINYINT(1). -/
structure BooleanColumn (p : PropSchema) : Prop where
  type : p.type = some ["null", "boolean"]
  format : p.format = none

/-- `pc.not_equal(column, zero)`, with the zero of the column's type. -/
def castBoolean : Val → Val
  | .null => .null
  | .bool b => .bool b
  | .bytes bs => .bool (decide (bs ≠ [0]))
  | v => .bool !v.isZero

/-- A row of a record batch after `_cast_boolean_columns`. -/
def castBooleanColumns (e : CatalogEntry) (names : List String) (row : Row) : Record :=
  Dict.ofList ((names.zip row).map fun item =>
    (item.1, if (booleanColumns e).contains item.1 then castBoolean item.2 else item.2))

/-! ### Bookmarks -/

def recordField (record : Record) (name : String) : Except Err Val :=
  match record.get? name with
  | none => .error (.keyError name)
  | some v => .ok v

/-- `{k: v for k, v in record.items() if k in key_properties}`. -/
def lastPkFetched (keyProperties : List String) (record : Record) : Except Err (Option Val) :=
  .ok (some (.dict ((record.filterKeys keyProperties.contains).entries.map
    fun item => (.str item.1, item.2))))

def pkItems (record : Record) : List String → Except Err (List (Val × Val))
  | [] => .ok []
  | pk :: rest =>
    match recordField record pk with
    | .error err => .error err
    | .ok v =>
      match pkItems record rest with
      | .error err => .error err
      | .ok items => .ok ((.str pk, v) :: items)

/-- `{pk: record_batch.column(pk)[last] for pk in key_properties}`, when there are keys. -/
def lastPkFetchedArrow (keyProperties : List String) (record : Record) :
    Except Err (Option Val) :=
  if keyProperties.isEmpty then .ok none
  else match pkItems record keyProperties with
    | .error err => .error err
    | .ok items => .ok (some (.dict (Dict.ofList items).entries))

/-- `last_pk_fetched` of a written row, while the pass has a maximum key. -/
def advancePk (e : CatalogEntry) (pkFetched : List String → Record → Except Err (Option Val))
    (st : State) (record : Record) : State × Option Err :=
  if (st.getBookmark e.tapStreamId "max_pk_values").truthy then
    match pkFetched e.getKeyProperties record with
    | .error err => (st, some err)
    | .ok none => (st, none)
    | .ok (some v) => (st.writeBookmark e.tapStreamId "last_pk_fetched" v, none)
  else (st, none)

def advanceReplicationKey (e : CatalogEntry) (key : String) (st : State) (record : Record) :
    State × Option Err :=
  let st := st.writeBookmark e.tapStreamId "replication_key" (.str key)
  match recordField record key with
  | .error err => (st, some err)
  | .ok v => (st.writeBookmark e.tapStreamId "replication_key_value" v, none)

/-- The bookmark update that follows a written row. -/
def advance (e : CatalogEntry) (replicationKey : Val)
    (pkFetched : List String → Record → Except Err (Option Val)) (st : State) (record : Record) :
    State × Option Err :=
  match e.replicationMethod with
  | .fullTable => advancePk e pkFetched st record
  | .logBased => advancePk e pkFetched st record
  | .incremental =>
    match replicationKey with
    | .null => (st, none)
    | .str key => advanceReplicationKey e key st record
    -- a value that is not a name is in no record
    | other => (st.writeBookmark e.tapStreamId "replication_key" other, some (.keyError ""))
  | .other => (st, none)

/-! ### The loop -/

structure QueryState where
  st : State
  writer : Option BatchWriter
  rowsSaved : Nat
  checkpoint : Bool

/-- Write the records of a unit: to the batch file, or as RECORD messages. -/
def writeRecords (e : CatalogEntry) (version : Val) (timeExtracted : String) (s : QueryState)
    (records : List Record) : List Message × Option BatchWriter × Bool :=
  match s.writer with
  | some w => ((w.write records).1, some (w.write records).2.1, (w.write records).2.2)
  | none => (records.map fun r => .record e.stream r version timeExtracted, none,
      decide ((s.rowsSaved + records.length) % 1000 = 0))

def stateIf (checkpoint : Bool) (st : State) : List Message :=
  if checkpoint then [.state st] else []

section Loop

variable (e : CatalogEntry) (version : Val) (timeExtracted : String)
  (render : List Row → Except Err (List Record)) (update : State → Record → State × Option Err)

def queryStep (s : QueryState) (unit : List Row) :
    Step QueryState Message (State × Option Err) :=
  match render unit with
  | .error err => .halt [] (s.st, some err)
  | .ok records =>
    match records.getLast? with
    -- a record batch without rows
    | none => .next [] s
    | some last =>
      let written := writeRecords e version timeExtracted s records
      match update s.st last with
      | (st, some err) => .halt written.1 (st, some err)
      | (st, none) => .next (written.1 ++ stateIf written.2.2 st)
          ⟨st, written.2.1, s.rowsSaved + records.length, written.2.2⟩

def lastFlush (writer : Option BatchWriter) : List Message :=
  match writer with
  | some w => w.flush.1
  | none => []

/-- After the last unit: the exception of the fetch, or the last flush and STATE. -/
def queryEnd (error : Option Err) (s : QueryState) : List Message × State × Option Err :=
  match error with
  | some err => ([], s.st, some err)
  | none => (lastFlush s.writer ++ stateIf (!s.checkpoint) s.st, s.st, none)

end Loop

def renderRows (e : CatalogEntry) (columns : List String) : List Row → Except Err (List Record)
  | [] => .ok []
  | row :: rows =>
    match rowToSingerRecord e row columns with
    | .error err => .error err
    | .ok r =>
      match renderRows e columns rows with
      | .error err => .error err
      | .ok rs => .ok (r :: rs)

def syncQueryArrow (e : CatalogEntry) (st : State) (version : Val) (timeExtracted : String)
    (config : BatchConfig) (f : Fetch) : List Message × State × Option Err :=
  let replicationKey := st.getBookmark e.tapStreamId "replication_key"
  Loop.run
    (queryStep e version timeExtracted (fun batch => .ok (batch.map (castBooleanColumns e f.names)))
      (advance e replicationKey lastPkFetchedArrow))
    (queryEnd f.error) f.chunks ⟨st, some (.new e.stream config), 0, false⟩

def syncQuery (e : CatalogEntry) (st : State) (columns : List String) (version : Val)
    (timeExtracted : String) (config : Option BatchConfig) (f : Fetch) :
    List Message × State × Option Err :=
  match config.filter fun c => decide (c.format = .arrow) with
  | some config => syncQueryArrow e st version timeExtracted config f
  | none =>
    let replicationKey := st.getBookmark e.tapStreamId "replication_key"
    Loop.run
      (queryStep e version timeExtracted (renderRows e columns)
        (advance e replicationKey lastPkFetched))
      (queryEnd f.error) (f.rows.map fun row => [row])
      ⟨st, config.map (.new e.stream), 0, false⟩

end TapMysql
