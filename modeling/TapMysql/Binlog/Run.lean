import TapMysql.Binlog.Record
import TapMysql.Lib.Loop

/-!
# The loop of the binlog sync

`_run_binlog_sync` as a loop over what the reader delivers. An iteration sees an event
together with the position that the reader shows after it. The variables of the function are
one record; the messages it writes and the assignments to `reader.auto_position` are the
effects of the loop, in the order in which they happen.
-/

namespace TapMysql.Binlog

def updateBookmarkPeriod : Nat := 1000

def bookmarkKeys : List String := ["log_file", "log_pos", "version", "gtid"]

inductive Event where
  | rotate (nextBinlog : String) (position : Nat)
  | gtid (gtid : String)
  | rows (ev : RowsEvent)
  deriving DecidableEq

/-- One round of `for binlog_event in reader`: the event, `reader.log_file` and
`reader.log_pos` after it was read, and the clock while it is handled. -/
structure Delivery where
  event : Event
  logFile : String
  logPos : Nat
  now : String
  millis : Int
  deriving DecidableEq

/-- What the run reads and never changes. `discover n table` is the answer to the call number
`n` of `discover_catalog` in the run. -/
structure Env where
  lib : RenderLib
  discover : Nat → String → Except Err (List CatalogEntry)
  endLogFile : String
  endLogPos : Nat

structure StreamsMapEntry where
  catalogEntry : CatalogEntry
  desiredColumns : List String
  deriving DecidableEq

abbrev StreamsMap := Dict String StreamsMapEntry

/-- The variables of `_run_binlog_sync`, with the number of discoveries made so far. -/
structure Vars where
  streamsMap : StreamsMap
  state : State
  processedRowsEvents : Nat
  eventsSkipped : Nat
  logFile : Option String
  logPos : Option Nat
  gtidPos : Option String
  ignoredColumns : List String
  discoveries : Nat
  deriving DecidableEq

inductive Effect where
  | message (m : Message)
  | autoPosition (gtid : String)
  deriving DecidableEq

/-- How the loop was left. -/
inductive LoopEnd where
  | broke (v : Vars)
  | exhausted (v : Vars)
  | raised (e : Err)
  deriving DecidableEq

/-! ### The streams map -/

def deletedAtSchema : PropSchema :=
  { PropSchema.blank with type := some ["null", "string"], format := some "date-time" }

/-- `add_automatic_properties`, on the schema. -/
def addAutomaticProperties (e : CatalogEntry) : CatalogEntry :=
  { e with schema := e.schema.set sdcDeletedAt deletedAtSchema }

def generateStreamsMap (binlogStreams : List CatalogEntry) : StreamsMap :=
  Dict.ofList (binlogStreams.map fun e =>
    (e.tapStreamId, ⟨addAutomaticProperties e, e.schema.keys ++ [sdcDeletedAt]⟩))

/-! ### Bookmarks -/

def bookmarkPosition (logFile : String) (logPos : Nat) (gtid : Option String) (st : State)
    (tapStreamId : String) : State :=
  let st := st.writeBookmark tapStreamId "log_file" (.str logFile)
  let st := st.writeBookmark tapStreamId "log_pos" (.int logPos)
  match gtid with
  | some g => if g = "" then st else st.writeBookmark tapStreamId "gtid" (.str g)
  | none => st

def updateBookmarks (st : State) (streamsMap : StreamsMap) (logFile : String) (logPos : Nat)
    (gtid : Option String) : Except Err State :=
  if logFile ≠ "" ∧ logPos = 0 then
    .error ⟨.valueError, "binlog_file is present but binlog_pos is null! Please provide a " ++
      "binlog position to properly update the state"⟩
  else .ok (streamsMap.keys.foldl (bookmarkPosition logFile logPos gtid) st)

/-! ### Row events -/

/-- What a new discovery of the table of a stream comes to: the entry with its supported and
wanted columns, and the names of these columns. -/
structure Rediscovery where
  entry : CatalogEntry
  columns : List String

def rediscover (env : Env) (calls : Nat) (tapStreamId table : String) : Except Err Rediscovery :=
  match env.discover calls table with
  | .error e => .error e
  | .ok [] => .error ⟨.indexError, "list index out of range"⟩
  | .ok (found :: _) =>
    match desiredColumns (selectedProperties found) found.schema with
    | .error e => .error e
    | .ok newColumns => .ok
      { entry := addAutomaticProperties
          { found with
            stream := tapStreamId
            schema := found.schema.filterKeys newColumns.contains }
        columns := newColumns ++ [sdcDeletedAt] }

/-- The entry and variables after the columns of an event were compared with the schema. -/
structure Placed where
  emitted : List Message
  entry : StreamsMapEntry
  vars : Vars

def placeColumns (env : Env) (v : Vars) (tapStreamId : String) (entry : StreamsMapEntry)
    (ev : RowsEvent) : Except Err Placed :=
  let diff := getDiffInColumnsList ev entry.catalogEntry.schema.keys v.ignoredColumns
  if diff.isEmpty then .ok ⟨[], entry, v⟩
  else if !shouldRunDiscovery diff entry.catalogEntry.metadata then
    .ok ⟨[], entry, { v with ignoredColumns := v.ignoredColumns ++ diff }⟩
  else
    match rediscover env v.discoveries tapStreamId entry.catalogEntry.table with
    | .error e => .error e
    | .ok new =>
      let unresolved := diff.filter fun c => !new.entry.schema.contains c
      let v := { v with
        discoveries := v.discoveries + 1
        ignoredColumns := v.ignoredColumns ++ unresolved }
      if new.entry.schema.sameItems entry.catalogEntry.schema then .ok ⟨[], entry, v⟩
      else
        let newEntry : StreamsMapEntry := ⟨new.entry, new.columns⟩
        .ok ⟨[schemaMessage new.entry []], newEntry,
          { v with streamsMap := v.streamsMap.set tapStreamId newEntry }⟩

/-- The branch of the loop for a row event. -/
def handleEventOfRows (env : Env) (v : Vars) (d : Delivery) (ev : RowsEvent) :
    List Message × Except Err Vars :=
  match v.streamsMap.get? ev.tapStreamId with
  | none => ([], .ok { v with eventsSkipped := v.eventsSkipped + 1 })
  | some entry =>
    match verifyEventColumnNames ev ev.tapStreamId d.logFile d.logPos with
    | .error e => ([], .error e)
    | .ok () =>
      match placeColumns env v ev.tapStreamId entry ev with
      | .error e => ([], .error e)
      | .ok p =>
        let r := handleRowsEvent
          ⟨env.lib, p.entry.catalogEntry, p.vars.state, p.entry.desiredColumns, d.now, d.millis⟩ ev
        match r.2 with
        | some e => (p.emitted ++ r.1, .error e)
        | none => (p.emitted ++ r.1, .ok { p.vars with
            processedRowsEvents := p.vars.processedRowsEvents + ev.change.rowCount })

/-! ### The loop -/

/-- `(log_file > end_log_file) or (end_log_file == log_file and log_pos >= end_log_pos)`. -/
def reachedEnd (env : Env) (d : Delivery) : Bool :=
  decide (env.endLogFile < d.logFile) ||
    (decide (env.endLogFile = d.logFile) && decide (env.endLogPos ≤ d.logPos))

/-- The test for the periodic STATE message. -/
def periodicDue (v : Vars) : Bool :=
  (decide (v.processedRowsEvents ≠ 0) &&
    decide (v.processedRowsEvents % updateBookmarkPeriod = 0)) ||
  (decide (v.eventsSkipped ≠ 0) && decide (v.eventsSkipped % updateBookmarkPeriod = 0))

/-- The branch of the loop for the kind of event. -/
def handleEvent (env : Env) (v : Vars) (d : Delivery) : List Effect × Except Err Vars :=
  match d.event with
  | .rotate next position =>
    match updateBookmarks v.state v.streamsMap next position v.gtidPos with
    | .error e => ([], .error e)
    | .ok st => ([], .ok { v with state := st })
  | .gtid g =>
    match updateBookmarks v.state v.streamsMap d.logFile d.logPos (some g) with
    | .error e => ([], .error e)
    | .ok st => ([.autoPosition g], .ok { v with gtidPos := some g, state := st })
  | .rows ev =>
    let r := handleEventOfRows env v d ev
    (r.1.map Effect.message, r.2)

def takePosition (v : Vars) (d : Delivery) : Vars :=
  { v with logFile := some d.logFile, logPos := some d.logPos }

def iteration (env : Env) (v : Vars) (d : Delivery) : Step Vars Effect LoopEnd :=
  if reachedEnd env d then
    .halt [] (.broke { v with logFile := some env.endLogFile, logPos := some env.endLogPos })
  else
    let r := handleEvent env (takePosition v d) d
    match r.2 with
    | .error e => .halt r.1 (.raised e)
    | .ok v' =>
      if periodicDue v' then
        match updateBookmarks v'.state v'.streamsMap d.logFile d.logPos v'.gtidPos with
        | .error e => .halt r.1 (.raised e)
        | .ok st => .next (r.1 ++ [.message (.state st)]) { v' with state := st }
      else .next r.1 v'

/-- How the reader itself ends: it has nothing more, or it raises. -/
def readerEnd (failure : Option Err) (v : Vars) : List Effect × LoopEnd :=
  match failure with
  | none => ([], .exhausted v)
  | some e => ([], .raised e)

/-- The variables on entry; `reader.auto_position` is the gtid the reader was created with. -/
def initialVars (streamsMap : StreamsMap) (st : State) (autoPosition : Option String) : Vars where
  streamsMap := streamsMap
  state := st
  processedRowsEvents := 0
  eventsSkipped := 0
  logFile := none
  logPos := none
  gtidPos := autoPosition
  ignoredColumns := []
  discoveries := 0

/-- `log_file and log_pos`, with the two values. -/
def positionOf (v : Vars) : Option (String × Nat) :=
  match v.logFile, v.logPos with
  | some f, some p => if f = "" ∨ p = 0 then none else some (f, p)
  | _, _ => none

/-- The position after the loop: a run that exhausted the reader in the last file goes on to
the captured end. -/
def finalPosition (env : Env) (f : String) (p : Nat) : Nat :=
  if f = env.endLogFile ∧ p < env.endLogPos then env.endLogPos else p

/-- The statements after the loop. -/
def finish (env : Env) (v : Vars) : Except Err State :=
  match positionOf v with
  | none => .ok v.state
  | some (f, p) => updateBookmarks v.state v.streamsMap f (finalPosition env f p) v.gtidPos

def resultOf (env : Env) : LoopEnd → Except Err State
  | .broke v => finish env v
  | .exhausted v => finish env v
  | .raised e => .error e

/-- `_run_binlog_sync`: the effects, and the state on a normal return. -/
def runBinlogSync (env : Env) (streamsMap : StreamsMap) (st : State) (autoPosition : Option String)
    (deliveries : List Delivery) (failure : Option Err) : List Effect × Except Err State :=
  let r := Loop.run (iteration env) (readerEnd failure) deliveries
    (initialVars streamsMap st autoPosition)
  (r.1, resultOf env r.2)

/-! ### A small stream -/

namespace Sample

def lib : RenderLib where
  utcOfLocal d := d.isoformat ++ "+00:00"
  geojson _ _ := .ok "null"
  jsonDumps _ := .ok "null"
  decode _ := none
  decodeReplace _ := ""

def idSchema : PropSchema :=
  { PropSchema.blank with type := some ["null", "integer"], inclusion := some .automatic }

/-- Table `db.t` with the one column `id`, its primary key. -/
def entry : CatalogEntry where
  tapStreamId := "db-t"
  stream := "db-t"
  table := "t"
  metadata := Dict.ofList
    [([], Dict.ofList [("selected", .bool true), ("replication-method", .str "LOG_BASED"),
      ("database-name", .str "db"), ("table-key-properties", .list [.str "id"])]),
    (["properties", "id"], Dict.ofList [("selected-by-default", .bool true),
      ("datatype", .str "int"), ("inclusion", .str "automatic")])]
  schema := Dict.ofList [("id", idSchema)]

def streamsMap : StreamsMap := generateStreamsMap [entry]

/-- An insert of `n` rows into a table of the database `db`. -/
def insert (table : String) (n : ℕ) : RowsEvent where
  schema := "db"
  table := table
  columns := [⟨some "id", 3, none⟩]
  timestamp := 0
  change := .write (List.replicate n (Dict.ofList [("id", .int 1)]))

def env (endLogFile : String) (endLogPos : ℕ) : Env where
  lib := lib
  discover _ _ := .ok [entry]
  endLogFile := endLogFile
  endLogPos := endLogPos

end Sample

end TapMysql.Binlog
