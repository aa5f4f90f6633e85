import TapMysql.Binlog.Bookmark
import TapMysql.Binlog.Written

/-!
# The binlog sync of the tap

`sync_binlog_streams` with `sync_binlog_stream` and `create_binlog_stream_reader`: the SCHEMA
messages, the checks, the position to start from, the run and the final STATE message. The answers
of the server and of the reader are parameters.
-/

namespace TapMysql.Binlog

structure BinlogConfig where
  useGtid : Bool
  engine : Engine
  serverId : Val
  filterDbs : Option String

/-- The arguments of `BinLogStreamReader` that say where it starts. -/
inductive ReaderStart where
  | autoPosition (gtid : String)
  | logPosition (logFile : String) (logPos : Val)
  deriving DecidableEq

structure ReaderArgs where
  isMariadb : Bool
  serverId : Int
  onlySchemas : Option (List String)
  useColumnNameCache : Bool
  start : ReaderStart
  deriving DecidableEq

/-- `reader.auto_position` after the reader was created. -/
def ReaderArgs.autoPosition (r : ReaderArgs) : Option String :=
  match r.start with
  | .autoPosition gtid => some gtid
  | .logPosition _ _ => none

/-- What the binlog sync is answered from outside. -/
structure BinlogSource where
  lib : RenderLib
  discover : ℕ → String → Except Err (List CatalogEntry)
  server : Server
  verifyBinlogConfig : Except Err Bool
  fetchCurrentLogFileAndPos : Except Err (String × ℕ)
  randomServerId : Int
  /-- `str` of a value in the text of an exception -/
  str : Val → String
  /-- What a reader delivers, and the exception it ends with. -/
  read : ReaderArgs → List Delivery × Option Err

/-! ### The reader -/

def readerServerId (config : BinlogConfig) (random : Int) : Except Err Int :=
  if config.serverId.truthy then intOfVal config.serverId else .ok random

/-- `log_pos < 0`. -/
def isNegative : Val → Except Err Bool
  | .bool _ => .ok false
  | .int n => .ok (decide (n < 0))
  | .float q => .ok (decide (q < 0))
  | .decimal q => .ok (decide (q < 0))
  | _ => .error ⟨.typeError, "'<' not supported between these instances"⟩

def emptyGtid (str : Val → String) (gtidPos : Option String) : Err :=
  ⟨.valueError, "gtid_pos is empty \"" ++ str ((gtidPos.map Val.str).getD .null) ++
    "\"! Cannot start logical replication from empty gtid."⟩

def emptyPosition (str : Val → String) (logFile : Option String) (logPos : Val) : Err :=
  ⟨.valueError, "log file or pos is empty (\"" ++ str ((logFile.map Val.str).getD .null) ++
    "\", \"" ++ str logPos ++
    "\")! Cannot start logical replication from invalid log file/pos."⟩

/-- The branches of `create_binlog_stream_reader` for the start of the reader. -/
def readerStart (str : Val → String) (useGtid : Bool) (logFile : Option String) (logPos : Val)
    (gtidPos : Option String) : Except Err ReaderStart :=
  if useGtid then
    match gtidPos with
    | none => .error (emptyGtid str gtidPos)
    | some gtid => if gtid = "" then .error (emptyGtid str gtidPos) else .ok (.autoPosition gtid)
  else
    match logFile with
    | none => .error (emptyPosition str logFile logPos)
    | some file =>
      if file = "" ∨ logPos.truthy = false then .error (emptyPosition str logFile logPos)
      else
        match isNegative logPos with
        | .error e => .error e
        | .ok true => .error (emptyPosition str logFile logPos)
        | .ok false => .ok (.logPosition file logPos)

def onlySchemas (config : BinlogConfig) : Option (List String) :=
  match config.filterDbs with
  | none => none
  | some dbs => if dbs = "" then none else some (splitOn ',' dbs)

def createBinlogStreamReader (S : BinlogSource) (config : BinlogConfig) (logFile : Option String)
    (logPos : Val) (gtidPos : Option String) (legacyColumnMapping : Bool) :
    Except Err ReaderArgs :=
  match readerServerId config S.randomServerId with
  | .error e => .error e
  | .ok serverId =>
    match readerStart S.str config.useGtid logFile logPos gtidPos with
    | .error e => .error e
    | .ok start => .ok
      { isMariadb := decide (config.engine = .mariadb)
        serverId := serverId
        onlySchemas := onlySchemas config
        useColumnNameCache := legacyColumnMapping
        start := start }

/-! ### The sync -/

/-- `(log_file, log_pos, gtid)` of `sync_binlog_stream`. -/
def resumePosition (S : BinlogSource) (config : BinlogConfig) (m : StreamsMap) (st : State) :
    Except Err (Option String × Val × Option String) :=
  if config.useGtid then
    match calculateGtidBookmark S.server config.engine m st with
    | .error e => .error e
    | .ok gtid => .ok (none, .null, some gtid)
  else
    match calculateBookmark S.server m st with
    | .error e => .error e
    | .ok (logFile, logPos) => .ok (some logFile, logPos, none)

def whitelistStreams (m : StreamsMap) (st : State) : State :=
  m.keys.foldl (fun st s => whitelistBookmarkKeys bookmarkKeys s st) st

/-- What `_run_binlog_sync` is called with. -/
structure PreparedRun where
  env : Env
  state : State
  autoPosition : Option String
  deliveries : List Delivery
  failure : Option Err

/-- The statements of `sync_binlog_stream` before the run. -/
def prepareRun (S : BinlogSource) (config : BinlogConfig) (m : StreamsMap) (st : State) :
    Except Err PreparedRun :=
  match S.verifyBinlogConfig with
  | .error e => .error e
  | .ok legacyColumnMapping =>
    let st := whitelistStreams m st
    match resumePosition S config m st with
    | .error e => .error e
    | .ok (logFile, logPos, gtid) =>
      match createBinlogStreamReader S config logFile logPos gtid legacyColumnMapping with
      | .error e => .error e
      | .ok reader =>
        match S.fetchCurrentLogFileAndPos with
        | .error e => .error e
        | .ok (endLogFile, endLogPos) => .ok
          { env := ⟨S.lib, S.discover, endLogFile, endLogPos⟩
            state := st
            autoPosition := reader.autoPosition
            deliveries := (S.read reader).1
            failure := (S.read reader).2 }

def PreparedRun.variables (r : PreparedRun) (m : StreamsMap) : Vars :=
  initialVars m r.state r.autoPosition

def syncBinlogStream (S : BinlogSource) (config : BinlogConfig) (m : StreamsMap) (st : State) :
    List Effect × Except Err State :=
  match prepareRun S config m st with
  | .error e => ([], .error e)
  | .ok r =>
    let o := runBinlogSync r.env m r.state r.autoPosition r.deliveries r.failure
    match o.2 with
    | .error e => (o.1, .error e)
    | .ok st => (o.1 ++ [.message (.state st)], .ok st)

def schemasOf (binlogCatalog : List CatalogEntry) : List Effect :=
  binlogCatalog.map fun e => .message (schemaMessage e [])

def syncBinlogStreams (S : BinlogSource) (config : BinlogConfig)
    (binlogCatalog : List CatalogEntry) (st : State) : List Effect × Except Err State :=
  if binlogCatalog.isEmpty then ([], .ok st)
  else
    let o := syncBinlogStream S config (generateStreamsMap binlogCatalog) st
    (schemasOf binlogCatalog ++ o.1, o.2)

theorem syncBinlogStream_effects (S : BinlogSource) (config : BinlogConfig) (m : StreamsMap)
    (st : State) :
    (∃ e, prepareRun S config m st = .error e ∧ syncBinlogStream S config m st = ([], .error e)) ∨
    ∃ r, prepareRun S config m st = .ok r ∧ ∃ last,
      (syncBinlogStream S config m st).1 =
        (Loop.run (iteration r.env) (readerEnd r.failure) r.deliveries (r.variables m)).1 ++ last ∧
      ∀ x ∈ last, ∃ st', x = .message (.state st') := by
  rw [syncBinlogStream]
  cases hr : prepareRun S config m st with
  | error e => exact .inl ⟨e, rfl, rfl⟩
  | ok r =>
    refine .inr ⟨r, rfl, ?_⟩
    dsimp only
    cases (runBinlogSync r.env m r.state r.autoPosition r.deliveries r.failure).2 with
    | error e => exact ⟨[], (List.append_nil _).symm, by simp⟩
    | ok st' => exact ⟨[.message (.state st')], rfl, by simp⟩

end TapMysql.Binlog
