import TapMysql.Scheduling
import TapMysql.Select.FullTable
import TapMysql.Select.Incremental

/-!
# The SELECT-based streams of a run

`do_sync_incremental`, `do_sync_full_table`, `do_sync_historical_binlog` and
`sync_non_binlog_streams` of `__init__.py`. What the clock shows and what the server says about
its binlog are inputs. The state is the dictionary that all of them share, so it is returned also
when an exception ends them.
-/

namespace TapMysql

/-! ### One stream -/

/-- What the server says before the query of a LOG_BASED snapshot: whether it passes
`verify_binlog_config` and `verify_gtid_config`, its position and its GTID position. -/
structure MasterStatus where
  binlogConfig : Except Err Unit
  gtidConfig : Except Err Unit
  logFileAndPos : Except Err (Val × Val)
  gtidPos : Except Err Val

/-- The inputs of the sync of one stream: the retry loop's server, the binlog's server, the
columns, output mode and time of extraction, and what the clock shows. -/
structure StreamRun where
  server : Nat → Attempt
  master : MasterStatus
  args : SyncArgs
  now : Int

/-- The `use_gtid` and `engine` settings: `isMysql` is `engine == 'mysql'`. -/
structure GtidConfig where
  useGtid : Bool
  isMysql : Bool

def incrementalWithoutKey (e : CatalogEntry) : Err :=
  ⟨.exception, "Cannot use INCREMENTAL replication for table (" ++ e.stream ++
    ") without a replication key."⟩

def unsupportedMethod : Err :=
  ⟨.exception, "only INCREMENTAL, LOG_BASED, and FULL TABLE replication methods are supported"⟩

/-- The messages `before` come first. -/
def Outcome.after (before : List Message) (o : Outcome) : Outcome :=
  { o with messages := before ++ o.messages }

/-- `o`, and then, unless it raised, the messages and the state that `next` makes of its state. -/
def Outcome.thenState (o : Outcome) (next : State → List Message × State) : Outcome :=
  match o.error with
  | some _ => o
  | none => { o with messages := o.messages ++ (next o.state).1, state := (next o.state).2 }

@[simp] theorem Outcome.error_after (before : List Message) (o : Outcome) :
    (o.after before).error = o.error := rfl

@[simp] theorem Outcome.messages_after (before : List Message) (o : Outcome) :
    (o.after before).messages = before ++ o.messages := rfl

@[simp] theorem Outcome.error_thenState (o : Outcome) (next : State → List Message × State) :
    (o.thenState next).error = o.error := by
  rw [thenState]
  split <;> simp_all

theorem Outcome.messages_thenState {o : Outcome} (h : o.error = none)
    (next : State → List Message × State) :
    (o.thenState next).messages = o.messages ++ (next o.state).1 := by
  rw [thenState, h]

def doSyncIncremental (e : CatalogEntry) (run : StreamRun) (st : State) : Outcome :=
  if !(e.streamMetadata "replication-key").truthy then .failed st (incrementalWithoutKey e)
  else
    ((Incremental.syncTable e run.server run.args run.now st).thenState
      fun st => ([.state st], st)).after [schemaMessage e [e.streamMetadata "replication-key"]]

def completeFullTable (e : CatalogEntry) (st : State) : State :=
  (st.clearBookmark e.tapStreamId "version").writeBookmark e.tapStreamId
    "initial_full_table_complete" (.bool true)

/-- The arguments of `sync_table`, with the version of the bookmark or of the clock. -/
def versionedArgs (e : CatalogEntry) (run : StreamRun) (st : State) : SyncArgs :=
  { run.args with streamVersion := getStreamVersion e.tapStreamId st run.now }

def doSyncFullTable (e : CatalogEntry) (autoIncrement : String → Bool) (run : StreamRun)
    (st : State) : Outcome :=
  ((FullTable.syncTable e autoIncrement run.server (versionedArgs e run st) st).thenState
    fun st => ([.state (completeFullTable e st)], completeFullTable e st)).after
      [schemaMessage e []]

/-- The binlog position that the stream is handed over with. -/
def writePosition (e : CatalogEntry) (position : Val × Val) (gtid : Val) (st : State) : State :=
  let st := (st.writeBookmark e.tapStreamId "log_file" position.1).writeBookmark e.tapStreamId
    "log_pos" position.2
  if gtid.truthy then st.writeBookmark e.tapStreamId "gtid" gtid else st

/-- Does the bookmark say that a snapshot was interrupted, and where its binlog begins? -/
def resumesSnapshot (e : CatalogEntry) (useGtid : Bool) (st : State) : Bool :=
  let bookmark := fun key => (st.getBookmark e.tapStreamId key).truthy
  bookmark "max_pk_values" &&
    ((useGtid && bookmark "gtid") || (bookmark "log_file" && bookmark "log_pos"))

/-- The snapshot from the beginning, at a position read before it. -/
def startSnapshot (e : CatalogEntry) (autoIncrement : String → Bool) (run : StreamRun)
    (st : State) (position : Val × Val) (gtid : Val) : Outcome :=
  let args := versionedArgs e run st
  let st := (st.writeBookmark e.tapStreamId "initial_binlog_complete" (.bool false)).writeBookmark
    e.tapStreamId "version" args.streamVersion
  if FullTable.pksAreAutoIncrementing autoIncrement e then
    FullTable.syncTable e autoIncrement run.server args (writePosition e position gtid st)
  else
    (FullTable.syncTable e autoIncrement run.server args st).thenState
      fun st => ([], writePosition e position gtid st)

def doSyncHistoricalBinlog (e : CatalogEntry) (autoIncrement : String → Bool)
    (gtidConfig : GtidConfig) (run : StreamRun) (st : State) : Outcome :=
  match run.master.binlogConfig with
  | .error err => .failed st err
  | .ok _ =>
    match (if gtidConfig.useGtid && gtidConfig.isMysql then run.master.gtidConfig else .ok ()) with
    | .error err => .failed st err
    | .ok _ =>
      if e.getIsView then .failed st (isViewError e)
      else if resumesSnapshot e gtidConfig.useGtid st then
        (FullTable.syncTable e autoIncrement run.server (versionedArgs e run st) st).after
          [schemaMessage e []]
      else
        let begun := st.writeBookmark e.tapStreamId "initial_binlog_complete" (.bool false)
        match run.master.logFileAndPos with
        | .error err => (Outcome.failed begun err).after [schemaMessage e []]
        | .ok position =>
          match (if gtidConfig.useGtid then run.master.gtidPos else .ok .null) with
          | .error err => (Outcome.failed begun err).after [schemaMessage e []]
          | .ok gtid =>
            (startSnapshot e autoIncrement run st position gtid).after [schemaMessage e []]

/-- A snapshot fails before it begins, goes on from its bookmark, or starts at a position that
it reads first. -/
theorem doSyncHistoricalBinlog_cases (e : CatalogEntry) (autoIncrement : String → Bool)
    (gtidConfig : GtidConfig) (run : StreamRun) (st : State) :
    (∃ before st' err, (before = [] ∨ before = [schemaMessage e []]) ∧
      doSyncHistoricalBinlog e autoIncrement gtidConfig run st =
        (Outcome.failed st' err).after before) ∨
    (resumesSnapshot e gtidConfig.useGtid st = true ∧
      doSyncHistoricalBinlog e autoIncrement gtidConfig run st =
        (FullTable.syncTable e autoIncrement run.server (versionedArgs e run st) st).after
          [schemaMessage e []]) ∨
    (resumesSnapshot e gtidConfig.useGtid st = false ∧
      ∃ position gtid, run.master.logFileAndPos = .ok position ∧
        (if gtidConfig.useGtid then run.master.gtidPos else .ok .null) = .ok gtid ∧
        doSyncHistoricalBinlog e autoIncrement gtidConfig run st =
          (startSnapshot e autoIncrement run st position gtid).after [schemaMessage e []]) := by
  have hfailed : ∀ err, Outcome.failed st err = (Outcome.failed st err).after [] := fun _ => rfl
  rw [doSyncHistoricalBinlog]
  split
  · exact Or.inl ⟨[], st, _, Or.inl rfl, hfailed _⟩
  · split
    · exact Or.inl ⟨[], st, _, Or.inl rfl, hfailed _⟩
    · by_cases hview : e.getIsView = true
      · rw [if_pos hview]
        exact Or.inl ⟨[], st, _, Or.inl rfl, hfailed _⟩
      · rw [if_neg hview]
        cases hresume : resumesSnapshot e gtidConfig.useGtid st with
        | true => exact Or.inr (Or.inl ⟨rfl, rfl⟩)
        | false =>
          rw [if_neg Bool.false_ne_true]
          dsimp only
          split
          · exact Or.inl ⟨_, _, _, Or.inr rfl, rfl⟩
          · rename_i position hposition
            split
            · exact Or.inl ⟨_, _, _, Or.inr rfl, rfl⟩
            · rename_i gtid hgtid
              exact Or.inr (Or.inr ⟨rfl, position, gtid, hposition, hgtid, rfl⟩)

/-! ### All of them -/

/-- The body of the loop of `sync_non_binlog_streams`, for a stream with columns. -/
def syncStream (e : CatalogEntry) (autoIncrement : String → Bool) (gtidConfig : GtidConfig)
    (run : StreamRun) (st : State) : Outcome :=
  let st := st.setCurrentlySyncing (some e.tapStreamId)
  let run := { run with args := { run.args with columns := e.schema.keys } }
  (match e.replicationMethod with
    | .incremental => doSyncIncremental e run st
    | .logBased => doSyncHistoricalBinlog e autoIncrement gtidConfig run st
    | .fullTable => doSyncFullTable e autoIncrement run st
    | .other => .failed st unsupportedMethod).after [.state st]

/-- `sync_non_binlog_streams`, with the inputs of each stream. -/
def syncNonBinlogStreams (autoIncrement : CatalogEntry → String → Bool) (gtidConfig : GtidConfig)
    (runs : CatalogEntry → StreamRun) : List CatalogEntry → State → Outcome
  | [], st => ⟨[.state (st.setCurrentlySyncing none)], st.setCurrentlySyncing none, none, []⟩
  | e :: streams, st =>
    if e.schema.keys.isEmpty then syncNonBinlogStreams autoIncrement gtidConfig runs streams st
    else
      let o := syncStream e (autoIncrement e) gtidConfig (runs e) st
      match o.error with
      | some _ => o
      | none => o.andThen (syncNonBinlogStreams autoIncrement gtidConfig runs streams o.state)

end TapMysql
