import TapMysql.Binlog.Turn
import TapMysql.Select.Phase

/-!
# A whole run

`do_sync` of `__init__.py`: the schedule of both phases is made first, from the state of the start,
then the SELECT-based streams are synced one by one, and last the binlog streams together. What
discovery, the server, the clock and the file system answer are inputs.
-/

namespace TapMysql

open Binlog (Effect Resolved resolveCatalog_resolved)
open Trace

/-! ### Batch settings -/

/-- What the settings of BATCH mode are checked against: `os.path.isdir`, the directory for
temporary files, `require_arrow_support`, and `repr` in the texts of exceptions. -/
structure BatchHost where
  isDir : Val → Except Err Bool
  tempDir : String
  arrowSupport : Except Err Unit
  repr : Val → String

/-- `BatchConfig` with the fields that the files of a batch depend on. -/
structure BatchSettings where
  config : BatchConfig
  batchRootDir : Val
  compression : Val

/-- `v.get(key, default)`. -/
def getKey (v : Val) (key : String) (default : Val) : Except Err Val :=
  match v with
  | .dict items => .ok ((Dict.assocGet (.str key) items).getD default)
  | _ => .error ⟨.attributeError, "object has no attribute 'get'"⟩

/-- `v.get(key) or {}`. -/
def getSection (v : Val) (key : String) : Except Err Val :=
  match getKey v key .null with
  | .error err => .error err
  | .ok found => .ok (if found.truthy then found else .dict [])

def isUnhashable : Val → Bool
  | .list _ => true
  | .dict _ => true
  | _ => false

def defaultBatchSize : Int := 500000

/-- `self.format not in BATCH_FORMATS`. -/
def batchFormat (host : BatchHost) (format : Val) : Except Err BatchFormat :=
  if isUnhashable format then .error ⟨.typeError, "unhashable type"⟩
  else if format = .str "jsonl" then .ok .jsonl
  else if format = .str "arrow" then .ok .arrow
  else .error ⟨.valueError, "batch_config.encoding.format must be one of ['arrow', 'jsonl'], got " ++
    host.repr format⟩

/-- `self.compression not in BATCH_COMPRESSIONS`. -/
def checkCompression (host : BatchHost) (compression : Val) : Except Err Unit :=
  if isUnhashable compression then .error ⟨.typeError, "unhashable type"⟩
  else if compression = .null ∨ compression = .str "gzip" ∨ compression = .str "none" then .ok ()
  else .error ⟨.valueError, "batch_config.encoding.compression must be one of " ++
    "[None, 'gzip', 'none'], got " ++ host.repr compression⟩

/-- `BatchConfig.__post_init__`. -/
def BatchSettings.make (host : BatchHost) (batchSize : Int) (batchRootDir format compression : Val) :
    Except Err BatchSettings :=
  match BatchConfig.make batchSize .jsonl with
  | .error err => .error err
  | .ok config =>
    match host.isDir batchRootDir with
    | .error err => .error err
    | .ok false => .error ⟨.valueError, "batch_root_dir does not exist or is not a directory: " ++
        host.repr batchRootDir⟩
    | .ok true =>
      match batchFormat host format with
      | .error err => .error err
      | .ok format =>
        match checkCompression host compression with
        | .error err => .error err
        | .ok () =>
          match (if format = .arrow then host.arrowSupport else .ok ()) with
          | .error err => .error err
          | .ok () => .ok ⟨{ config with format := format }, batchRootDir, compression⟩

/-- `BatchConfig.from_config`, on `config.get('batch_config')`. -/
def BatchSettings.fromConfig (host : BatchHost) (raw : Val) : Except Err (Option BatchSettings) :=
  if raw = .null then .ok none
  else
    match getSection raw "encoding" with
    | .error err => .error err
    | .ok encoding =>
      match getSection raw "storage" with
      | .error err => .error err
      | .ok storage =>
        match getKey storage "root" (.str host.tempDir) with
        | .error err => .error err
        | .ok root =>
          match (getKey raw "batch_size" (.int defaultBatchSize)).bind Binlog.intOfVal with
          | .error err => .error err
          | .ok batchSize =>
            match getKey encoding "format" (.str "jsonl") with
            | .error err => .error err
            | .ok format =>
              match getKey encoding "compression" (.str "gzip") with
              | .error err => .error err
              | .ok compression =>
                (BatchSettings.make host batchSize root format compression).map some

example : (BatchSettings.fromConfig ⟨fun _ => .ok true, "/tmp", .ok (), fun _ => ""⟩
    (.dict [(.str "batch_size", .str "12")])).map (Option.map fun s => s.config.batchSize) =
      .ok (some 12) := by decide

/-! ### The run -/

/-- The settings of the tap that a run reads. -/
structure SyncConfig where
  useGtid : Option Val
  engine : Option String
  serverId : Val
  filterDbs : Option String
  batchConfig : Val

namespace SyncConfig

/-- `config['use_gtid']`, as a condition. -/
def usesGtid (config : SyncConfig) : Bool := (config.useGtid.getD (.bool false)).truthy

/-- `config.get('engine', MYSQL_ENGINE).lower()`. -/
def engineName (config : SyncConfig) : String := (config.engine.getD "mysql").toLower

def gtidConfig (config : SyncConfig) : GtidConfig :=
  ⟨config.usesGtid, decide (config.engineName = "mysql")⟩

def binlogConfig (config : SyncConfig) : Binlog.BinlogConfig where
  useGtid := config.usesGtid
  engine := if config.engineName = "mariadb" then .mariadb else .mysql
  serverId := config.serverId
  filterDbs := config.filterDbs

end SyncConfig

/-- What a run is answered from outside: the two discoveries, which columns auto-increment, the
syncs of the SELECT-based streams, the host of the batch files, and the binlog. -/
structure SyncSource where
  nonBinlogDiscovery : Except Err (List CatalogEntry)
  binlogDiscovery : Except Err (List CatalogEntry)
  autoIncrement : CatalogEntry → String → Bool
  runs : CatalogEntry → StreamRun
  host : BatchHost
  binlog : Binlog.BinlogSource

/-- The sync of a stream in the output mode of the run. -/
def SyncSource.runOf (S : SyncSource) (settings : Option BatchSettings) (e : CatalogEntry) :
    StreamRun :=
  let run := S.runs e
  { run with args := { run.args with config := settings.map BatchSettings.config } }

/-- What is settled before the first message. -/
structure SyncPlan where
  nonBinlog : List CatalogEntry
  binlog : List CatalogEntry
  settings : Option BatchSettings

def planSync (S : SyncSource) (config : SyncConfig) (catalog : List CatalogEntry) (st : State) :
    Except Err SyncPlan :=
  match S.nonBinlogDiscovery.bind fun discovered => getNonBinlogStreams discovered catalog st with
  | .error err => .error err
  | .ok nonBinlog =>
    match S.binlogDiscovery.bind fun discovered => getBinlogStreams discovered catalog st with
    | .error err => .error err
    | .ok binlog =>
      match BatchSettings.fromConfig S.host config.batchConfig with
      | .error err => .error err
      | .ok settings => .ok ⟨nonBinlog, binlog, settings⟩

/-- The SELECT phase of a run. -/
def SyncPlan.select (plan : SyncPlan) (S : SyncSource) (config : SyncConfig) (st : State) :
    Outcome :=
  syncNonBinlogStreams S.autoIncrement config.gtidConfig (S.runOf plan.settings) plan.nonBinlog st

/-- `do_sync`: what it does, and the state when it returns. -/
def doSync (S : SyncSource) (config : SyncConfig) (catalog : List CatalogEntry) (st : State) :
    List Effect × Except Err State :=
  match planSync S config catalog st with
  | .error err => ([], .error err)
  | .ok plan =>
    let o := plan.select S config st
    match o.error with
    | some err => (o.messages.map .message, .error err)
    | none =>
      let b := Binlog.syncBinlogStreams S.binlog config.binlogConfig plan.binlog o.state
      (o.messages.map .message ++ b.1, b.2)

/-! ### The plan -/

section Plan

variable {S : SyncSource} {config : SyncConfig} {catalog : List CatalogEntry} {st : State}
  {plan : SyncPlan}

theorem planSync_ok (h : planSync S config catalog st = .ok plan) :
    ∃ discovered₁ discovered₂, S.nonBinlogDiscovery = .ok discovered₁ ∧
      S.binlogDiscovery = .ok discovered₂ ∧
      getNonBinlogStreams discovered₁ catalog st = .ok plan.nonBinlog ∧
      getBinlogStreams discovered₂ catalog st = .ok plan.binlog ∧
      BatchSettings.fromConfig S.host config.batchConfig = .ok plan.settings := by
  unfold planSync at h
  cases h₁ : S.nonBinlogDiscovery with
  | error err => simp [h₁, Except.bind] at h
  | ok discovered₁ =>
    cases h₂ : getNonBinlogStreams discovered₁ catalog st with
    | error err => simp [h₁, h₂, Except.bind] at h
    | ok nonBinlog =>
      cases h₃ : S.binlogDiscovery with
      | error err => simp [h₁, h₂, h₃, Except.bind] at h
      | ok discovered₂ =>
        cases h₄ : getBinlogStreams discovered₂ catalog st with
        | error err => simp [h₁, h₂, h₃, h₄, Except.bind] at h
        | ok binlog =>
          cases h₅ : BatchSettings.fromConfig S.host config.batchConfig with
          | error err => simp [h₁, h₂, h₃, h₄, h₅, Except.bind] at h
          | ok settings =>
            simp only [h₁, h₂, h₃, h₄, h₅, Except.bind, Except.ok.injEq] at h
            exact ⟨discovered₁, discovered₂, rfl, rfl, h ▸ h₂, h ▸ h₄, h ▸ rfl⟩

theorem planSync_resolved (h : planSync S config catalog st = .ok plan) :
    Resolved plan.nonBinlog ∧ Resolved plan.binlog := by
  obtain ⟨discovered₁, discovered₂, -, -, hnonBinlog, hbinlog, -⟩ := planSync_ok h
  refine ⟨?_, resolveCatalog_resolved hbinlog⟩
  unfold getNonBinlogStreams at hnonBinlog
  split at hnonBinlog
  · cases hnonBinlog
  · exact resolveCatalog_resolved hnonBinlog

/-- A run fails before it says anything or in the SELECT phase, or it comes to the binlog. -/
theorem doSync_cases (S : SyncSource) (config : SyncConfig) (catalog : List CatalogEntry)
    (st : State) :
    (∃ err, planSync S config catalog st = .error err ∧
      doSync S config catalog st = ([], .error err)) ∨
    ∃ plan, planSync S config catalog st = .ok plan ∧
      ((∃ err, (plan.select S config st).error = some err ∧
        doSync S config catalog st =
          ((plan.select S config st).messages.map .message, .error err)) ∨
      ((plan.select S config st).error = none ∧
        doSync S config catalog st =
          ((plan.select S config st).messages.map .message ++
            (Binlog.syncBinlogStreams S.binlog config.binlogConfig plan.binlog
              (plan.select S config st).state).1,
          (Binlog.syncBinlogStreams S.binlog config.binlogConfig plan.binlog
            (plan.select S config st).state).2))) := by
  unfold doSync
  cases hp : planSync S config catalog st with
  | error err => exact .inl ⟨err, rfl, rfl⟩
  | ok plan =>
    refine .inr ⟨plan, rfl, ?_⟩
    cases he : (plan.select S config st).error with
    | some err => exact .inl ⟨err, rfl, by simp only [he]⟩
    | none => exact .inr ⟨rfl, by simp only [he]⟩

end Plan

/-! ### The order of its messages -/

section Order

variable {S : SyncSource} {config : SyncConfig} {catalog : List CatalogEntry} {st : State}
  {plan : SyncPlan}

/-- The results of all statements name the columns that were selected. -/
def SyncSource.NamesColumns (S : SyncSource) : Prop := ∀ e, (S.runs e).NamesColumns

/-- When the SELECT phase returns, the latest STATE is the state that the binlog sync starts from,
and it names no stream. -/
theorem SyncPlan.latestState_select (plan : SyncPlan)
    (h : (plan.select S config st).error = none) (st₀ : State) :
    latestState st₀ ((plan.select S config st).messages.map .message) =
        (plan.select S config st).state ∧
      (plan.select S config st).state.currentlySyncing = none := by
  obtain ⟨before, hmsgs, hnone⟩ := syncNonBinlogStreams_returns plan.nonBinlog st h
  refine ⟨?_, hnone⟩
  unfold SyncPlan.select
  rw [hmsgs, List.map_append, List.map_singleton, latestState_concat]

/-- From STATE to STATE a run changes the bookmark of the stream in progress, or those of the
binlog streams once no stream is in progress. -/
theorem doSync_continues (S : SyncSource) (config : SyncConfig) (catalog : List CatalogEntry)
    (st : State) (hnames : S.NamesColumns) (hplan : planSync S config catalog st = .ok plan) :
    EachAfter (Continues (idsOf plan.binlog) st) [] (doSync S config catalog st).1 := by
  have hruns : ∀ e ∈ plan.nonBinlog, (S.runOf plan.settings e).NamesColumns := fun e _ => hnames e
  have hlevel : Level st [] st := fun _ _ => rfl
  have hselect : EachAfter (Continues (idsOf plan.binlog) st) []
      ((plan.select S config st).messages.map .message) :=
    syncNonBinlogStreams_continues (planSync_resolved hplan).1 hruns _ hlevel
  rcases doSync_cases S config catalog st with ⟨err, -, hrun⟩ | ⟨plan', hplan', hrest⟩
  · rw [hrun]
    exact eachAfter_nil
  · obtain rfl : plan' = plan := Except.ok.inj (hplan'.symm.trans hplan)
    rcases hrest with ⟨err, -, hrun⟩ | ⟨hnone, hrun⟩
    · rw [hrun]
      exact hselect
    · obtain ⟨hlatest, hst⟩ := plan'.latestState_select hnone st
      rw [hrun, eachAfter_append]
      exact ⟨hselect, Binlog.syncBinlogStreams_continues hlatest hst⟩

end Order

/-! ### The first run on a table -/

namespace Sample

/-- The sync of a table with the one row 1. -/
def oneRowRun : StreamRun where
  server _ := ⟨.ok none, fun sql => ⟨sql.columns.map Mysql.columnName, [[[.int 1]]], none⟩⟩
  master := ⟨.ok (), .ok (), .ok (.str "bin.1", .int 100), .ok .null⟩
  args := ⟨[], .null, "2024-01-01T00:00:00Z", none⟩
  now := 9

/-- A server with the table `db.t`, whose key does not auto-increment. -/
def server (ds : List Binlog.Delivery) : SyncSource where
  nonBinlogDiscovery := .ok [Binlog.Sample.entry]
  binlogDiscovery := .ok [Binlog.Sample.entry]
  autoIncrement _ _ := false
  runs _ := oneRowRun
  host := ⟨fun _ => .ok true, "/tmp", .ok (), fun _ => ""⟩
  binlog := Binlog.Sample.source ds

def settings : SyncConfig := ⟨none, none, .null, none, .null⟩

theorem server_namesColumns (ds : List Binlog.Delivery) : (server ds).NamesColumns :=
  fun _ _ _ => rfl

def firstPlan : SyncPlan := ⟨[{ Binlog.Sample.entry with stream := "db-t" }], [], none⟩

theorem firstPlan_eq (ds : List Binlog.Delivery) :
    planSync (server ds) settings [Binlog.Sample.entry] State.empty = .ok firstPlan := by
  rfl

end Sample

/-! ### A run over streams of both phases -/

namespace Sample

/-- A table of the database `db` with the one column `id`. -/
def idEntry (table method : String) : CatalogEntry :=
  { Binlog.Sample.entry with
    tapStreamId := "db-" ++ table
    stream := "db-" ++ table
    table := table
    metadata := Dict.ofList
      [([], Dict.ofList [("selected", .bool true), ("replication-method", .str method),
        ("replication-key", .str "id"), ("database-name", .str "db"),
        ("table-key-properties", .list [.str "id"])]),
      (["properties", "id"], Dict.ofList [("selected-by-default", .bool true),
        ("inclusion", .str "automatic")])] }

def phasesCatalog : List CatalogEntry :=
  [Binlog.Sample.entry, idEntry "u" "FULL_TABLE", idEntry "v" "INCREMENTAL"]

/-- `db.t` follows the binlog, `db.v` is at the key 1, and `db.u` has no bookmark. -/
def phasesState : State :=
  (Binlog.Sample.atFour.writeBookmark "db-v" "replication_key" (.str "id")).writeBookmark "db-v"
    "replication_key_value" (.int 1)

/-- In the binlog a row of `db.t` is deleted. -/
def phasesServer : SyncSource :=
  { server [Binlog.Sample.deleteOne] with
    nonBinlogDiscovery := .ok phasesCatalog
    binlogDiscovery := .ok phasesCatalog }

def phasesPlan : SyncPlan :=
  ⟨[idEntry "u" "FULL_TABLE", idEntry "v" "INCREMENTAL"], [Binlog.Sample.entry], none⟩

def rowStream : Message → Option String
  | .record s _ _ _ => some s
  | _ => none

theorem phasesServer_namesColumns : phasesServer.NamesColumns := fun _ _ _ => rfl

theorem phasesPlan_eq :
    planSync phasesServer settings phasesCatalog phasesState = .ok phasesPlan := by
  rfl

end Sample

theorem doSync_continues_phases :
    EachAfter (Continues ["db-t"] Sample.phasesState) []
      (doSync Sample.phasesServer Sample.settings Sample.phasesCatalog Sample.phasesState).1 :=
  doSync_continues _ _ _ _ Sample.phasesServer_namesColumns Sample.phasesPlan_eq

end TapMysql
