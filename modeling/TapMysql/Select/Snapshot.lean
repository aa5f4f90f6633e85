import TapMysql.Select.Streams
import TapMysql.Select.Sweep

/-!
# The runs of a LOG_BASED snapshot

A snapshot reads the position of the binlog, then the maximum key, then the rows, while others
commit. It may stop after any STATE, and a later run goes on from there or begins anew. A run
either fails before it calls `sync_table`, or calls it with the position that it found or has
read.
-/

namespace TapMysql

/-! ### Runs of a snapshot on a server -/

/-- What a server holds after each of its commits: the table, and where its binlog ends. -/
structure CommitLog where
  table : Nat → List TableRow
  logFile : Nat → String
  logPos : Nat → Int
  logFile_ne : ∀ n, logFile n ≠ ""
  logPos_ne : ∀ n, logPos n ≠ 0
  position_inj : ∀ m n, logFile m = logFile n → logPos m = logPos n → m = n

namespace CommitLog

def position (log : CommitLog) (n : Nat) : Val × Val := (.str (log.logFile n), .int (log.logPos n))

/-- The rows are in the table after the commit `m`, and unchanged until the commit `n`. -/
def Kept (log : CommitLog) (m n : Nat) (rows : Multiset TableRow) : Prop :=
  ∀ i, m ≤ i → i ≤ n → rows ≤ ↑(log.table i)

theorem Kept.mono {log : CommitLog} {m n m' n' : Nat} {rows : Multiset TableRow}
    (h : log.Kept m n rows) (hm : m ≤ m') (hn : n' ≤ n) : log.Kept m' n' rows :=
  fun i hmi hin => h i (hm.trans hmi) (hin.trans hn)

theorem position_eq {log : CommitLog} {m n : Nat} (h : log.position m = log.position n) :
    m = n := by
  simp only [position, Prod.mk.injEq, Val.str.injEq, Val.int.injEq] at h
  exact log.position_inj m n h.1 h.2

end CommitLog

/-- After which commits the reads of a run come: the position, and for each attempt the maximum
key and the statement. -/
structure ReadTimes where
  start : Nat
  maximum : Nat → Nat
  select : Nat → Nat
  finish : Nat

variable {κ : Type*} [LinearOrder κ]

/-- A run of the stream on this server, with its reads at these times. -/
structure RunsAt (db : Mysql κ) (log : CommitLog) (e : CatalogEntry) (config : Option BatchConfig)
    (run : StreamRun) (t : ReadTimes) : Prop where
  columns : run.args.columns = e.schema.keys
  config : run.args.config = config
  position : ∀ p, run.master.logFileAndPos = .ok p → p = log.position t.start
  start_le : ∀ n, t.start ≤ t.maximum n
  maximum_le : ∀ n, t.maximum n ≤ t.select n
  select_le : ∀ n, t.select n ≤ t.finish
  maxPk : ∀ n result, (run.server n).maxPk = .ok result →
    db.IsMaxPk (log.table (t.maximum n)) e.getKeyProperties result
  select : ∀ n sql, db.Delivers (log.table (t.select n)) sql ((run.server n).select sql)

theorem RunsAt.start_le_finish {db : Mysql κ} {log : CommitLog} {e : CatalogEntry}
    {config : Option BatchConfig} {run : StreamRun} {t : ReadTimes}
    (h : RunsAt db log e config run t) : t.start ≤ t.finish :=
  (h.start_le 0).trans ((h.maximum_le 0).trans (h.select_le 0))

/-- The state of a snapshot from the beginning when it calls `sync_table`. -/
def startState (e : CatalogEntry) (autoIncrement : String → Bool) (run : StreamRun) (st : State)
    (position : Val × Val) (gtid : Val) : State :=
  let begun := (st.writeBookmark e.tapStreamId "initial_binlog_complete"
    (.bool false)).writeBookmark e.tapStreamId "version" (versionedArgs e run st).streamVersion
  if FullTable.pksAreAutoIncrementing autoIncrement e then writePosition e position gtid begun
  else begun

/-- The state with which a run from `st` calls `sync_table`. -/
inductive Calls (e : CatalogEntry) (autoIncrement : String → Bool) (gtidConfig : GtidConfig)
    (run : StreamRun) (st : State) : State → Prop
  | resumed : resumesSnapshot e gtidConfig.useGtid st = true →
      Calls e autoIncrement gtidConfig run st st
  | started {position : Val × Val} {gtid : Val} :
      resumesSnapshot e gtidConfig.useGtid st = false →
      run.master.logFileAndPos = .ok position →
      (if gtidConfig.useGtid then run.master.gtidPos else .ok .null) = .ok gtid →
      Calls e autoIncrement gtidConfig run st (startState e autoIncrement run st position gtid)

/-- The outcomes of the attempts of a run from `st` that calls `sync_table` with `st'`. -/
def snapshotOutcomes (e : CatalogEntry) (autoIncrement : String → Bool) (run : StreamRun)
    (st st' : State) : List Outcome :=
  FullTable.retryOutcomes e autoIncrement run.server (versionedArgs e run st) st'

/-- A run from `st` writes the STATE `v` after the messages `before`. -/
inductive SnapshotWrites (e : CatalogEntry) (autoIncrement : String → Bool)
    (gtidConfig : GtidConfig) (run : StreamRun) (st : State) (before : List Message)
    (pages : Pages) (v : State) : Prop
  | sync {st' : State} (sent after : List Message) :
      Calls e autoIncrement gtidConfig run st st' →
      (doSyncHistoricalBinlog e autoIncrement gtidConfig run st).messages =
        before ++ .state v :: after →
      before = schemaMessage e [] :: (FullTable.firstActivation e (versionedArgs e run st)
        (whitelistBookmarkKeys (FullTable.generateBookmarkKeys e) e.tapStreamId st') ++ sent) →
      StateAt e run.args.config (snapshotOutcomes e autoIncrement run st st') sent pages v →
      SnapshotWrites e autoIncrement gtidConfig run st before pages v

/-- Runs that stop after a STATE: the first goes from `st` after the commit `n`, each other one
from the STATE of the one before. -/
inductive Stops (db : Mysql κ) (log : CommitLog) (e : CatalogEntry) (autoIncrement : String → Bool)
    (gtidConfig : GtidConfig) (config : Option BatchConfig) (st : State) (n : Nat) :
    List Message → Pages → State → Nat → Prop
  | none : Stops db log e autoIncrement gtidConfig config st n [] [] st n
  | stopped {before before' : List Message} {pages pages' : Pages} {v w : State} {m : Nat}
      {run : StreamRun} {t : ReadTimes} :
      Stops db log e autoIncrement gtidConfig config st n before pages v m →
      m ≤ t.start → RunsAt db log e config run t →
      SnapshotWrites e autoIncrement gtidConfig run v before' pages' w →
      Stops db log e autoIncrement gtidConfig config st n (before ++ before') (pages ++ pages') w
        t.finish

def storedPosition (e : CatalogEntry) (st : State) : Val × Val :=
  (st.getBookmark e.tapStreamId "log_file", st.getBookmark e.tapStreamId "log_pos")

/-! ### One run -/

section Run

variable {e : CatalogEntry} {autoIncrement : String → Bool} {gtidConfig : GtidConfig}
  {run : StreamRun} {st st' v w : State} {args : SyncArgs} {server : Nat → Attempt}

theorem startSnapshot_eq (e : CatalogEntry) (autoIncrement : String → Bool) (run : StreamRun)
    (st : State) (position : Val × Val) (gtid : Val) :
    startSnapshot e autoIncrement run st position gtid =
      (FullTable.syncTable e autoIncrement run.server (versionedArgs e run st)
        (startState e autoIncrement run st position gtid)).thenState fun st =>
          ([], if FullTable.pksAreAutoIncrementing autoIncrement e then st
            else writePosition e position gtid st) := by
  unfold startSnapshot startState
  cases FullTable.pksAreAutoIncrementing autoIncrement e with
  | true =>
    simp only [if_true, Outcome.thenState, List.append_nil]
    split <;> rfl
  | false => rfl

theorem storedPosition_writePosition (position : Val × Val) (gtid : Val) (st : State) :
    storedPosition e (writePosition e position gtid st) = position := by
  unfold storedPosition writePosition
  split_ifs <;> simp [State.getBookmark_writeBookmark]

/-- `sync_table` keeps the position, in its STATE messages too. -/
theorem syncTable_position (hm : e.replicationMethod = .logBased)
    (autoIncrement : String → Bool) (server : Nat → Attempt) (args : SyncArgs) (st : State) :
    storedPosition e (FullTable.syncTable e autoIncrement server args st).state =
        storedPosition e st ∧
      ∀ v, .state v ∈ (FullTable.syncTable e autoIncrement server args st).messages →
        storedPosition e v = storedPosition e st := by
  have hmem : ∀ key ∈ ["log_file", "log_pos"], key ∈ FullTable.generateBookmarkKeys e := by
    simp [FullTable.generateBookmarkKeys, hm]
  have hcarries : ∀ key ∈ ["log_file", "log_pos"],
      (FullTable.syncTable e autoIncrement server args st).Carries e.tapStreamId key args.config
        args.streamVersion (st.getBookmark e.tapStreamId key) := by
    intro key hkey
    have hne : key ≠ "last_pk_fetched" ∧ key ≠ "max_pk_values" := by
      simp only [List.mem_cons, List.not_mem_nil, or_false] at hkey
      rcases hkey with rfl | rfl <;> decide
    exact FullTable.syncTable_carries (Or.inr hm) hne.1 hne.2 (hmem key hkey) autoIncrement server
      rfl
  obtain ⟨hfile, hfiles⟩ := hcarries "log_file" (by simp)
  obtain ⟨hpos, hposs⟩ := hcarries "log_pos" (by simp)
  refine ⟨by rw [storedPosition, hfile, hpos, storedPosition], fun v hv => ?_⟩
  have hvfile : v.getBookmark e.tapStreamId "log_file" = _ := hfiles _ hv
  have hvpos : v.getBookmark e.tapStreamId "log_pos" = _ := hposs _ hv
  rw [storedPosition, hvfile, hvpos, storedPosition]

/-- A run fails before it calls `sync_table`, or does what that does. -/
theorem doSyncHistoricalBinlog_calls (e : CatalogEntry) (autoIncrement : String → Bool)
    (gtidConfig : GtidConfig) (run : StreamRun) (st : State) :
    ((doSyncHistoricalBinlog e autoIncrement gtidConfig run st).error ≠ none ∧
      ∀ v, .state v ∉ (doSyncHistoricalBinlog e autoIncrement gtidConfig run st).messages) ∨
    ∃ st', Calls e autoIncrement gtidConfig run st st' ∧
      let o := FullTable.syncTable e autoIncrement run.server (versionedArgs e run st) st'
      let o' := doSyncHistoricalBinlog e autoIncrement gtidConfig run st
      o'.messages = schemaMessage e [] :: o.messages ∧ o'.error = o.error ∧
        o'.executed = o.executed ∧
        (FullTable.pksAreAutoIncrementing autoIncrement e = true → o'.state = o.state) := by
  rcases doSyncHistoricalBinlog_cases e autoIncrement gtidConfig run st with
    ⟨before, st', err, hbefore, ho⟩ | ⟨hresume, ho⟩ | ⟨hresume, position, gtid, hpos, hgtid, ho⟩
  · rw [ho]
    refine Or.inl ⟨by simp [Outcome.failed], ?_⟩
    rcases hbefore with rfl | rfl <;> simp [Outcome.failed, schemaMessage]
  · exact Or.inr ⟨st, .resumed hresume, by simp [ho, Outcome.after]⟩
  · refine Or.inr ⟨_, .started hresume hpos hgtid, ?_⟩
    rw [ho, startSnapshot_eq, Outcome.thenState]
    split
    · exact ⟨rfl, rfl, rfl, fun _ => rfl⟩
    · exact ⟨by simp [Outcome.after], rfl, rfl, fun hauto => by simp [hauto, Outcome.after]⟩

/-- The position that a run that returns leaves: the one it found, or the one it read first. -/
theorem returned_position (hm : e.replicationMethod = .logBased)
    (hret : (doSyncHistoricalBinlog e autoIncrement gtidConfig run st).error = none) :
    (resumesSnapshot e gtidConfig.useGtid st = true ∧
      storedPosition e (doSyncHistoricalBinlog e autoIncrement gtidConfig run st).state =
        storedPosition e st) ∨
    (resumesSnapshot e gtidConfig.useGtid st = false ∧
      ∃ position, run.master.logFileAndPos = .ok position ∧
        storedPosition e (doSyncHistoricalBinlog e autoIncrement gtidConfig run st).state =
          position) := by
  rcases doSyncHistoricalBinlog_cases e autoIncrement gtidConfig run st with
    ⟨before, st', err, -, ho⟩ | ⟨hresume, ho⟩ | ⟨hresume, position, gtid, hpos, -, ho⟩
  · simp [ho, Outcome.failed] at hret
  · refine Or.inl ⟨hresume, ?_⟩
    rw [ho]
    exact (syncTable_position hm autoIncrement run.server _ st).1
  · refine Or.inr ⟨hresume, position, hpos, ?_⟩
    rw [ho, Outcome.error_after, startSnapshot_eq, Outcome.error_thenState] at hret
    have hkept := (syncTable_position hm autoIncrement run.server (versionedArgs e run st)
      (startState e autoIncrement run st position gtid)).1
    rw [ho, startSnapshot_eq, Outcome.thenState, hret]
    simp only [Outcome.after]
    split_ifs with hauto
    · rw [hkept, startState, if_pos hauto]
      exact storedPosition_writePosition _ _ _
    · exact storedPosition_writePosition _ _ _

theorem Calls.unique {st₁ st₂ : State} (h₁ : Calls e autoIncrement gtidConfig run st st₁)
    (h₂ : Calls e autoIncrement gtidConfig run st st₂) : st₁ = st₂ := by
  cases h₁ with
  | resumed hresume₁ =>
    cases h₂ with
    | resumed => rfl
    | started hresume₂ =>
      rw [hresume₁] at hresume₂
      cases hresume₂
  | started hresume₁ hpos₁ hgtid₁ =>
    cases h₂ with
    | resumed hresume₂ =>
      rw [hresume₁] at hresume₂
      cases hresume₂
    | started hresume₂ hpos₂ hgtid₂ =>
      rw [hpos₁, Except.ok.injEq] at hpos₂
      rw [hgtid₁, Except.ok.injEq] at hgtid₂
      rw [hpos₂, hgtid₂]

/-- A run that writes a STATE writes it in `sync_table`. -/
theorem state_mem_syncTable (hcalls : Calls e autoIncrement gtidConfig run st st')
    (hv : .state v ∈ (doSyncHistoricalBinlog e autoIncrement gtidConfig run st).messages) :
    .state v ∈ (FullTable.syncTable e autoIncrement run.server (versionedArgs e run st)
      st').messages := by
  rcases doSyncHistoricalBinlog_calls e autoIncrement gtidConfig run st with
    ⟨-, hno⟩ | ⟨st'', hcalls', hmsgs, -⟩
  · exact absurd hv (hno v)
  · rw [hcalls.unique hcalls']
    rw [hmsgs] at hv
    exact (List.mem_cons.mp hv).resolve_left (by simp [schemaMessage])

theorem publishedRecords_schemaMessage (ms : List Message) :
    publishedRecords (schemaMessage e [] :: ms) = publishedRecords ms := by
  simp [publishedRecords, published, Message.rows, schemaMessage]

/-- A STATE of a run has the position with which the run calls `sync_table`. -/
theorem SnapshotWrites.facts (hm : e.replicationMethod = .logBased) {before : List Message}
    {pages : Pages} (h : SnapshotWrites e autoIncrement gtidConfig run st before pages v) :
    ∃ st' sent, Calls e autoIncrement gtidConfig run st st' ∧
      StateAt e run.args.config (snapshotOutcomes e autoIncrement run st st') sent pages v ∧
      publishedRecords before = publishedRecords sent ∧
      storedPosition e v = storedPosition e st' ∧
      (FullTable.Untouched e st' → FullTable.Untouched e v) := by
  obtain ⟨sent, after, hcalls, hmsgs, rfl, hstate⟩ := h
  have hv := state_mem_syncTable hcalls (v := v) (by rw [hmsgs]; simp)
  refine ⟨_, sent, hcalls, hstate, ?_, (syncTable_position hm _ _ _ _).2 v hv,
    fun huntouched => FullTable.syncTable_untouched (Or.inr hm) huntouched hv⟩
  rw [publishedRecords_schemaMessage, publishedRecords_append,
    FullTable.publishedRecords_firstActivation, zero_add]

end Run

end TapMysql
