import TapMysql.Scheduling
import TapMysql.Select.Snapshot

/-!
# From a snapshot to the binlog

When a snapshot is finished the stream is read from the position that it stored, so a row that was
committed before this position and is unchanged since must have come with the snapshot. It has,
when the snapshot began with a bookmark that holds no window of another pass.
-/

namespace TapMysql

variable {κ : Type*} [LinearOrder κ]

/-- Runs that stop, and one from the last STATE that returns. -/
structure Finishes (db : Mysql κ) (log : CommitLog) (e : CatalogEntry)
    (autoIncrement : String → Bool) (gtidConfig : GtidConfig) (config : Option BatchConfig)
    (st : State) (n : Nat) (before : List Message) (pages : Pages) (v : State) (run : StreamRun)
    (t : ReadTimes) : Prop where
  stops : ∃ m ≤ t.start, Stops db log e autoIncrement gtidConfig config st n before pages v m
  runs : RunsAt db log e config run t
  returns : (doSyncHistoricalBinlog e autoIncrement gtidConfig run v).error = none

/-- No fetch of the snapshot that was cut off and tried again left a row in its batch writer. -/
def NothingHeldBack (config : Option BatchConfig) (pages : Pages) (last : Outcome) : Prop :=
  (∀ p ∈ pages, p.2 = []) ∧
    ∀ x ∈ last.executed, x.2.error.isSome → heldBack config x.2.chunks = []

/-- The rows that were committed before the position of `st`, and are unchanged since, have been
published. -/
def HandedOver (db : Mysql κ) (log : CommitLog) (e : CatalogEntry) (config : Option BatchConfig)
    (cs : List SelectColumn) (st : State) (finish : Nat) (messages : List Message) : Prop :=
  ∀ n rows, storedPosition e st = log.position n → log.Kept n finish rows →
    FullTable.keptRecords db e config cs rows ≤ publishedRecords messages

/-- The bookmark holds no window of a pass. -/
def WithoutWindow (e : CatalogEntry) (st : State) : Prop :=
  (st.getBookmark e.tapStreamId "max_pk_values").truthy = false ∧
    (st.getBookmark e.tapStreamId "last_pk_fetched").truthy = false

/-! ### Over an auto-incrementing key -/

section AutoIncrement

variable {db : Mysql κ} {log : CommitLog} {e : CatalogEntry} {k : String}
  {autoIncrement : String → Bool} {gtidConfig : GtidConfig} {config : Option BatchConfig}
  {cs : List SelectColumn} {run : StreamRun} {t : ReadTimes} {st st' v w : State} {m n : Nat}
  {published : Multiset (Except Err Record)}

theorem RunsAt.sees (hrun : RunsAt db log e config run t)
    (hk : ∀ i, IntegerKeyed e k (log.table i)) {p : Nat} (hp : p ≤ t.start)
    {rows : Multiset TableRow} (hrows : log.Kept p t.finish rows) (i : Nat) :
    FullTable.Sees db e k rows (run.server i) where
  maxPk := ⟨_, hk _, hrows _ (hp.trans (hrun.start_le i))
    ((hrun.maximum_le i).trans (hrun.select_le i)), hrun.maxPk i⟩
  select := ⟨_, hk _, hrows _ (hp.trans ((hrun.start_le i).trans (hrun.maximum_le i)))
    (hrun.select_le i), hrun.select i⟩

/-- The snapshot has read its position after the commit `p`, and the state covers the rows that
are kept since. -/
structure Begun (db : Mysql κ) (log : CommitLog) (e : CatalogEntry) (k : String)
    (config : Option BatchConfig) (cs : List SelectColumn) (n : Nat) (st : State)
    (published : Multiset (Except Err Record)) (p : Nat) : Prop where
  le : p ≤ n
  position : storedPosition e st = log.position p
  untouched : FullTable.Untouched e st
  covered : ∀ rows, rows ≠ 0 → log.Kept p n rows →
    FullTable.Covered db e k config cs rows st published

/-- Where a snapshot stands between two runs: it has a maximum key and goes on, or it holds
nothing of a pass and begins anew. -/
def Stands (db : Mysql κ) (log : CommitLog) (e : CatalogEntry) (k : String)
    (config : Option BatchConfig) (cs : List SelectColumn) (n : Nat) (st : State)
    (published : Multiset (Except Err Record)) : Prop :=
  WithoutWindow e st ∨ (st.getBookmark e.tapStreamId "max_pk_values").truthy = true ∧
    ∃ p, Begun db log e k config cs n st published p

theorem resumesSnapshot_of_position (useGtid : Bool)
    (hmax : (st.getBookmark e.tapStreamId "max_pk_values").truthy = true) {p : Nat}
    (hp : storedPosition e st = log.position p) : resumesSnapshot e useGtid st = true := by
  obtain ⟨hfile, hpos⟩ := Prod.mk.inj hp
  have hfile' : (st.getBookmark e.tapStreamId "log_file").truthy = true := by
    simp [hfile, Val.truthy, log.logFile_ne]
  have hpos' : (st.getBookmark e.tapStreamId "log_pos").truthy = true := by
    simp [hpos, Val.truthy, log.logPos_ne]
  simp [resumesSnapshot, hmax, hfile', hpos']

variable (hk : ∀ i, IntegerKeyed e k (log.table i)) (hm : e.replicationMethod = .logBased)
  (hauto : autoIncrement k = true) (hcs : selectColumns e.schema e.schema.keys = .ok cs)

include hk hcs in
theorem keptRecords_above_bot {rows : Multiset TableRow} {i : Nat}
    (hrows : rows ≤ ↑(log.table i)) :
    (FullTable.keptRecords db e config cs rows).filter
      ((⊥ : WithBot κ) < FullTable.recordPlace db k ·) =
        FullTable.keptRecords db e config cs rows := by
  refine Multiset.filter_eq_self.mpr fun x hx => ?_
  obtain ⟨r, hr, rfl⟩ := Multiset.mem_map.mp hx
  have hmem : r ∈ log.table i := Multiset.mem_coe.mp (Multiset.mem_of_le hrows hr)
  obtain ⟨a, ha⟩ := (hk i).cells r hmem
  rw [FullTable.recordPlace_tableRecord db (hk i) hcs config hmem, ha, db.place_int]
  exact WithBot.bot_lt_coe _

include hk hauto in
theorem pksAreAutoIncrementing_of_keyed :
    FullTable.pksAreAutoIncrementing autoIncrement e = true := by
  simp [FullTable.pksAreAutoIncrementing, (hk 0).keys, hauto]

include hk hauto hcs

/-- A run that goes on keeps the position; one that begins has just read it. -/
theorem Stands.calls (hst : Stands db log e k config cs m st published) (hlater : m ≤ t.start)
    (hrun : RunsAt db log e config run t)
    (hcalls : Calls e autoIncrement gtidConfig run st st') :
    ∃ p, Begun db log e k config cs t.start st' published p := by
  cases hcalls with
  | resumed hresume =>
    rcases hst with ⟨hmax, -⟩ | ⟨-, p, hbegun⟩
    · simp [resumesSnapshot, hmax] at hresume
    · exact ⟨p, hbegun.le.trans hlater, hbegun.position, hbegun.untouched,
        fun rows hne hkept => hbegun.covered rows hne (hkept.mono le_rfl hlater)⟩
  | @started position gtid hresume hpos hgtid =>
    rcases hst with ⟨hmax, hlast⟩ | ⟨hmax, p, hbegun⟩
    · have hkeys := pksAreAutoIncrementing_of_keyed hk hauto
      set st' := startState e autoIncrement run st position gtid with hst'
      have hkept : ∀ key ∈ ["max_pk_values", "last_pk_fetched"],
          st'.getBookmark e.tapStreamId key = st.getBookmark e.tapStreamId key := by
        intro key hkey
        simp only [hst', startState, hkeys, if_true, writePosition]
        simp only [List.mem_cons, List.not_mem_nil, or_false] at hkey
        rcases hkey with rfl | rfl <;> split_ifs <;> simp [State.getBookmark_writeBookmark]
      have hmax' : (st'.getBookmark e.tapStreamId "max_pk_values").truthy = false := by
        rw [hkept _ (by simp), hmax]
      have hlast' : (st'.getBookmark e.tapStreamId "last_pk_fetched").truthy = false := by
        rw [hkept _ (by simp), hlast]
      refine ⟨t.start, le_rfl, ?_, fun _ => hlast', fun rows _ hrows =>
        ⟨⊥, ⟨?_, fun htrue => ?_⟩, ?_⟩⟩
      · rw [hst', startState, if_pos hkeys, storedPosition_writePosition, hrun.position _ hpos]
      · simp [FullTable.pkFloor, hlast']
      · rw [hmax'] at htrue
        cases htrue
      · rw [keptRecords_above_bot hk hcs (hrows t.start le_rfl le_rfl)]
        exact Multiset.le_add_left _ _
    · rw [resumesSnapshot_of_position _ hmax hbegun.position] at hresume
      cases hresume

include hm

/-- What a run that stops after a STATE leaves, when no attempt before left a row in its
writer. -/
theorem Stands.stopped (hst : Stands db log e k config cs m st published) (hlater : m ≤ t.start)
    (hrun : RunsAt db log e config run t) {before : List Message} {pages : Pages}
    (hwrites : SnapshotWrites e autoIncrement gtidConfig run st before pages v)
    (hheld : ∀ p ∈ pages, p.2 = []) :
    Stands db log e k config cs t.finish v (published + publishedRecords before) := by
  obtain ⟨st', sent, hcalls, hstate, hpub, hposition, huntouched⟩ := hwrites.facts hm
  obtain ⟨p, hbegun⟩ := hst.calls hk hauto hcs hlater hrun hcalls
  have hstart := hrun.start_le_finish
  cases hmax : (v.getBookmark e.tapStreamId "max_pk_values").truthy with
  | false => exact Or.inl ⟨hmax, huntouched hbegun.untouched hmax⟩
  | true =>
    refine Or.inr ⟨hmax, p, hbegun.le.trans hstart, hposition.trans hbegun.position,
      huntouched hbegun.untouched, fun rows hne hkept => ?_⟩
    have hcovered := hbegun.covered rows hne (hkept.mono le_rfl hstart)
    have hcolumns : (versionedArgs e run st).columns = e.schema.keys := hrun.columns
    rw [← hrun.config] at hcovered ⊢
    rw [hpub]
    exact hcovered.state (hk 0).keys hauto hne hcolumns hcs
      (fun i => hrun.sees hk hbegun.le hkept i) hstate hheld

theorem Stops.stands (hst : WithoutWindow e st) {before : List Message} {pages : Pages}
    (h : Stops db log e autoIncrement gtidConfig config st n before pages v m)
    (hheld : ∀ p ∈ pages, p.2 = []) :
    Stands db log e k config cs m v (publishedRecords before) := by
  induction h with
  | none => exact Or.inl hst
  | stopped _ hlater hrun hwrites ih =>
    obtain ⟨hbefore, hnow⟩ := List.forall_mem_append.mp hheld
    rw [publishedRecords_append]
    exact (ih hbefore).stopped hk hm hauto hcs hlater hrun hwrites hnow

/-- A run that returns hands the stream over, when no fetch that was cut off left a row in the
writer. -/
theorem Stands.handedOver {before : List Message}
    (hst : Stands db log e k config cs m st (publishedRecords before)) (hlater : m ≤ t.start)
    (hrun : RunsAt db log e config run t)
    (hret : (doSyncHistoricalBinlog e autoIncrement gtidConfig run st).error = none)
    (hheld : ∀ x ∈ (doSyncHistoricalBinlog e autoIncrement gtidConfig run st).executed,
      x.2.error.isSome → heldBack config x.2.chunks = []) :
    HandedOver db log e config cs
      (doSyncHistoricalBinlog e autoIncrement gtidConfig run st).state t.finish
      (before ++ (doSyncHistoricalBinlog e autoIncrement gtidConfig run st).messages) := by
  rcases doSyncHistoricalBinlog_calls e autoIncrement gtidConfig run st with
    ⟨herr, -⟩ | ⟨st', hcalls, hmsgs, herr, hexec, hstate⟩
  · exact absurd hret herr
  · obtain ⟨p, hbegun⟩ := hst.calls hk hauto hcs hlater hrun hcalls
    intro i rows hposition hkept
    rw [hstate (pksAreAutoIncrementing_of_keyed hk hauto), (syncTable_position hm _ _ _ _).1,
      hbegun.position] at hposition
    obtain rfl := CommitLog.position_eq hposition
    rcases eq_or_ne rows 0 with rfl | hne
    · exact Multiset.zero_le _
    · have hcovered := hbegun.covered rows hne (hkept.mono le_rfl hrun.start_le_finish)
      rw [publishedRecords_append, hmsgs, publishedRecords_schemaMessage, ← hrun.config]
      rw [← hrun.config] at hcovered hheld
      rw [hexec] at hheld
      rw [hret] at herr
      have hcolumns : (versionedArgs e run st).columns = e.schema.keys := hrun.columns
      exact hcovered.returns (hk 0).keys hauto hne hcolumns hcs
        (fun i => hrun.sees hk hbegun.le hkept i) herr.symm hheld

end AutoIncrement

/-! ### Without an auto-incrementing key -/

section WholeTable

variable {db : Mysql κ} {log : CommitLog} {e : CatalogEntry} {autoIncrement : String → Bool}
  {gtidConfig : GtidConfig} {config : Option BatchConfig} {cs : List SelectColumn}
  {run : StreamRun} {t : ReadTimes} {st st' v w : State} {m n : Nat}

theorem Calls.position (hauto : FullTable.pksAreAutoIncrementing autoIncrement e = false)
    (hcalls : Calls e autoIncrement gtidConfig run st st') :
    storedPosition e st' = storedPosition e st := by
  cases hcalls with
  | resumed => rfl
  | started => simp [startState, hauto, storedPosition, State.getBookmark_writeBookmark]

/-- Runs that stop store no position, and come one after the other. -/
theorem Stops.position (hauto : FullTable.pksAreAutoIncrementing autoIncrement e = false)
    (hm : e.replicationMethod = .logBased) {before : List Message} {pages : Pages}
    (h : Stops db log e autoIncrement gtidConfig config st n before pages v m) :
    storedPosition e v = storedPosition e st ∧ n ≤ m := by
  induction h with
  | none => exact ⟨rfl, le_rfl⟩
  | stopped _ hlater hrun hwrites ih =>
    obtain ⟨hposition, hle⟩ := ih
    obtain ⟨st', sent, hcalls, -, -, hkept, -⟩ := hwrites.facts hm
    exact ⟨by rw [hkept, hcalls.position hauto, hposition],
      hle.trans (hlater.trans hrun.start_le_finish)⟩

/-- A run that returns publishes the table that it has read after its position. -/
theorem RunsAt.handedOver (hauto : FullTable.pksAreAutoIncrementing autoIncrement e = false)
    (hm : e.replicationMethod = .logBased)
    (hcs : selectColumns e.schema e.schema.keys = .ok cs) (hrun : RunsAt db log e config run t)
    (hpassed : ∀ i, storedPosition e st = log.position i → i ≤ t.start)
    (hret : (doSyncHistoricalBinlog e autoIncrement gtidConfig run st).error = none)
    (before : List Message) :
    HandedOver db log e config cs
      (doSyncHistoricalBinlog e autoIncrement gtidConfig run st).state t.finish
      (before ++ (doSyncHistoricalBinlog e autoIncrement gtidConfig run st).messages) := by
  intro i rows hposition hkept
  have hle : i ≤ t.start := by
    rcases returned_position hm hret with ⟨-, hstored⟩ | ⟨-, position, hread, hstored⟩
    · exact hpassed i (hstored ▸ hposition)
    · rw [hstored, hrun.position _ hread] at hposition
      exact (CommitLog.position_eq hposition).ge
  rcases doSyncHistoricalBinlog_calls e autoIncrement gtidConfig run st with
    ⟨herr, -⟩ | ⟨st', hcalls, hmsgs, herr, -⟩
  · exact absurd hret herr
  · rw [publishedRecords_append, hmsgs, publishedRecords_schemaMessage, ← hrun.config]
    refine le_trans ?_ (Multiset.le_add_left _ _)
    have hcolumns : (versionedArgs e run st).columns = e.schema.keys := hrun.columns
    rw [hret] at herr
    exact FullTable.syncTable_whole hauto hcolumns hcs
      (fun j => ⟨_, hkept _ (hle.trans ((hrun.start_le j).trans (hrun.maximum_le j)))
        (hrun.select_le j), hrun.select j⟩) herr.symm

end WholeTable

/-! ### The STATE messages before -/

section States

variable {db : Mysql κ} {log : CommitLog} {e : CatalogEntry} {k : String}
  {autoIncrement : String → Bool} {gtidConfig : GtidConfig} {config : Option BatchConfig}
  {run : StreamRun} {t : ReadTimes} {st st' v : State} {n : Nat} {o : Outcome}

theorem state_mem_outcomes
    (hv : .state v ∈ (doSyncHistoricalBinlog e autoIncrement gtidConfig run st).messages) :
    ∃ st', Calls e autoIncrement gtidConfig run st st' ∧
      ∃ o ∈ snapshotOutcomes e autoIncrement run st st', .state v ∈ o.messages := by
  rcases doSyncHistoricalBinlog_calls e autoIncrement gtidConfig run st with
    ⟨-, hno⟩ | ⟨st', hcalls, -⟩
  · exact absurd hv (hno v)
  · refine ⟨st', hcalls, ?_⟩
    have hmem := FullTable.state_mem_loop (state_mem_syncTable hcalls hv)
    rw [FullTable.loop, FullTable.retryLoop, (attempts_outcomes _ _ _).1] at hmem
    exact List.mem_flatMap.mp hmem

theorem Calls.maximum (hcalls : Calls e autoIncrement gtidConfig run st st') :
    st'.getBookmark e.tapStreamId "max_pk_values" =
      st.getBookmark e.tapStreamId "max_pk_values" := by
  cases hcalls with
  | resumed => rfl
  | started =>
    unfold startState writePosition
    simp only
    split_ifs <;> simp [State.getBookmark_writeBookmark]

/-- A STATE written once the maximum key is known leaves the stream to the snapshot. -/
theorem state_requiresHistorical (hk : ∀ i, IntegerKeyed e k (log.table i))
    (hm : e.replicationMethod = .logBased) (hauto : autoIncrement k = true)
    (hrun : RunsAt db log e config run t) (hcalls : Calls e autoIncrement gtidConfig run st st')
    (ho : (snapshotOutcomes e autoIncrement run st st')[n]? = some o)
    (hv : .state v ∈ o.messages)
    (hread : (st.getBookmark e.tapStreamId "max_pk_values").truthy = true ∨
      ∃ j ≤ n, ∃ result, (run.server j).maxPk = .ok result ∧ log.table (t.maximum j) ≠ []) :
    binlogStreamRequiresHistorical e v = true := by
  have hst : ((whitelistBookmarkKeys (FullTable.generateBookmarkKeys e) e.tapStreamId
      st').getBookmark e.tapStreamId "max_pk_values").truthy = true ∨
      ∃ j ≤ n, FullTable.ReadsMaximum db e k (run.server (0 + j)) := by
    refine hread.imp (fun ht => ?_) fun hread => ?_
    · rw [FullTable.getBookmark_whitelist (FullTable.mem_generateBookmarkKeys (by simp)),
        hcalls.maximum, ht]
    · obtain ⟨j, hj, result, hresult, hne⟩ := hread
      rw [← Nat.zero_add j] at hresult
      exact ⟨j, hj, result, _, hresult, hk (t.maximum j), hne,
        hrun.maxPk j result (by rwa [Nat.zero_add] at hresult)⟩
  rw [snapshotOutcomes, FullTable.retryOutcomes_eq (hk 0).keys hauto] at ho
  have hmax := FullTable.outcome_maximum (Or.inr hm) ho hst v hv
  simp [binlogStreamRequiresHistorical, hmax]

end States

/-! ### The handoff -/

/-- A finished snapshot has published every row that was committed before its position and is
unchanged since: over an auto-incrementing key when it began with a bookmark that holds no window
of a pass and lost no row in a batch writer, and over any other table whenever the position in
that bookmark, if it holds one, had been reached. Every STATE that is written once a maximum key
has been read requires the snapshot to go on. -/
theorem handoff_leaves_no_gap (db : Mysql κ) (log : CommitLog) (e : CatalogEntry)
    (autoIncrement : String → Bool) (gtidConfig : GtidConfig) (config : Option BatchConfig)
    (cs : List SelectColumn) (hm : e.replicationMethod = .logBased)
    (hcs : selectColumns e.schema e.schema.keys = .ok cs) :
    (∀ (k : String) (st v : State) (n : Nat) (before : List Message) (pages : Pages)
        (run : StreamRun) (t : ReadTimes),
      (∀ i, IntegerKeyed e k (log.table i)) → autoIncrement k = true →
      Finishes db log e autoIncrement gtidConfig config st n before pages v run t →
      WithoutWindow e st →
      NothingHeldBack config pages (doSyncHistoricalBinlog e autoIncrement gtidConfig run v) →
      HandedOver db log e config cs
        (doSyncHistoricalBinlog e autoIncrement gtidConfig run v).state t.finish
        (before ++ (doSyncHistoricalBinlog e autoIncrement gtidConfig run v).messages)) ∧
    (∀ (st v : State) (n : Nat) (before : List Message) (pages : Pages) (run : StreamRun)
        (t : ReadTimes),
      FullTable.pksAreAutoIncrementing autoIncrement e = false →
      Finishes db log e autoIncrement gtidConfig config st n before pages v run t →
      (∀ i, storedPosition e st = log.position i → i ≤ n) →
      HandedOver db log e config cs
        (doSyncHistoricalBinlog e autoIncrement gtidConfig run v).state t.finish
        (before ++ (doSyncHistoricalBinlog e autoIncrement gtidConfig run v).messages)) ∧
    (∀ (k : String) (st v : State) (run : StreamRun) (t : ReadTimes),
      (∀ i, IntegerKeyed e k (log.table i)) → autoIncrement k = true →
      RunsAt db log e config run t →
      .state v ∈ (doSyncHistoricalBinlog e autoIncrement gtidConfig run st).messages →
      ∃ st', Calls e autoIncrement gtidConfig run st st' ∧
        (∃ o ∈ snapshotOutcomes e autoIncrement run st st', .state v ∈ o.messages) ∧
        ∀ (i : Nat) (o : Outcome), (snapshotOutcomes e autoIncrement run st st')[i]? = some o →
          .state v ∈ o.messages →
          ((st.getBookmark e.tapStreamId "max_pk_values").truthy = true ∨
            ∃ j ≤ i, ∃ result, (run.server j).maxPk = .ok result ∧
              log.table (t.maximum j) ≠ []) →
          binlogStreamRequiresHistorical e v = true) := by
  refine ⟨?_, ?_, ?_⟩
  · intro k st v n before pages run t hk hauto hfinishes hst hheld
    obtain ⟨m, hlater, hstops⟩ := hfinishes.stops
    exact (hstops.stands hk hm hauto hcs hst hheld.1).handedOver hk hm hauto hcs hlater
      hfinishes.runs hfinishes.returns hheld.2
  · intro st v n before pages run t hauto hfinishes hpassed
    obtain ⟨m, hlater, hstops⟩ := hfinishes.stops
    obtain ⟨hposition, hle⟩ := hstops.position hauto hm
    exact hfinishes.runs.handedOver hauto hm hcs
      (fun i hi => (hpassed i (hposition ▸ hi)).trans (hle.trans hlater)) hfinishes.returns before
  · intro k st v run t hk hauto hrun hv
    obtain ⟨st', hcalls, hmem⟩ := state_mem_outcomes hv
    exact ⟨st', hcalls, hmem, fun i o ho hvo hread =>
      state_requiresHistorical hk hm hauto hrun hcalls ho hvo hread⟩

namespace Sample

/-- The row 4 comes with the first commit, and the row 1 goes with the second. -/
def changingLog : CommitLog where
  table n := ([[1, 2, 3], [1, 2, 3, 4]].getD n [2, 3, 4]).map row
  logFile _ := "mysql-bin.000001"
  logPos n := n + 4
  logFile_ne := by simp
  logPos_ne := by
    intro n
    omega
  position_inj := by
    intro m n _ h
    omega

/-- All reads of a run come after the commit `n`. -/
def readsAfter (n : Nat) : ReadTimes := ⟨n, fun _ => n, fun _ => n, n⟩

def recordMode : SyncArgs := ⟨["id"], .int 7, "2024-01-01T00:00:00Z", none⟩

def noGtid : GtidConfig := ⟨false, true⟩

def snapshotRun (args : SyncArgs) (n : Nat) : StreamRun where
  server := serverOf (changingLog.table n) fun _ => none
  master := ⟨.ok (), .ok (), .ok (changingLog.position n), .ok .null⟩
  args := args
  now := 9

/-- The STATE of a snapshot over the keys up to 3, after the row 2. -/
def snapshotState : State :=
  ((((State.empty.writeBookmark "db-t" "version" (.int 9)).writeBookmark "db-t" "log_file"
    (.str "mysql-bin.000001")).writeBookmark "db-t" "log_pos" (.int 4)).writeBookmark "db-t"
      "max_pk_values" (idValues 3)).writeBookmark "db-t" "last_pk_fetched" (idValues 2)

theorem snapshotRun_answers (args : SyncArgs) (n i : Nat) :
    Answers intServer (streamOf "LOG_BASED") (changingLog.table n)
      ((snapshotRun args n).server i) :=
  serverOf_answers (changingLog.table n)
    (show (streamOf "LOG_BASED").getKeyProperties = ["id"] by decide) (fun _ => none) i

theorem snapshotRun_runsAt {args : SyncArgs} (hargs : args.columns = idSchema.keys) (n : Nat) :
    RunsAt intServer changingLog (streamOf "LOG_BASED") args.config (snapshotRun args n)
      (readsAfter n) where
  columns := hargs
  config := rfl
  position := by
    intro p hp
    cases hp
    rfl
  start_le _ := le_rfl
  maximum_le _ := le_rfl
  select_le _ := le_rfl
  maxPk i := (snapshotRun_answers args n i).maxPk
  select i := (snapshotRun_answers args n i).select

theorem changingLog_keyed (i : Nat) :
    IntegerKeyed (streamOf "LOG_BASED") "id" (changingLog.table i) := by
  have hids : ([[1, 2, 3], [1, 2, 3, 4]].getD i [2, 3, 4] : List Int).Nodup := by
    rcases i with _ | _ | i
    · decide
    · decide
    · exact (by decide : ([2, 3, 4] : List Int).Nodup)
  exact integerKeyed hids (by decide) (by decide)

end Sample

open Sample

/-- A snapshot that stops after the rows 1 and 2 and goes on after both commits, when the row 1
has gone; one of the whole table after the first commit; and the STATE after which the first one
stops. -/
theorem handoff_leaves_no_gap_threeRows :
    HandedOver intServer changingLog (streamOf "LOG_BASED") batchesOfTwo.config [.plain "id"]
      (doSyncHistoricalBinlog (streamOf "LOG_BASED") (fun _ => true) noGtid
        (snapshotRun batchesOfTwo 2) snapshotState).state 2
      ([schemaMessage (streamOf "LOG_BASED") [], .activateVersion "db-t" (.int 9),
          batchOf [1, 2]] ++
        (doSyncHistoricalBinlog (streamOf "LOG_BASED") (fun _ => true) noGtid
          (snapshotRun batchesOfTwo 2) snapshotState).messages) ∧
    HandedOver intServer changingLog (streamOf "LOG_BASED") batchesOfTwo.config [.plain "id"]
      (doSyncHistoricalBinlog (streamOf "LOG_BASED") (fun _ => false) noGtid
        (snapshotRun batchesOfTwo 1) State.empty).state 1
      ([] ++ (doSyncHistoricalBinlog (streamOf "LOG_BASED") (fun _ => false) noGtid
        (snapshotRun batchesOfTwo 1) State.empty).messages) ∧
    binlogStreamRequiresHistorical (streamOf "LOG_BASED") snapshotState = true := by
  have hstops : Stops intServer changingLog (streamOf "LOG_BASED") (fun _ => true) noGtid
      batchesOfTwo.config State.empty 0 ([] ++ [schemaMessage (streamOf "LOG_BASED") [],
        .activateVersion "db-t" (.int 9), batchOf [1, 2]])
      ([] ++ [(records [1, 2], [])]) snapshotState 0 :=
    .stopped .none (Nat.zero_le _) (snapshotRun_runsAt (by decide) 0)
      (.sync [batchOf [1, 2]] _ (.started rfl rfl rfl) rfl rfl (.here rfl))
  have hnone : Stops intServer changingLog (streamOf "LOG_BASED") (fun _ => false) noGtid
      batchesOfTwo.config State.empty 1 [] [] State.empty 1 := .none
  refine ⟨?_, ?_, ?_⟩
  · exact (handoff_leaves_no_gap intServer changingLog (streamOf "LOG_BASED") (fun _ => true)
      noGtid batchesOfTwo.config [.plain "id"] (by decide) columns_id).1 "id" State.empty
      snapshotState 0 _ _ (snapshotRun batchesOfTwo 2) (readsAfter 2) changingLog_keyed rfl
      ⟨⟨0, Nat.zero_le _, hstops⟩, snapshotRun_runsAt (by decide) 2, by decide⟩
      ⟨by decide, by decide⟩ ⟨by decide, by decide⟩
  · exact (handoff_leaves_no_gap intServer changingLog (streamOf "LOG_BASED") (fun _ => false)
      noGtid batchesOfTwo.config [.plain "id"] (by decide) columns_id).2.1 State.empty State.empty
      1 _ _ (snapshotRun batchesOfTwo 1) (readsAfter 1) (by decide)
      ⟨⟨1, le_rfl, hnone⟩, snapshotRun_runsAt (by decide) 1, by decide⟩
      fun i hi => by simp [storedPosition, CommitLog.position, State.getBookmark,
        State.bookmark, State.empty] at hi
  · obtain ⟨st', hcalls, -, hrequires⟩ := (handoff_leaves_no_gap intServer changingLog
      (streamOf "LOG_BASED") (fun _ => true) noGtid batchesOfTwo.config [.plain "id"] (by decide)
      columns_id).2.2 "id" State.empty snapshotState (snapshotRun batchesOfTwo 0) (readsAfter 0)
      changingLog_keyed rfl (snapshotRun_runsAt (by decide) 0) (by decide)
    obtain rfl := hcalls.unique (.started rfl rfl rfl)
    exact hrequires 0 _ rfl (by decide) (Or.inr ⟨0, le_rfl, _, rfl, by decide⟩)

/-- A FULL_TABLE sync that stopped after the row 2 leaves its window, and the snapshot that
follows publishes the row 3 only: the rows 1 and 2, and the row 4 that was committed before the
snapshot began, come neither with it nor after its position. -/
theorem snapshot_starts_in_old_window :
    Interrupted (FullTable.Writes intServer (streamOf "FULL_TABLE") (fun _ => true)
      batchesOfTwo.config (changingLog.table 0)) State.empty [batchOf [1, 2]]
      [(records [1, 2], [])] (passState 2) ∧
    Finishes intServer changingLog (streamOf "LOG_BASED") (fun _ => true) noGtid none
      (passState 2) 1 [] [] (passState 2) (snapshotRun recordMode 1) (readsAfter 1) ∧
    ¬HandedOver intServer changingLog (streamOf "LOG_BASED") none [.plain "id"]
      (doSyncHistoricalBinlog (streamOf "LOG_BASED") (fun _ => true) noGtid
        (snapshotRun recordMode 1) (passState 2)).state 1
      ([] ++ (doSyncHistoricalBinlog (streamOf "LOG_BASED") (fun _ => true) noGtid
        (snapshotRun recordMode 1) (passState 2)).messages) := by
  have hcolumns : recordMode.columns = idSchema.keys := by decide
  refine ⟨?_, ⟨⟨1, le_rfl, .none⟩, snapshotRun_runsAt hcolumns 1, by decide⟩, fun h => ?_⟩
  · exact .stopped (.sync (serverOf (changingLog.table 0) fun _ => none) batchesOfTwo _
      (serverOf_answers _ (by decide) _) (by decide) rfl rfl (.here rfl))
  · have hkept : changingLog.Kept 1 1 (([1, 2, 3, 4].map row : List TableRow) :
        Multiset TableRow) := fun i hi hi' => by
      obtain rfl : i = 1 := le_antisymm hi' hi
      exact le_rfl
    have hcard := Multiset.card_le_card (h 1 _ (by decide) hkept)
    revert hcard
    decide

end TapMysql
