import TapMysql.Binlog.CurrentGtid
import TapMysql.FirstSync

/-!
# The gtid of a snapshot

A LOG_BASED snapshot on a MySQL server in gtid mode is handed over with the gtid that the server had
when it began. It names the transactions that this server had executed, and none of those that it
had from others; when they leave a gap, there is no such gtid and the run raises.
-/

namespace TapMysql

open Binlog (SourceSet executed executedText fetchCurrentGtidPos namedTransactions)

/-! ### The gtid of a snapshot -/

section Snapshot

variable {e : CatalogEntry} {run : StreamRun} {st : State} {sources : List SourceSet}
  {server : String}

/-- The gtid of the bookmark names, of all transactions that the server has executed, its own. -/
def NamesExecuted (e : CatalogEntry) (sources : List SourceSet) (server : String) (st : State) :
    Prop :=
  ∃ gtid, st.getBookmark e.tapStreamId "gtid" = .str gtid ∧
    namedTransactions gtid = {t | t ∈ executed sources ∧ t.1 = server}

theorem getBookmark_writePosition_gtid (position : Val × Val) {gtid : Val}
    (h : gtid.truthy = true) (st : State) :
    (writePosition e position gtid st).getBookmark e.tapStreamId "gtid" = gtid := by
  rw [writePosition, if_pos h, State.getBookmark_writeBookmark_self]

/-- A snapshot that starts at a gtid hands this gtid over, and an auto-incrementing key has it in
every STATE. -/
theorem startSnapshot_gtid (hm : e.replicationMethod = .logBased) (autoIncrement : String → Bool)
    (run : StreamRun) (st : State) (position : Val × Val) {gtid : Val}
    (hgtid : gtid.truthy = true) :
    ((startSnapshot e autoIncrement run st position gtid).error = none →
      (startSnapshot e autoIncrement run st position gtid).state.getBookmark e.tapStreamId "gtid" =
        gtid) ∧
    (FullTable.pksAreAutoIncrementing autoIncrement e = true →
      ∀ v, .state v ∈ (startSnapshot e autoIncrement run st position gtid).messages →
        v.getBookmark e.tapStreamId "gtid" = gtid) := by
  set called := startState e autoIncrement run st position gtid
  have hmem : "gtid" ∈ FullTable.generateBookmarkKeys e := by
    simp [FullTable.generateBookmarkKeys, hm]
  obtain ⟨hstate, hmsgs⟩ : (FullTable.syncTable e autoIncrement run.server (versionedArgs e run st)
      called).Carries e.tapStreamId "gtid" (versionedArgs e run st).config
        (versionedArgs e run st).streamVersion (called.getBookmark e.tapStreamId "gtid") :=
    FullTable.syncTable_carries (.inr hm) (by decide) (by decide) hmem autoIncrement run.server rfl
  have hcalled : FullTable.pksAreAutoIncrementing autoIncrement e = true →
      called.getBookmark e.tapStreamId "gtid" = gtid := by
    intro hauto
    simp only [called, startState, hauto, if_true]
    exact getBookmark_writePosition_gtid position hgtid _
  rw [startSnapshot_eq, Outcome.error_thenState]
  constructor
  · intro hret
    simp only [Outcome.thenState, hret]
    split_ifs with hauto
    · exact hstate.trans (hcalled hauto)
    · exact getBookmark_writePosition_gtid position hgtid _
  · intro hauto v hv
    rw [Outcome.thenState] at hv
    split at hv
    · exact (hmsgs _ hv).trans (hcalled hauto)
    · rw [List.append_nil] at hv
      exact (hmsgs _ hv).trans (hcalled hauto)

/-- A snapshot that begins on a MySQL server in gtid mode hands over a gtid that names just the
transactions that this server has executed, and none of another server. When they are not one
interval, it raises before the first row. -/
theorem snapshot_executed (autoIncrement : String → Bool)
    (hm : e.replicationMethod = .logBased) (hdistinct : (sources.map SourceSet.uuid).Nodup)
    (hgtid : run.master.gtidPos = (fetchCurrentGtidPos .mysql (.ok server)
      (.ok (some (executedText sources)))).map .str)
    (hresume : resumesSnapshot e true st = false) :
    ((doSyncHistoricalBinlog e autoIncrement ⟨true, true⟩ run st).error = none →
      NamesExecuted e sources server
        (doSyncHistoricalBinlog e autoIncrement ⟨true, true⟩ run st).state) ∧
    (FullTable.pksAreAutoIncrementing autoIncrement e = true → ∀ v,
      .state v ∈ (doSyncHistoricalBinlog e autoIncrement ⟨true, true⟩ run st).messages →
        NamesExecuted e sources server v) ∧
    ((∀ s ∈ sources, s.uuid = server → ∀ i, s.intervals ≠ [i]) →
      (doSyncHistoricalBinlog e autoIncrement ⟨true, true⟩ run st).error ≠ none ∧
        published (doSyncHistoricalBinlog e autoIncrement ⟨true, true⟩ run st).messages = []) := by
  rcases doSyncHistoricalBinlog_cases e autoIncrement ⟨true, true⟩ run st with
    ⟨before, st', err, hbefore, ho⟩ | ⟨hagain, -⟩ | ⟨-, position, gtid, -, htaken, ho⟩
  · rw [ho]
    refine ⟨fun hret => ?_, fun _ v hv => ?_, fun _ => ⟨Option.some_ne_none err, ?_⟩⟩
    · cases hret
    · rcases hbefore with rfl | rfl <;> simp [Outcome.failed, schemaMessage] at hv
    · rcases hbefore with rfl | rfl <;> rfl
  · rw [hresume] at hagain
    cases hagain
  · rw [if_pos rfl, hgtid] at htaken
    rcases Binlog.fetchCurrentGtidPos_executed hdistinct server with
      ⟨s, hs, huuid, ⟨i, hi⟩, hfound⟩ | ⟨-, hnone⟩
    · rw [hfound] at htaken
      obtain rfl : Val.str s.text = gtid := Except.ok.inj htaken
      have hne : s.text ≠ "" := by
        intro hempty
        have hown := (s.isGtidOf_text server).mpr ⟨huuid, i, hi⟩
        rw [hempty, Binlog.isGtidOf_empty] at hown
        cases hown
      have hnamed : namedTransactions s.text = {t | t ∈ executed sources ∧ t.1 = server} := by
        rw [Binlog.namedTransactions_text hdistinct hs hi, huuid]
      have htruthy : (Val.str s.text).truthy = true := by simpa [Val.truthy] using hne
      obtain ⟨hstate, hmsgs⟩ := startSnapshot_gtid hm autoIncrement run st position htruthy
      rw [ho]
      refine ⟨fun hret => ⟨s.text, hstate hret, hnamed⟩, fun hauto v hv => ?_,
        fun hno => absurd hi (hno s hs huuid i)⟩
      rcases List.mem_append.mp hv with hv | hv
      · simp [schemaMessage] at hv
      · exact ⟨s.text, hmsgs hauto v hv, hnamed⟩
    · rw [hnone] at htaken
      cases htaken

end Snapshot

/-! ### The run -/

section Run

variable {S : SyncSource} {config : SyncConfig} {catalog : List CatalogEntry} {st : State}
  {plan : SyncPlan} {e : CatalogEntry} {sources : List SourceSet} {server : String}

/-- A run on a MySQL server in gtid mode that begins a snapshot of the LOG_BASED stream, while the
server, with this uuid, has executed the transactions of `sources`. -/
structure BeginsAtGtid (S : SyncSource) (config : SyncConfig) (catalog : List CatalogEntry)
    (st : State) (plan : SyncPlan) (e : CatalogEntry) (sources : List SourceSet)
    (server : String) : Prop where
  planned : planSync S config catalog st = .ok plan
  distinct : (idsOf catalog).Nodup
  once : (idsOf plan.nonBinlog).Nodup
  names : S.NamesColumns
  scheduled : e ∈ plan.nonBinlog
  logBased : e.replicationMethod = .logBased
  hasColumns : e.schema.keys.isEmpty = false
  mode : config.gtidConfig = ⟨true, true⟩
  fresh : resumesSnapshot e true st = false
  uuids : (sources.map SourceSet.uuid).Nodup
  executed : (S.runs e).master.gtidPos = (fetchCurrentGtidPos .mysql (.ok server)
    (.ok (some (executedText sources)))).map .str

theorem resumesSnapshot_congr {st' : State} (e : CatalogEntry) (useGtid : Bool)
    (h : st'.bookmarks.get? e.tapStreamId = st.bookmarks.get? e.tapStreamId) :
    resumesSnapshot e useGtid st' = resumesSnapshot e useGtid st := by
  simp only [resumesSnapshot, State.getBookmark_congr h]

theorem NamesExecuted.congr {v v' : State} (h : NamesExecuted e sources server v)
    (hsame : v'.bookmarks.get? e.tapStreamId = v.bookmarks.get? e.tapStreamId) :
    NamesExecuted e sources server v' := by
  obtain ⟨gtid, hstored, hnamed⟩ := h
  exact ⟨gtid, (State.getBookmark_congr hsame _).trans hstored, hnamed⟩

/-- What the turn of the stream makes of the gtid. -/
theorem BeginsAtGtid.turn (h : BeginsAtGtid S config catalog st plan e sources server)
    {begun : State}
    (hbegun : begun.bookmarks.get? e.tapStreamId = st.bookmarks.get? e.tapStreamId) :
    ((plan.turn S config e begun).error = none →
      NamesExecuted e sources server (plan.turn S config e begun).state) ∧
    (FullTable.pksAreAutoIncrementing (S.autoIncrement e) e = true → ∀ v,
      .state v ∈ (plan.turn S config e begun).messages →
        v.bookmarks.get? e.tapStreamId = st.bookmarks.get? e.tapStreamId ∨
          NamesExecuted e sources server v) ∧
    ((∀ s ∈ sources, s.uuid = server → ∀ i, s.intervals ≠ [i]) →
      (plan.turn S config e begun).error ≠ none ∧
        published (plan.turn S config e begun).messages = []) := by
  set st₀ := begun.setCurrentlySyncing (some e.tapStreamId)
  have hturn : plan.turn S config e begun = (doSyncHistoricalBinlog e (S.autoIncrement e)
      ⟨true, true⟩ ((S.runOf plan.settings e).over e) st₀).after [.state st₀] := by
    simp only [SyncPlan.turn, syncStream, h.logBased, h.mode]
    rfl
  have hexecuted : ((S.runOf plan.settings e).over e).master.gtidPos = _ := h.executed
  have hfresh : resumesSnapshot e true st₀ = false :=
    (resumesSnapshot_congr e true hbegun).trans h.fresh
  obtain ⟨hstate, hmsgs, hnone⟩ :=
    snapshot_executed (S.autoIncrement e) h.logBased h.uuids hexecuted hfresh
  rw [hturn]
  refine ⟨hstate, fun hauto v hv => ?_, fun hno => ?_⟩
  · rcases List.mem_cons.mp hv with hv | hv
    · obtain rfl : v = st₀ := Message.state.inj hv
      exact .inl hbegun
    · exact .inr (hmsgs hauto v hv)
  · exact hnone hno

/-- A run that begins a snapshot on a MySQL server in gtid mode, and returns, leaves a gtid that
names just the transactions that this server had executed, and none of another server; over an
auto-incrementing key every STATE that has touched the bookmark names them. When they are not one
interval, the run raises without a row of the stream. -/
theorem gtid_snapshot_names_executed (h : BeginsAtGtid S config catalog st plan e sources server) :
    (∀ st', (doSync S config catalog st).2 = .ok st' → NamesExecuted e sources server st') ∧
    (FullTable.pksAreAutoIncrementing (S.autoIncrement e) e = true → ∀ v,
      .message (.state v) ∈ (doSync S config catalog st).1 →
        v.bookmarks.get? e.tapStreamId = st.bookmarks.get? e.tapStreamId ∨
          NamesExecuted e sources server v) ∧
    ((∀ s ∈ sources, s.uuid = server → ∀ i, s.intervals ≠ [i]) →
      (∀ st', (doSync S config catalog st).2 ≠ .ok st') ∧
        rowsOn e.tapStreamId (doSync S config catalog st).1 = []) := by
  rcases doSync_split h.planned h.distinct h.once h.names h.scheduled with
    ⟨hquiet, hempty⟩ | ⟨begun, before, after, hbegun, hruns, -⟩
  · have hraises : ∀ st', (doSync S config catalog st).2 ≠ .ok st' := by
      intro st' hst'
      have hcolumns := h.hasColumns
      rw [hempty st' hst'] at hcolumns
      cases hcolumns
    exact ⟨fun st' hst' => absurd hst' (hraises st'), fun _ v hv => .inl (hquiet.states v hv),
      fun _ => ⟨hraises, rowsOn_elsewhere hquiet⟩⟩
  · obtain ⟨hstate, hmsgs, hnone⟩ := h.turn hbegun
    have hreturned : ∀ st', (doSync S config catalog st).2 = .ok st' →
        (plan.turn S config e begun).error = none := by
      intro st' hst'
      by_contra hne
      exact (hruns.failed hne).2 st' hst'
    refine ⟨fun st' hst' => (hstate (hreturned st' hst')).congr (hruns.state st' hst'),
      fun hauto v hv => ?_, fun hno => ?_⟩
    · rw [hruns.effects, List.mem_append, List.mem_append] at hv
      rcases hv with (hv | hv) | hv
      · exact .inl (hruns.quietBefore.states v hv)
      · exact hmsgs hauto v (message_mem_map.mp hv)
      · -- the turn has returned
        by_cases herr : (plan.turn S config e begun).error = none
        · exact .inr ((hstate herr).congr (hruns.quietAfter.states v hv))
        · rw [(hruns.failed herr).1] at hv
          cases hv
    · obtain ⟨herr, hpublished⟩ := hnone hno
      obtain ⟨hafter, hraises⟩ := hruns.failed herr
      refine ⟨hraises, ?_⟩
      have hres := (planSync_resolved h.planned).1 e h.scheduled
      have hturn : rowsOn e.tapStreamId
          ((plan.turn S config e begun).messages.map .message) = [] :=
        (rowsOn_turn fun m hm s hs => (plan.turn_message hres h.names hm).1 s hs).trans hpublished
      rw [hruns.effects, hafter, rowsOn_append, rowsOn_append, rowsOn_elsewhere hruns.quietBefore,
        hturn, rowsOn_nil]
      rfl

end Run

/-! ### A server with the transactions of another -/

namespace Sample

theorem plain_of_letter {s : String} {l : Char} (hs : s.toList = [l])
    (hl : l ≠ ',' ∧ l ≠ ':' ∧ Binlog.isBlank l = false) :
    ∀ c ∈ s.toList, c ≠ ',' ∧ c ≠ ':' ∧ Binlog.isBlank c = false := by
  rw [hs]
  intro c hc
  rw [List.mem_singleton.mp hc]
  exact hl

def ownSource : SourceSet :=
  ⟨"u", [(1, 5)], plain_of_letter rfl ⟨by decide, by decide, rfl⟩⟩

/-- The transactions of a server that was replicated from once, with a gap. -/
def formerSource : SourceSet :=
  ⟨"w", [(1, 2), (4, 4)], plain_of_letter rfl ⟨by decide, by decide, rfl⟩⟩

example : executedText [formerSource, ownSource] = "w:1-2:4,\nu:1-5" := by decide

def gtidServer : SyncSource :=
  { server [] with
    runs := fun _ =>
      { oneRowRun with
        master := { oneRowRun.master with gtidPos := .ok (.str "u:1-5") } } }

def gtidSettings : SyncConfig := { settings with useGtid := some (.bool true) }

theorem gtidSettings_mode : gtidSettings.gtidConfig = ⟨true, true⟩ := by
  have hlower : "mysql".toLower = "mysql" := by
    have hmap : "mysql".toLower.toList = "mysql".toList.map Char.toLower := String.toList_map
    exact String.toList_inj.mp (hmap.trans rfl)
  have hname : gtidSettings.engineName = "mysql" := hlower
  rw [SyncConfig.gtidConfig, hname]
  rfl

theorem gtidServer_returns :
    ∃ st', (doSync gtidServer gtidSettings [Binlog.Sample.entry] State.empty).2 = .ok st' := by
  have hplanned : planSync gtidServer gtidSettings [Binlog.Sample.entry] State.empty =
      .ok firstPlan := rfl
  have hselect : (firstPlan.select gtidServer gtidSettings State.empty).error = none := by
    rw [SyncPlan.select, gtidSettings_mode]
    rfl
  rcases doSync_cases gtidServer gtidSettings [Binlog.Sample.entry] State.empty with
    ⟨err, hfail, -⟩ | ⟨plan, hplan, ⟨err, herr, -⟩ | ⟨-, hrun⟩⟩
  · rw [hplanned] at hfail
    cases hfail
  · obtain rfl : firstPlan = plan := Except.ok.inj (hplanned.symm.trans hplan)
    rw [hselect] at herr
    cases herr
  · obtain rfl : firstPlan = plan := Except.ok.inj (hplanned.symm.trans hplan)
    rw [hrun]
    exact ⟨_, rfl⟩

theorem gtidServer_begins :
    BeginsAtGtid gtidServer gtidSettings [Binlog.Sample.entry] State.empty firstPlan
      { Binlog.Sample.entry with stream := "db-t" } [formerSource, ownSource] "u" where
  planned := rfl
  distinct := by decide
  once := by decide
  names := fun _ _ _ => rfl
  scheduled := List.mem_cons_self
  logBased := by decide
  hasColumns := rfl
  mode := gtidSettings_mode
  fresh := rfl
  uuids := by decide
  executed := rfl

end Sample

/-- Both servers have a transaction 4, and the gtid names that of the server itself. -/
theorem gtid_snapshot_names_executed_former :
    ∃ st', (doSync Sample.gtidServer Sample.gtidSettings [Binlog.Sample.entry]
        State.empty).2 = .ok st' ∧
      NamesExecuted { Binlog.Sample.entry with stream := "db-t" }
        [Sample.formerSource, Sample.ownSource] "u" st' ∧
      ("u", 4) ∈ executed [Sample.formerSource, Sample.ownSource] ∧
      ("w", 4) ∈ executed [Sample.formerSource, Sample.ownSource] := by
  obtain ⟨st', hst'⟩ := Sample.gtidServer_returns
  refine ⟨st', hst', (gtid_snapshot_names_executed Sample.gtidServer_begins).1 st' hst', ?_, ?_⟩
  · exact ⟨Sample.ownSource, by simp, rfl, (1, 5), by simp [Sample.ownSource], by decide⟩
  · exact ⟨Sample.formerSource, by simp, rfl, (4, 4), by simp [Sample.formerSource], by decide⟩

end TapMysql
