import TapMysql.Select.Handoff
import TapMysql.StreamTurn
import TapMysql.Target

/-!
# From an empty target to the end of the log

The first run that takes a table reads its rows while others commit, and stores the position at
which it began. What the target then holds may be of different moments, but under a key that no
change since that position wrote it shows the row of that position. So the runs that follow, which
read the log from there, bring the target to the table.
-/

namespace TapMysql

open Binlog (Effect SyncedTable TableLog Position)

/-! ### What a snapshot reads -/

section Reads

variable {κ : Type*} [LinearOrder κ] {db : Mysql κ} {log : CommitLog} {e : CatalogEntry}
  {config : Option BatchConfig} {cs : List SelectColumn} {run : StreamRun} {t : ReadTimes}
  {autoIncrement : String → Bool} {gtidConfig : GtidConfig} {st : State}

/-- The record of a row that the table held at some moment of the run. -/
def ReadIn (db : Mysql κ) (log : CommitLog) (e : CatalogEntry) (config : Option BatchConfig)
    (cs : List SelectColumn) (t : ReadTimes) (r : Record) : Prop :=
  ∃ n, t.start ≤ n ∧ n ≤ t.finish ∧ ∃ row ∈ log.table n, tableRecord db e config cs row = .ok r

/-- The run of a stream over its own columns. -/
def StreamRun.over (run : StreamRun) (e : CatalogEntry) : StreamRun :=
  { run with args := { run.args with columns := e.schema.keys } }

theorem RunsAt.renders (h : RunsAt db log e config run t)
    (hcs : selectColumns e.schema e.schema.keys = .ok cs) :
    run.Renders e (ReadIn db log e config cs t) := by
  intro n sql hsql row hrow r hr
  obtain ⟨hnames, got, rest, hanswer, hrows, -⟩ := h.select n sql
  rw [h.columns, hcs, Except.ok.injEq] at hsql
  rw [hrows] at hrow
  obtain ⟨x, hx, rfl⟩ := List.mem_map.mp hrow
  have hin : x ∈ log.table (t.select n) :=
    (List.mem_filter.mp (hanswer.perm.subset (List.mem_append_left _ hx))).1
  refine ⟨t.select n, (h.start_le n).trans (h.maximum_le n), h.select_le n, x, hin, ?_⟩
  rw [h.columns, h.config, hnames, ← hsql, selectColumns_names hcs] at hr
  rw [← hr, Mysql.project, ← hsql]
  rfl

/-- All rows of a turn were read from the table while it went on. -/
theorem RunsAt.rows (h : RunsAt db log e config (run.over e) t)
    (hcs : selectColumns e.schema e.schema.keys = .ok cs) {m : Message}
    (hm : m ∈ (syncStream e autoIncrement gtidConfig run st).messages) :
    ∀ r ∈ m.rows, ReadIn db log e config cs t r := by
  have hdata : ∀ mode version, DataOf e mode version (ReadIn db log e config cs t)
      fun m => ∀ r ∈ m.rows, ReadIn db log e config cs t r := by
    intro mode version
    refine ⟨fun r _ hr => ?_, fun _ _ rows hrows => hrows, by simp [Message.rows]⟩
    simpa [Message.rows] using hr
  obtain ⟨o, ho, hann⟩ : ∃ o, syncStream e autoIncrement gtidConfig run st =
      o.after [.state (st.setCurrentlySyncing (some e.tapStreamId))] ∧
      Announces e (fun _ => True) (fun m => ∀ r ∈ m.rows, ReadIn db log e config cs t r) o :=
    syncStream_announces autoIncrement gtidConfig (fun _ _ _ => ⟨fun _ => trivial, trivial⟩) hdata
      (by simp [Message.rows]) (h.renders hcs) trivial
  rw [ho] at hm
  cases hann with
  | failed hst err =>
    rw [Outcome.messages_after, Outcome.failed, List.append_nil, List.mem_singleton] at hm
    simp [hm, Message.rows]
  | announced keys hkeeps =>
    rw [Outcome.messages_after, Outcome.messages_after, List.mem_append, List.mem_append,
      List.mem_singleton, List.mem_singleton] at hm
    rcases hm with rfl | rfl | hm
    · simp [Message.rows]
    · simp [schemaMessage, Message.rows]
    · exact hkeeps.2 m hm

end Reads

/-! ### The commits behind the binlog -/

section Commits

variable {κ : Type*} [LinearOrder κ] {db : Mysql κ} {log : CommitLog} {T : SyncedTable}
  {H : TableLog T} {content : T.Content} {cells : T.Row → TableRow} {base : T.Target}
  {c p : Position} {e : CatalogEntry} {config : Option BatchConfig} {cs : List SelectColumn}
  {t : ReadTimes}

/-- Where the binlog ends after a commit. -/
def CommitLog.place (log : CommitLog) (n : ℕ) : Position :=
  toLex (log.logFile n, (log.logPos n).toNat)

/-- After each commit the table holds the rows that the changes up to the end of the binlog
leave. -/
structure Commits (H : TableLog T) (content : T.Content) (cells : T.Row → TableRow)
    (log : CommitLog) : Prop where
  nonneg : ∀ n, 0 ≤ log.logPos n
  inOrder : ∀ m n, m ≤ n → log.place m ≤ log.place n
  table : ∀ n row, row ∈ log.table n ↔
    ∃ v, (content.applyAll (H.upTo (log.place n))).Holds v ∧ cells v = row

/-- Changes up to `c` that a target can follow by their images: no key is left behind. -/
structure Followable (H : TableLog T) (content : T.Content) (c : Position) : Prop where
  legal : content.Legal (H.upTo c)
  apart : Keyed.Apart SyncedTable.Row.key (Binlog.keyOf T.keyColumns) SyncedTable.Row.record
    (content.Occurs (H.upTo c))
  kept : ∀ k, ¬ Keyed.LeftBehind SyncedTable.Row.key k (H.upTo c)

theorem upTo_take (H : TableLog T) (hp : p ≤ c) :
    (H.upTo c).take (H.upTo p).length = H.upTo p :=
  (List.prefix_iff_eq_take.mp (H.upTo_prefix hp)).symm

theorem images_take (H : TableLog T) (hp : p ≤ c) :
    (H.images c).take (H.upTo p).length = (H.upTo p).map (Edit.map SyncedTable.Row.record) := by
  rw [TableLog.images, ← List.map_take, upTo_take H hp]

theorem occurs_upTo (hp : p ≤ c) {v : T.Row} (hv : content.Occurs (H.upTo p) v) :
    content.Occurs (H.upTo c) v := by
  rcases hv with hv | ⟨e, he, hv⟩
  · exact .inl hv
  · exact .inr ⟨e, (H.upTo_prefix hp).subset he, hv⟩

theorem Followable.mirrors (h : Followable H content c)
    (hbase : SyncedTable.Reproduces content base) (hp : p ≤ c) :
    SyncedTable.Reproduces (content.applyAll (H.upTo p))
      (base.applyAll ((H.images c).take (H.upTo p).length)) := by
  rw [images_take H hp]
  exact Keyed.Mirrors.applyAll hbase h.apart fun _ hv => occurs_upTo hp hv

theorem Followable.legal_images (h : Followable H content c)
    (hbase : SyncedTable.Reproduces content base) : base.Legal (H.images c) :=
  Keyed.Legal.map hbase h.apart (fun _ hv => hv) h.legal

theorem Followable.kept_images (h : Followable H content c) (k : List Val) :
    ¬ Keyed.LeftBehind (Binlog.keyOf T.keyColumns) k (H.images c) := by
  have hrows : ∀ e ∈ H.upTo c, ∀ u ∈ e.rows, content.Occurs (H.upTo c) u :=
    fun e he u hu => .inr ⟨e, he, hu⟩
  intro hl
  obtain ⟨e', he', u', hu', rfl⟩ := hl.row
  obtain ⟨e, he, rfl⟩ := List.mem_map.mp he'
  rw [Edit.rows_map] at hu'
  obtain ⟨u, hu, rfl⟩ := List.mem_map.mp hu'
  exact h.kept u.key ((Keyed.leftBehind_map h.apart hrows (hrows e he u hu)).mp hl)

/-- A row that no later change writes stays from commit to commit. -/
theorem Commits.stays (hcommits : Commits H content cells log) (h : Followable H content c)
    {m n : ℕ} (hmn : m ≤ n) (hn : log.place n ≤ c) {v : T.Row}
    (hv : (content.applyAll (H.upTo (log.place m))).Holds v)
    (hne : ∀ e ∈ (H.upTo c).drop (H.upTo (log.place m)).length, e.image.key ≠ v.key) :
    (content.applyAll (H.upTo (log.place n))).Holds v := by
  have hle : log.place m ≤ log.place n := hcommits.inOrder m n hmn
  have hget := Keyed.get_applyAll_take content hne (h.kept v.key) (H.upTo_prefix hle).length_le
  rw [upTo_take H hn, upTo_take H (hle.trans hn)] at hget
  exact hget.trans hv

/-- A target that was loaded with rows that the table held while it was read, among them all rows
that stayed, only needs the changes from the start of the reading on. -/
theorem Commits.caughtUp (hcommits : Commits H content cells log) (h : Followable H content c)
    (hbase : SyncedTable.Reproduces content base) (hfinish : log.place t.finish ≤ c)
    (hstart : t.start ≤ t.finish)
    (hshown : ∀ v, content.Occurs (H.upTo c) v →
      tableRecord db e config cs (cells v) = .ok v.record)
    {rows : List Record} (hread : ∀ w ∈ rows, ReadIn db log e config cs t w)
    (hall : ∀ row, log.Kept t.start t.finish {row} → ∀ w, tableRecord db e config cs row = .ok w →
      w ∈ rows) :
    Keyed.CaughtUp base (H.images c) (H.upTo (log.place t.start)).length
      (Watermark.load (Keyed.empty : T.Target) rows) := by
  have hplace : ∀ n, n ≤ t.finish → log.place n ≤ c :=
    fun n hn => (hcommits.inOrder n _ hn).trans hfinish
  apply Keyed.caughtUp_load (h.legal_images hbase) h.kept_images
  · intro w hw
    obtain ⟨n, hsn, hnf, row, hrow, hrecord⟩ := hread w hw
    obtain ⟨v, hv, rfl⟩ := (hcommits.table n row).mp hrow
    have hoccurs := occurs_upTo (hplace n hnf) (Keyed.occurs_of_holds_applyAll hv)
    rw [hshown v hoccurs, Except.ok.injEq] at hrecord
    refine ⟨(H.upTo (log.place n)).length, ?_, ?_⟩
    · exact (H.upTo_prefix (hcommits.inOrder _ _ hsn)).length_le
    · exact (h.mirrors hbase (hplace n hnf) w).mpr ⟨v, hv, hrecord⟩
  · intro w hw hne
    obtain ⟨v, hv, rfl⟩ := (h.mirrors hbase (hplace _ hstart) w).mp hw
    have hoccurs := occurs_upTo (hplace _ hstart) (Keyed.occurs_of_holds_applyAll hv)
    have hrow : ∀ e ∈ (H.upTo c).drop (H.upTo (log.place t.start)).length,
        e.image.key ≠ v.key := by
      intro e he hkey
      have hin := List.mem_of_mem_drop he
      refine hne (e.map SyncedTable.Row.record) ?_ ?_
      · rw [TableLog.images, ← List.map_drop]
        exact List.mem_map_of_mem he
      · rw [Edit.image_map]
        exact (h.apart _ _ (.inr ⟨e, hin, e.image_mem_rows⟩) hoccurs).mpr hkey
    refine hall (cells v) (fun n hsn hnf => ?_) _ (hshown v hoccurs)
    rw [Multiset.singleton_le, Multiset.mem_coe, hcommits.table]
    exact ⟨v, hcommits.stays h hsn (hplace n hnf) hv hrow, rfl⟩

end Commits

/-! ### The first run -/

section FirstRun

variable {κ : Type*} [LinearOrder κ] {db : Mysql κ} {log : CommitLog} {T : SyncedTable}
  {H : TableLog T} {content : T.Content} {cells : T.Row → TableRow} {base : T.Target}
  {c : Position} {e : CatalogEntry} {cs : List SelectColumn} {t : ReadTimes} {S : SyncSource}
  {config : SyncConfig} {catalog : List CatalogEntry} {st st' v : State} {plan : SyncPlan}
  {pre : List Effect}

/-- The run has the stream in its SELECT phase, for the first time: its bookmark is empty. The
table has an integer key that auto-increments, and no fetch that was cut off left a row in a batch
writer, or the key does not auto-increment. -/
structure TakesSnapshot (db : Mysql κ) (log : CommitLog) (S : SyncSource) (config : SyncConfig)
    (catalog : List CatalogEntry) (st : State) (plan : SyncPlan) (e : CatalogEntry)
    (cs : List SelectColumn) (t : ReadTimes) : Prop where
  planned : planSync S config catalog st = .ok plan
  distinct : (idsOf catalog).Nodup
  once : (idsOf plan.nonBinlog).Nodup
  names : S.NamesColumns
  scheduled : e ∈ plan.nonBinlog
  logBased : e.replicationMethod = .logBased
  fresh : st.bookmarks.get? e.tapStreamId = none
  columns : selectColumns e.schema e.schema.keys = .ok cs
  reads : RunsAt db log e (plan.settings.map BatchSettings.config)
    ((S.runOf plan.settings e).over e) t
  keys : FullTable.pksAreAutoIncrementing (S.autoIncrement e) e = false ∨
    ∃ k, (∀ n, IntegerKeyed e k (log.table n)) ∧ S.autoIncrement e k = true ∧
      ∀ x ∈ (plan.select S config st).executed, x.2.error.isSome →
        heldBack (plan.settings.map BatchSettings.config) x.2.chunks = []

/-- The turn of a LOG_BASED stream is a snapshot. -/
theorem SyncPlan.turn_eq (plan : SyncPlan) (S : SyncSource) (config : SyncConfig)
    (hm : e.replicationMethod = .logBased) (st : State) :
    plan.turn S config e st = (doSyncHistoricalBinlog e (S.autoIncrement e) config.gtidConfig
      ((S.runOf plan.settings e).over e) (st.setCurrentlySyncing (some e.tapStreamId))).after
        [.state (st.setCurrentlySyncing (some e.tapStreamId))] := by
  simp only [SyncPlan.turn, syncStream, hm]
  rfl

/-- A snapshot that returns leaves the position that it read, and has published the rows that
stayed while it went on. -/
theorem TakesSnapshot.returned (h : TakesSnapshot db log S config catalog st plan e cs t)
    (hfresh : st'.bookmarks.get? e.tapStreamId = none)
    (hexecuted : (plan.turn S config e st').executed ⊆ (plan.select S config st).executed)
    (hret : (plan.turn S config e st').error = none) :
    storedPosition e (plan.turn S config e st').state = log.position t.start ∧
      ∀ row, log.Kept t.start t.finish {row} → ∀ w,
        tableRecord db e (plan.settings.map BatchSettings.config) cs row = .ok w →
          w ∈ published (plan.turn S config e st').messages := by
  have hnull : ∀ key, (st'.setCurrentlySyncing (some e.tapStreamId)).getBookmark e.tapStreamId
      key = .null := State.getBookmark_of_none hfresh
  have hturn := plan.turn_eq S config h.logBased st'
  rw [hturn] at hexecuted hret ⊢
  set begun := st'.setCurrentlySyncing (some e.tapStreamId) with hbegun
  set run := (S.runOf plan.settings e).over e with hrun
  have hposition : storedPosition e (doSyncHistoricalBinlog e (S.autoIncrement e)
      config.gtidConfig run begun).state = log.position t.start := by
    rcases returned_position h.logBased hret with ⟨hresume, -⟩ | ⟨-, position, hread, hstored⟩
    · simp [resumesSnapshot, hnull, Val.truthy] at hresume
    · rw [hstored, h.reads.position position hread]
  have hhanded : HandedOver db log e (plan.settings.map BatchSettings.config) cs
      (doSyncHistoricalBinlog e (S.autoIncrement e) config.gtidConfig run begun).state t.finish
      ([] ++ (doSyncHistoricalBinlog e (S.autoIncrement e) config.gtidConfig run
        begun).messages) := by
    rcases h.keys with hauto | ⟨k, hk, hauto, hheld⟩
    · refine h.reads.handedOver hauto h.logBased h.columns (fun i hi => ?_) hret []
      rw [storedPosition, hnull, hnull, CommitLog.position, Prod.mk.injEq] at hi
      cases hi.1
    · have hwindow : WithoutWindow e begun := by simp [WithoutWindow, hnull, Val.truthy]
      exact Stands.handedOver hk h.logBased hauto h.columns (Or.inl hwindow) le_rfl h.reads hret
        fun x hx => hheld x (hexecuted hx)
  refine ⟨hposition, fun row hkept w hw => ?_⟩
  have hle := hhanded t.start {row} hposition hkept
  rw [FullTable.keptRecords, Multiset.map_singleton, hw, Multiset.singleton_le, List.nil_append,
    publishedRecords, Multiset.mem_map] at hle
  obtain ⟨w', hw', heq⟩ := hle
  rw [Except.ok.injEq] at heq
  rw [Outcome.messages_after, published_append]
  exact List.mem_append_right _ (heq ▸ Multiset.mem_coe.mp hw')

/-- After the snapshot, the target needs the changes from the stored position on. -/
theorem TakesSnapshot.caught (h : TakesSnapshot db log S config catalog st plan e cs t)
    (hid : e.tapStreamId = T.streamId) (hcommits : Commits H content cells log)
    (hfollow : Followable H content c) (hbase : SyncedTable.Reproduces content base)
    (hshown : ∀ v, content.Occurs (H.upTo c) v →
      tableRecord db e (plan.settings.map BatchSettings.config) cs (cells v) = .ok v.record)
    (hfinish : log.place t.finish ≤ c) (hpre : pre <+: (doSync S config catalog st).1)
    (hv : .message (.state v) ∈ pre) (hother : v.currentlySyncing ≠ some T.streamId)
    (hon : OnBinlog T.streamId v) :
    Binlog.Caught H c base [T.streamId] v (receive T.streamId Keyed.empty pre) := by
  rw [← hid] at hother hon
  have hchanged : v.bookmarks.get? e.tapStreamId ≠ st.bookmarks.get? e.tapStreamId := by
    intro hsame
    rw [h.fresh] at hsame
    have hposition := hon.position
    simp [State.getBookmark_of_none hsame, Val.truthy] at hposition
  obtain ⟨st', hst', ⟨⟨before, after, rfl, hbefore, hafter⟩, hret, hbookmark⟩, hexecuted⟩ :=
    doSync_passedTurn h.planned h.distinct h.once h.names h.scheduled hpre hv hother hchanged
  obtain ⟨hposition, hall⟩ := h.returned (hst'.trans h.fresh) hexecuted hret
  have hturn : ∀ m ∈ (plan.turn S config e st').messages, ∀ s, m.dataOf? = some s →
      s = e.tapStreamId := fun m hm =>
    (SyncPlan.turn_message ((planSync_resolved h.planned).1 e h.scheduled) h.names hm).1
  have hread : ∀ w ∈ published (plan.turn S config e st').messages,
      ReadIn db log e (plan.settings.map BatchSettings.config) cs t w := by
    intro w hw
    obtain ⟨m, hm, hw⟩ := List.mem_flatMap.mp hw
    exact h.reads.rows h.columns hm w hw
  have hrows : rowsOn T.streamId (before ++ (plan.turn S config e st').messages.map .message ++
      after) = published (plan.turn S config e st').messages := by
    rw [hid] at hbefore hafter
    rw [rowsOn_append, rowsOn_append, rowsOn_elsewhere hbefore, rowsOn_elsewhere hafter,
      rowsOn_turn fun m hm s hs => (hturn m hm s hs).trans hid, List.nil_append, List.append_nil]
  have hreceived : receive T.streamId (Keyed.empty : T.Target) (before ++
      (plan.turn S config e st').messages.map .message ++ after) =
      Watermark.load Keyed.empty (published (plan.turn S config e st').messages) := by
    rw [receive_eq, hrows]
    intro w hw
    rw [hrows] at hw
    obtain ⟨n, -, hn, row, hrow, hrecord⟩ := hread w hw
    obtain ⟨u, hu, rfl⟩ := (hcommits.table n row).mp hrow
    have hplace : log.place n ≤ c := (hcommits.inOrder n _ hn).trans hfinish
    rw [hshown u (occurs_upTo hplace (Keyed.occurs_of_holds_applyAll hu)),
      Except.ok.injEq] at hrecord
    exact hrecord ▸ u.contains_marker
  rw [hreceived]
  refine ⟨_, hcommits.caughtUp hfollow hbase hfinish h.reads.start_le_finish hshown hread hall,
    T.streamId, List.mem_singleton_self _, log.place t.start, ?_, le_rfl⟩
  have hkept := Prod.mk.inj hposition
  rw [Binlog.storedPosition_eq_some, ← hid, State.getBookmark_congr hbookmark,
    State.getBookmark_congr hbookmark, hkept.1, hkept.2]
  refine ⟨rfl, ?_⟩
  show Val.int (log.logPos t.start) = .int ((log.logPos t.start).toNat : ℤ)
  rw [Int.toNat_of_nonneg (hcommits.nonneg t.start)]

/-- A table from an empty target on: the first run reads it while others commit, and is stopped
anywhere after the snapshot; the next runs read the log from its STATE on, and are stopped
anywhere, too. The target of a run that returns then shows the table as of the end of the log that
this run captured. -/
theorem first_sync_converges {S' : SyncSource} {config' : SyncConfig}
    {catalog' : List CatalogEntry} {st'' : State} {plan' : SyncPlan} {ids : List String}
    {target : T.Target} (h : TakesSnapshot db log S config catalog st plan e cs t)
    (hid : e.tapStreamId = T.streamId) (hcommits : Commits H content cells log)
    (hfollow : Followable H content c)
    (hshown : ∀ v, content.Occurs (H.upTo c) v →
      tableRecord db e (plan.settings.map BatchSettings.config) cs (cells v) = .ok v.record)
    (hfinish : log.place t.finish ≤ c) (hpre : pre <+: (doSync S config catalog st).1)
    (hv : .message (.state v) ∈ pre) (hother : v.currentlySyncing ≠ some T.streamId)
    (hon : OnBinlog T.streamId v)
    (hfed : Binlog.Fed H c v (receive T.streamId Keyed.empty pre) ids st' target)
    (htakes : Binlog.TakesTable H S' config' catalog' st' plan') (hids : ids ⊆ idsOf plan'.binlog)
    (hc : S'.binlog.fetchCurrentLogFileAndPos = .ok (ofLex c))
    (hret : (doSync S' config' catalog' st').2 = .ok st'') :
    SyncedTable.Reproduces (content.applyAll (H.upTo c))
      (T.read target (doSync S' config' catalog' st').1) := by
  obtain ⟨base, hbase⟩ := Keyed.exists_mirrors fun u w hu hw =>
    hfollow.apart u w (.inl hu) (.inl hw)
  have hcaught := h.caught hid hcommits hfollow hbase hshown hfinish hpre hv hother hon
  rw [(hfed.caught hcaught).complete htakes hids hc hret]
  exact (Keyed.mirrors_writeAll_iff hbase hfollow.legal hfollow.apart).mpr hfollow.kept

end FirstRun

/-! ### Rows that come twice -/

namespace Sample

/-- The table after each commit of the log; the position 4 is before the first of them. -/
def changesLog : CommitLog where
  table
    | 0 => []
    | 1 => [3, 1].map row
    | 2 => [2, 3].map row
    | _ => [1, 2, 3].map row
  logFile _ := "bin.1"
  logPos n := 4 + 150 * n
  logFile_ne := by simp
  logPos_ne := by
    intro n
    omega
  position_inj := by
    intro m n _ h
    omega

/-- The position is taken before the first commit, and the table is read after the second. -/
def changesTimes : ReadTimes := ⟨0, fun _ => 2, fun _ => 2, 2⟩

def changesServer : SyncSource :=
  { Binlog.Sample.tableServer 500 with
    runs := fun _ =>
      { server := serverOf (changesLog.table 2) fun _ => none
        master := ⟨.ok (), .ok (), .ok (changesLog.position 0), .ok .null⟩
        args := ⟨[], .null, "2024-01-01T00:00:00Z", none⟩
        now := 9 } }

def changesRun : List Effect × Except Err State :=
  doSync changesServer settings [Binlog.Sample.entry] State.empty

/-- The STATE at the end of the run. -/
def changesState : State :=
  ((State.empty.writeBookmark "db-t" "version" (.int 9)).writeBookmark "db-t" "log_file"
    (.str "bin.1")).writeBookmark "db-t" "log_pos" (.int 4)

theorem changesServer_takesSnapshot :
    TakesSnapshot intServer changesLog changesServer settings [Binlog.Sample.entry] State.empty
      firstPlan { Binlog.Sample.entry with stream := "db-t" } [.plain "id"] changesTimes where
  planned := rfl
  distinct := by decide
  once := by decide
  names := fun _ _ _ => rfl
  scheduled := List.mem_cons_self
  logBased := by decide
  fresh := rfl
  columns := rfl
  reads :=
    { columns := rfl
      config := rfl
      position := by
        rintro p ⟨⟩
        rfl
      start_le := fun _ => Nat.zero_le _
      maximum_le := fun _ => le_rfl
      select_le := fun _ => le_rfl
      maxPk := by
        rintro n result ⟨⟩
        exact intServer.maxPk_spec (changesLog.table 2) ["id"]
      select := fun n sql => intServer.deliver_spec (changesLog.table 2) none sql }
  keys := .inl rfl

theorem changesLog_inOrder {m n : ℕ} (h : m ≤ n) : changesLog.place m ≤ changesLog.place n := by
  refine Prod.Lex.le_iff.mpr (.inr ⟨rfl, ?_⟩)
  simp only [CommitLog.place, changesLog, ofLex_toLex]
  omega

/-- The last commit of the log is the third. -/
theorem upTo_changesLog (n : ℕ) : Binlog.Sample.tableLog.upTo (changesLog.place (n + 3)) =
    Binlog.Sample.tableLog.upTo (Binlog.Sample.endAt 500) := by
  have hall : ∀ e ∈ Binlog.Sample.tableLog.log, e.readerPosition ≤ changesLog.place (n + 3) := by
    intro e he
    have hthird : e.readerPosition ≤ changesLog.place 3 := by
      revert e
      decide
    exact hthird.trans (changesLog_inOrder (by omega))
  have hlog : (Binlog.Sample.tableLog.log.filter fun e =>
      decide (e.readerPosition ≤ changesLog.place (n + 3))) = Binlog.Sample.tableLog.log :=
    List.filter_eq_self.mpr fun e he => decide_eq_true (hall e he)
  rw [TableLog.upTo, hlog]
  rfl

/-- The content is these rows. -/
def HoldsRows (content : Binlog.Sample.table.Content) (ids : List ℤ) : Prop :=
  ∀ v, content.Holds v ↔ ∃ m ∈ ids, v = Binlog.Sample.row m

theorem row_key_eq {m n : ℤ} :
    (Binlog.Sample.row m).key = (Binlog.Sample.row n).key ↔ m = n := by
  constructor
  · intro h
    have hkeys : [Val.int m] = [Val.int n] := h
    simpa using hkeys
  · rintro rfl
    rfl

theorem HoldsRows.put {content : Binlog.Sample.table.Content} {ids : List ℤ}
    (h : HoldsRows content ids) (n : ℤ) :
    HoldsRows (content.put (Binlog.Sample.row n)) (n :: ids) := by
  intro v
  rw [Keyed.holds_put, h v]
  constructor
  · rintro (rfl | ⟨⟨m, hm, rfl⟩, -⟩)
    · exact ⟨n, List.mem_cons_self, rfl⟩
    · exact ⟨m, List.mem_cons_of_mem n hm, rfl⟩
  · rintro ⟨m, hm, rfl⟩
    by_cases hmn : m = n
    · exact .inl (congrArg _ hmn)
    · exact .inr ⟨⟨m, (List.mem_cons.mp hm).resolve_left hmn, rfl⟩, row_key_eq.not.mpr hmn⟩

theorem HoldsRows.remove {content : Binlog.Sample.table.Content} {ids : List ℤ}
    (h : HoldsRows content ids) (n : ℤ) :
    HoldsRows (content.remove (Binlog.Sample.row n)) (ids.filter (· ≠ n)) := by
  intro v
  rw [Keyed.holds_remove, h v]
  constructor
  · rintro ⟨⟨m, hm, rfl⟩, hne⟩
    exact ⟨m, List.mem_filter.mpr ⟨hm, decide_eq_true (row_key_eq.not.mp hne)⟩, rfl⟩
  · rintro ⟨m, hm, rfl⟩
    obtain ⟨hm, hne⟩ := List.mem_filter.mp hm
    exact ⟨⟨m, hm, rfl⟩, row_key_eq.not.mpr (of_decide_eq_true hne)⟩

theorem HoldsRows.mem_iff {content : Binlog.Sample.table.Content} {ids : List ℤ}
    (h : HoldsRows content ids) (r : TableRow) :
    r ∈ ids.map row ↔ ∃ v, content.Holds v ∧ v.values = r := by
  rw [List.mem_map]
  constructor
  · rintro ⟨m, hm, rfl⟩
    exact ⟨Binlog.Sample.row m, (h _).mpr ⟨m, hm, rfl⟩, rfl⟩
  · rintro ⟨v, hv, rfl⟩
    obtain ⟨m, hm, rfl⟩ := (h v).mp hv
    exact ⟨m, hm, rfl⟩

theorem holdsRows_empty : HoldsRows Keyed.empty [] :=
  fun v => iff_of_false (Keyed.not_holds_empty v) (by simp)

theorem changesLog_commits :
    Commits Binlog.Sample.tableLog Keyed.empty SyncedTable.Row.values changesLog where
  nonneg n := by
    simp only [changesLog]
    omega
  inOrder _ _ := changesLog_inOrder
  table n := by
    have hfirst := (holdsRows_empty.put 1).put 3
    have hsecond := (hfirst.remove 1).put 2
    match n with
    | 0 => exact holdsRows_empty.mem_iff
    | 1 => exact hfirst.mem_iff
    | 2 => exact hsecond.mem_iff
    | n + 3 =>
      intro r
      rw [upTo_changesLog]
      exact (hsecond.put 1).mem_iff r

theorem upTo_followable :
    Followable Binlog.Sample.tableLog Keyed.empty (Binlog.Sample.endAt 500) where
  legal := Binlog.Sample.upTo_legal (.inr rfl)
  apart := Binlog.Sample.upTo_apart (.inr rfl)
  kept := Binlog.Sample.upTo_kept

theorem changesState_takesTable {n : ℕ} (hn : n = 300 ∨ n = 500) :
    Binlog.TakesTable Binlog.Sample.tableLog (Binlog.Sample.tableServer n) settings
      [Binlog.Sample.entry] changesState Binlog.Sample.tablePlan :=
  Binlog.Sample.tableServer_takesTable hn rfl (by decide)

/-- A run over the binlog, which captures its end at the position `n`. -/
def followRun (n : ℕ) : List Effect × Except Err State :=
  doSync (Binlog.Sample.tableServer n) settings [Binlog.Sample.entry] changesState

/-- The second run is stopped when the target has read the record of the update. -/
theorem changesState_fed :
    Binlog.Fed Binlog.Sample.tableLog (Binlog.Sample.endAt 500) changesState
      (receive "db-t" (Keyed.empty : Binlog.Sample.table.Target) changesRun.1)
      (idsOf Binlog.Sample.tablePlan.binlog) changesState
      (Binlog.Sample.table.read (receive "db-t" Keyed.empty changesRun.1)
        ((followRun 300).1.take 5)) := by
  refine .stopped .start (changesState_takesTable (.inl rfl)) (by decide) ?_ (List.take_prefix 5 _)
    (.inl rfl)
  rintro f m ⟨⟩
  decide

end Sample

/-- The rows 2 and 3 come with the snapshot, and again from the binlog, twice. -/
theorem first_sync_converges_raced :
    ∃ st, (Sample.followRun 500).2 = .ok st ∧
      SyncedTable.Reproduces ((Keyed.empty : Binlog.Sample.table.Content).applyAll
          (Binlog.Sample.tableLog.upTo (Binlog.Sample.endAt 500)))
        (Binlog.Sample.table.read (Binlog.Sample.table.read
          (receive "db-t" Keyed.empty Sample.changesRun.1) ((Sample.followRun 300).1.take 5))
            (Sample.followRun 500).1) := by
  have hshown : ∀ v, (Keyed.empty : Binlog.Sample.table.Content).Occurs
      (Binlog.Sample.tableLog.upTo (Binlog.Sample.endAt 500)) v →
      tableRecord intServer { Binlog.Sample.entry with stream := "db-t" } none [.plain "id"]
        v.values = .ok v.record := by
    intro v hv
    obtain ⟨m, rfl⟩ := Binlog.Sample.upTo_occurs (.inr rfl) hv
    rfl
  have hstate : Effect.message (.state Sample.changesState) ∈ Sample.changesRun.1 := by
    decide
  exact ⟨_, rfl, first_sync_converges Sample.changesServer_takesSnapshot rfl
    Sample.changesLog_commits Sample.upTo_followable hshown (by decide) List.prefix_rfl hstate
    (by decide) ⟨by decide, by decide, by decide⟩ Sample.changesState_fed
    (Sample.changesState_takesTable (.inr rfl)) (by decide) rfl rfl⟩

end TapMysql
