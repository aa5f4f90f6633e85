import TapMysql.FirstSync
import TapMysql.Lib.Generations
import TapMysql.Select.Version

/-!
# A table that is replaced as a whole

A FULL_TABLE run writes the rows under a version of its own, and activates the version at the end.
A target that drops the rows of other versions then shows what the run read: the rows that stayed
while it read, and no row that was not there meanwhile, whatever the target showed before.
-/

namespace TapMysql

open Binlog (Effect)
open Generations (Write)

/-! ### Targets that know versions -/

/-- What an effect says about the versions of the rows of the stream. A BATCH names no version. -/
def Binlog.Effect.versioned? (s : String) : Effect → Option (Write Val Record)
  | .message (.record t row version _) => if t = s then some (.row version row) else none
  | .message (.activateVersion t version) => if t = s then some (.activate version) else none
  | _ => none

abbrev VersionedTarget (names : List String) : Type := Generations.Store Val (Binlog.keyOf names)

/-- What a target makes of the messages for the stream. -/
def receiveVersions {names : List String} (s : String) (target : VersionedTarget names)
    (out : List Effect) : VersionedTarget names :=
  Generations.run target (out.filterMap (Effect.versioned? s))

/-- A message of the stream with this version; it is not a BATCH. -/
structure VersionedMessage (s : String) (version : Val) (m : Message) : Prop where
  data : ∀ t, m.dataOf? = some t → t = s
  write : ∀ w, (Effect.message m).versioned? s = some w → w.IsOf version
  plain : ∀ t format rows, m ≠ .batch t format rows

section Versions

variable {s : String} {version : Val} {ms : List Message} {b : Option Bookmark}
  {out : List Effect}

theorem versioned_elsewhere (h : Elsewhere s b out) :
    out.filterMap (Effect.versioned? s) = [] := by
  rw [List.filterMap_eq_nil_iff]
  intro x hx
  cases x with
  | autoPosition g => rfl
  | message m =>
    have hdata := h.data m hx
    cases m with
    | record t row version time => exact if_neg fun ht => hdata (congrArg some ht)
    | activateVersion t version => exact if_neg fun ht => hdata (congrArg some ht)
    | _ => rfl

theorem versioned_isOf (h : ∀ m ∈ ms, VersionedMessage s version m) :
    ∀ w ∈ (ms.map Effect.message).filterMap (Effect.versioned? s), w.IsOf version := by
  intro w hw
  obtain ⟨x, hx, hw⟩ := List.mem_filterMap.mp hw
  obtain ⟨m, hm, rfl⟩ := List.mem_map.mp hx
  exact (h m hm).write w hw

theorem versioned_rows (h : ∀ m ∈ ms, VersionedMessage s version m) :
    ((ms.map Effect.message).filterMap (Effect.versioned? s)).filterMap Write.row? =
      published ms := by
  induction ms with
  | nil => rfl
  | cons m ms ih =>
    obtain ⟨hm, hms⟩ := List.forall_mem_cons.mp h
    have hone : (([m].map Effect.message).filterMap (Effect.versioned? s)).filterMap Write.row? =
        m.rows := by
      cases m with
      | record t row version time =>
        obtain rfl : t = s := hm.data t rfl
        simp [Effect.versioned?, Write.row?, Message.rows]
      | activateVersion t version =>
        obtain rfl : t = s := hm.data t rfl
        simp [Effect.versioned?, Write.row?, Message.rows]
      | batch t format rows => exact absurd rfl (hm.plain t format rows)
      | _ => rfl
    rw [← List.singleton_append, List.map_append, List.filterMap_append, List.filterMap_append,
      hone, ih hms, published_append]
    congr 1
    exact (List.flatMap_singleton Message.rows m).symm

end Versions

/-! ### The turn of the stream -/

section Turn

variable {e : CatalogEntry} {run : StreamRun} {st : State} {autoIncrement : String → Bool}
  {gtidConfig : GtidConfig}

theorem FullTable.syncTable_cleared {server : Nat → Attempt} {args : SyncArgs}
    (h : (FullTable.syncTable e autoIncrement server args st).error = none) :
    ∃ st', (FullTable.syncTable e autoIncrement server args st).state =
      FullTable.clearPass e st' := by
  unfold FullTable.syncTable at h ⊢
  dsimp only at h ⊢
  split at h
  · cases h
  · exact ⟨_, rfl⟩

/-- A turn that returns ends with the activation of its version, and its bookmark holds nothing of
the pass. -/
theorem fullTurn_closes (hm : e.replicationMethod = .fullTable) (he : e.stream = e.tapStreamId)
    (hconfig : run.args.config = none)
    (hret : (syncStream e autoIncrement gtidConfig run st).error = none) :
    (∃ before v, (syncStream e autoIncrement gtidConfig run st).messages = before ++
        [.activateVersion e.tapStreamId (getStreamVersion e.tapStreamId st run.now), .state v] ∧
      ∀ m ∈ before, VersionedMessage e.tapStreamId
        (getStreamVersion e.tapStreamId st run.now) m) ∧
    ∀ key ∈ ["version", "max_pk_values", "last_pk_fetched"],
      (syncStream e autoIncrement gtidConfig run st).state.getBookmark e.tapStreamId key =
        .null := by
  set version := getStreamVersion e.tapStreamId st run.now
  simp only [syncStream, hm, doSyncFullTable, Outcome.error_after, Outcome.error_thenState]
    at hret ⊢
  set begun := st.setCurrentlySyncing (some e.tapStreamId)
  set run' : StreamRun := { run with args := { run.args with columns := e.schema.keys } }
  obtain ⟨ms, hms⟩ := syncTable_closes hret
  obtain ⟨st', hst'⟩ := FullTable.syncTable_cleared hret
  have hdata : DataOf e (versionedArgs e run' begun).config version (fun _ => True)
      (VersionedMessage e.tapStreamId version) := by
    refine ⟨fun r time _ => ⟨?_, ?_, by simp⟩, fun hne => absurd hconfig hne, ⟨?_, ?_, by simp⟩⟩
    · rintro t ⟨⟩
      exact he
    · rw [Effect.versioned?, if_pos he]
      rintro w ⟨⟩
      rfl
    · rintro t ⟨⟩
      exact he
    · rw [Effect.versioned?, if_pos he]
      rintro w ⟨⟩
      rfl
  have hsilent : ∀ m : Message, (∀ t, m.dataOf? ≠ some t) →
      VersionedMessage e.tapStreamId version m := by
    intro m hno
    refine ⟨fun t ht => absurd ht (hno t), fun w hw => ?_, ?_⟩
    · cases m with
      | record t row version time => exact absurd rfl (hno t)
      | activateVersion t version => exact absurd rfl (hno t)
      | _ => cases hw
    · rintro t format rows rfl
      exact hno t rfl
  have hkeeps : (FullTable.syncTable e autoIncrement run'.server (versionedArgs e run' begun)
      begun).Keeps (fun _ => True) (VersionedMessage e.tapStreamId version) :=
    FullTable.syncTable_keeps (fun _ _ _ _ => ⟨fun _ => trivial, trivial⟩) hdata
      (fun v _ => hsilent _ (by simp [Message.dataOf?])) trivial autoIncrement
      fun _ _ _ _ _ _ _ => trivial
  refine ⟨⟨[.state begun] ++ ([schemaMessage e []] ++ ms),
    completeFullTable e (FullTable.clearPass e st'), ?_, ?_⟩, ?_⟩
  · rw [Outcome.messages_after, Outcome.messages_after, Outcome.messages_thenState hret, hms, hst',
      he]
    simp only [List.append_assoc]
    rfl
  · intro m hm
    rcases List.mem_append.mp hm with hm | hm
    · rw [List.mem_singleton.mp hm]
      exact hsilent _ (by simp [Message.dataOf?])
    · rcases List.mem_append.mp hm with hm | hm
      · rw [List.mem_singleton.mp hm]
        exact hsilent _ (by simp [schemaMessage, Message.dataOf?])
      · exact hkeeps.2 m (hms ▸ List.mem_append_left _ hm)
  · intro key hkey
    simp only [Outcome.after, Outcome.thenState, hret, hst', completeFullTable,
      FullTable.clearPass, State.getBookmark_writeBookmark, State.getBookmark_clearBookmark]
    simp only [List.mem_cons, List.not_mem_nil, or_false] at hkey
    rcases hkey with rfl | rfl | rfl <;> simp

end Turn

/-! ### The run -/

section Refresh

variable {κ : Type*} [LinearOrder κ] {db : Mysql κ} {log : CommitLog} {S : SyncSource}
  {config : SyncConfig} {catalog : List CatalogEntry} {st st' : State} {plan : SyncPlan}
  {e : CatalogEntry} {cs : List SelectColumn} {t : ReadTimes} {names : List String}

/-- The run has the FULL_TABLE stream in its SELECT phase, and writes RECORDs. Over an integer key
that auto-increments it begins a pass: none is under way in its bookmark. -/
structure TakesRefresh (db : Mysql κ) (log : CommitLog) (S : SyncSource) (config : SyncConfig)
    (catalog : List CatalogEntry) (st : State) (plan : SyncPlan) (e : CatalogEntry)
    (cs : List SelectColumn) (t : ReadTimes) : Prop where
  planned : planSync S config catalog st = .ok plan
  distinct : (idsOf catalog).Nodup
  once : (idsOf plan.nonBinlog).Nodup
  names : S.NamesColumns
  scheduled : e ∈ plan.nonBinlog
  fullTable : e.replicationMethod = .fullTable
  recordMode : plan.settings = none
  columns : selectColumns e.schema e.schema.keys = .ok cs
  hasColumns : e.schema.keys.isEmpty = false
  reads : RunsAt db log e none ((S.runOf plan.settings e).over e) t
  keys : FullTable.pksAreAutoIncrementing (S.autoIncrement e) e = false ∨
    ∃ k, (∀ n, IntegerKeyed e k (log.table n)) ∧ S.autoIncrement e k = true ∧ WithoutWindow e st

theorem heldBack_none {ρ : Type*} (chunks : List (List ρ)) : heldBack none chunks = [] := by
  have happend := announcedRows_append_heldBack none chunks
  rw [announcedRows_none] at happend
  simpa using happend

/-- At the beginning of a pass all rows are still asked for. -/
theorem WithoutWindow.covered {k : String} (h : WithoutWindow e st)
    (hk : ∀ n, IntegerKeyed e k (log.table n))
    (hcs : selectColumns e.schema e.schema.keys = .ok cs) {rows : Multiset TableRow} {n : ℕ}
    (hrows : rows ≤ ↑(log.table n)) (mode : Option BatchConfig) :
    FullTable.Covered db e k mode cs rows st 0 := by
  obtain ⟨hmax, hlast⟩ := h
  refine ⟨⊥, ⟨by simp [FullTable.pkFloor, hlast], fun htrue => ?_⟩, ?_⟩
  · rw [hmax] at htrue
    cases htrue
  · rw [keptRecords_above_bot hk hcs hrows, zero_add]

/-- A turn that returns has published the rows that stayed while it went on. -/
theorem TakesRefresh.publishes (h : TakesRefresh db log S config catalog st plan e cs t)
    {begun : State} (hbegun : begun.bookmarks.get? e.tapStreamId = st.bookmarks.get? e.tapStreamId)
    (hret : (plan.turn S config e begun).error = none) {row : TableRow}
    (hkept : log.Kept t.start t.finish {row}) {w : Record}
    (hw : tableRecord db e none cs row = .ok w) :
    w ∈ published (plan.turn S config e begun).messages := by
  have hturn : plan.turn S config e begun = (doSyncFullTable e (S.autoIncrement e)
      ((S.runOf plan.settings e).over e) (begun.setCurrentlySyncing (some e.tapStreamId))).after
        [.state (begun.setCurrentlySyncing (some e.tapStreamId))] := by
    simp only [SyncPlan.turn, syncStream, h.fullTable]
    rfl
  rw [hturn] at hret ⊢
  set run := (S.runOf plan.settings e).over e
  set st₀ := begun.setCurrentlySyncing (some e.tapStreamId)
  set args := versionedArgs e run st₀
  simp only [doSyncFullTable, Outcome.error_after, Outcome.error_thenState] at hret
  have hargs : args.columns = e.schema.keys := h.reads.columns
  have hconfig : args.config = none := h.reads.config
  have hle : FullTable.keptRecords db e args.config cs {row} ≤
      publishedRecords (FullTable.syncTable e (S.autoIncrement e) run.server args
        st₀).messages := by
    rcases h.keys with hauto | ⟨k, hk, hauto, hwindow⟩
    · exact FullTable.syncTable_whole hauto hargs h.columns
        (fun j => ⟨_, hkept _ ((h.reads.start_le j).trans (h.reads.maximum_le j))
          (h.reads.select_le j), h.reads.select j⟩) hret
    · have hwindow₀ : WithoutWindow e st₀ := by
        have hsame := State.getBookmark_congr hbegun
        exact ⟨(congrArg Val.truthy (hsame _)).trans hwindow.1,
          (congrArg Val.truthy (hsame _)).trans hwindow.2⟩
      have hcovered : FullTable.Covered db e k args.config cs {row} st₀ 0 :=
        hwindow₀.covered hk h.columns (hkept _ le_rfl h.reads.start_le_finish) args.config
      have hreturns := hcovered.returns (hk 0).keys hauto (Multiset.singleton_ne_zero row) hargs
        h.columns (fun i => h.reads.sees hk le_rfl hkept i) hret fun x _ _ => by
          rw [hconfig, heldBack_none]
      rwa [zero_add] at hreturns
  rw [hconfig, FullTable.keptRecords, Multiset.map_singleton, hw, Multiset.singleton_le,
    publishedRecords, Multiset.mem_map] at hle
  obtain ⟨w', hw', heq⟩ := hle
  rw [Except.ok.injEq] at heq
  rw [Outcome.messages_after, published_append, doSyncFullTable, Outcome.messages_after,
    published_append, Outcome.messages_thenState hret, published_append]
  have hin : w ∈ published (FullTable.syncTable e (S.autoIncrement e) run.server args
      st₀).messages := heq ▸ Multiset.mem_coe.mp hw'
  exact List.mem_append_right _ (List.mem_append_right _ (List.mem_append_left _ hin))

/-- At no moment two rows have records with one key. -/
def RecordsApart (db : Mysql κ) (log : CommitLog) (e : CatalogEntry) (cs : List SelectColumn)
    (names : List String) : Prop :=
  ∀ n, ∀ r ∈ log.table n, ∀ r' ∈ log.table n, ∀ w w', tableRecord db e none cs r = .ok w →
    tableRecord db e none cs r' = .ok w' → Binlog.keyOf names w = Binlog.keyOf names w' → w = w'

theorem getStreamVersion_congr {s : String}
    (h : st'.bookmarks.get? s = st.bookmarks.get? s) (now : Int) :
    getStreamVersion s st' now = getStreamVersion s st now := by
  rw [getStreamVersion, getStreamVersion, State.getBookmark_congr h]

/-- A run that returns makes the target show what it read: all rows that stayed from its start to
its end, and only rows that the table had meanwhile, whatever the target showed before. The next
run begins a pass with a version from the clock. -/
theorem full_refresh_replaces (h : TakesRefresh db log S config catalog st plan e cs t)
    (hapart : RecordsApart db log e cs names) {target : VersionedTarget names}
    (hnew : ∀ w, ¬ target.Holds (getStreamVersion e.tapStreamId st (S.runs e).now, w))
    (hret : (doSync S config catalog st).2 = .ok st') :
    (∀ row, log.Kept t.start t.finish {row} → ∀ w, tableRecord db e none cs row = .ok w →
      (receiveVersions e.tapStreamId target (doSync S config catalog st).1).Holds
        (getStreamVersion e.tapStreamId st (S.runs e).now, w)) ∧
    (∀ x, (receiveVersions e.tapStreamId target (doSync S config catalog st).1).Holds x →
      x.1 = getStreamVersion e.tapStreamId st (S.runs e).now ∧ ReadIn db log e none cs t x.2) ∧
    st'.getBookmark e.tapStreamId "version" = .null ∧ WithoutWindow e st' := by
  have hres := (planSync_resolved h.planned).1 e h.scheduled
  rcases doSync_split h.planned h.distinct h.once h.names h.scheduled with
    ⟨-, hempty⟩ | ⟨begun, before, after, hbegun, hturn, -⟩
  · have hcolumns := h.hasColumns
    rw [hempty st' hret] at hcolumns
    cases hcolumns
  have hturnRet : (plan.turn S config e begun).error = none := by
    by_contra hne
    exact (hturn.failed hne).2 st' hret
  have hconfig : (S.runOf plan.settings e).args.config = none := by
    rw [h.recordMode]
    rfl
  obtain ⟨⟨ms, v, hmsgs, hversioned⟩, hcleared⟩ :
      (∃ ms v, (plan.turn S config e begun).messages = ms ++ [.activateVersion e.tapStreamId
        (getStreamVersion e.tapStreamId begun (S.runs e).now), .state v] ∧
        ∀ m ∈ ms, VersionedMessage e.tapStreamId
          (getStreamVersion e.tapStreamId begun (S.runs e).now) m) ∧
      ∀ key ∈ ["version", "max_pk_values", "last_pk_fetched"],
        (plan.turn S config e begun).state.getBookmark e.tapStreamId key = .null :=
    fullTurn_closes h.fullTable hres hconfig hturnRet
  rw [getStreamVersion_congr hbegun] at hmsgs hversioned
  set version := getStreamVersion e.tapStreamId st (S.runs e).now
  -- the target sees the rows of the turn, and then their version
  have hwrites : (doSync S config catalog st).1.filterMap (Effect.versioned? e.tapStreamId) =
      (ms.map Effect.message).filterMap (Effect.versioned? e.tapStreamId) ++
        [.activate version] := by
    rw [hturn.effects, hmsgs, List.filterMap_append, List.filterMap_append,
      versioned_elsewhere hturn.quietBefore, versioned_elsewhere hturn.quietAfter,
      List.map_append, List.filterMap_append, List.nil_append, List.append_nil]
    simp [Effect.versioned?]
  have hpublished : published (plan.turn S config e begun).messages = published ms := by
    rw [hmsgs, published_append]
    exact List.append_nil _
  have hshows : ∀ x, (receiveVersions e.tapStreamId target (doSync S config catalog st).1).Holds x ↔
      x.1 = version ∧ (Watermark.load (Keyed.empty : Keyed (Binlog.keyOf names))
        (published ms)).Holds x.2 := by
    intro x
    rw [receiveVersions, hwrites, Generations.holds_run_activate (versioned_isOf hversioned),
      versioned_rows hversioned, Generations.current_eq_empty hnew]
  have hread : ∀ w ∈ published ms, ReadIn db log e none cs t w := by
    intro w hw
    rw [← hpublished] at hw
    obtain ⟨m, hm, hw⟩ := List.mem_flatMap.mp hw
    exact h.reads.rows h.columns hm w hw
  refine ⟨fun row hkept w hw => (hshows _).mpr ⟨rfl, ?_⟩, fun x hx => ?_, ?_, ?_⟩
  · have hin : w ∈ published ms := hpublished ▸ h.publishes hbegun hturnRet hkept hw
    refine Watermark.holds_load (.inr hin) fun w' hw' hkey => ?_
    -- the row was in the table when the other was read
    obtain ⟨n, hstart, hfinish, row', hrow', hrecord⟩ := hread w' hw'
    have hrow : row ∈ log.table n := by
      have hle := hkept n hstart hfinish
      rwa [Multiset.singleton_le, Multiset.mem_coe] at hle
    exact hapart n row' hrow' row hrow w' w hrecord hw hkey
  · obtain ⟨hversion, hheld⟩ := (hshows x).mp hx
    refine ⟨hversion, ?_⟩
    rcases Watermark.of_holds_load hheld with hno | hin
    · exact absurd hno (Keyed.not_holds_empty _)
    · exact hread _ hin
  · rw [State.getBookmark_congr (hturn.state st' hret)]
    exact hcleared _ (by simp)
  · have hsame := State.getBookmark_congr (hturn.state st' hret)
    constructor
    · rw [hsame, hcleared _ (by simp)]
      rfl
    · rw [hsame, hcleared _ (by simp)]
      rfl

end Refresh

/-! ### A row that is gone -/

namespace Sample

def fullEntry : CatalogEntry :=
  { Binlog.Sample.entry with
    metadata := Dict.ofList
      [([], Dict.ofList [("selected", .bool true), ("replication-method", .str "FULL_TABLE"),
        ("database-name", .str "db"), ("table-key-properties", .list [.str "id"])]),
      (["properties", "id"], Dict.ofList [("selected-by-default", .bool true),
        ("datatype", .str "int"), ("inclusion", .str "automatic")])] }

/-- The key auto-increments; its maximum is read after the first commit, the rows after the
second. -/
def fullServer : SyncSource :=
  { server [] with
    nonBinlogDiscovery := .ok [fullEntry]
    binlogDiscovery := .ok [fullEntry]
    autoIncrement := fun _ _ => true
    runs := fun _ =>
      { oneRowRun with
        server := fun _ =>
          ⟨.ok (intServer.maxPk (changesLog.table 1) ["id"]),
            intServer.deliver (changesLog.table 2) none⟩
        master := ⟨.ok (), .ok (), .ok (changesLog.position 1), .ok .null⟩ } }

def fullTimes : ReadTimes := ⟨1, fun _ => 1, fun _ => 2, 2⟩

def fullPlan : SyncPlan := ⟨[fullEntry], [], none⟩

/-- A target with a row of an earlier run. -/
def staleTarget : VersionedTarget ["id"] :=
  Generations.run Keyed.empty [.row (.int 1) (row 7), .activate (.int 1)]

theorem changesLog_table (n : ℕ) :
    ∃ ids : List ℤ, ids.Nodup ∧ changesLog.table n = ids.map row := by
  match n with
  | 0 => exact ⟨[], by decide, rfl⟩
  | 1 => exact ⟨[3, 1], by decide, rfl⟩
  | 2 => exact ⟨[2, 3], by decide, rfl⟩
  | _ + 3 => exact ⟨[1, 2, 3], by decide, rfl⟩

theorem fullEntry_keyed (n : ℕ) : IntegerKeyed fullEntry "id" (changesLog.table n) := by
  obtain ⟨ids, hids, htable⟩ := changesLog_table n
  have hkeyed : IntegerKeyed (streamOf "FULL_TABLE") "id" (ids.map row) :=
    integerKeyed hids (by decide) (by decide)
  rw [htable]
  refine ⟨by decide, by decide, ?_, ⟨Binlog.Sample.idSchema, by decide, rfl, rfl⟩, hkeyed.cells,
    hkeyed.nodup⟩
  have htyped : ∀ p ∈ fullEntry.schema.entries, p.2.type.isSome := by decide
  exact htyped

theorem fullServer_takesRefresh :
    TakesRefresh intServer changesLog fullServer settings [fullEntry] State.empty fullPlan
      fullEntry [.plain "id"] fullTimes where
  planned := rfl
  distinct := by decide
  once := by decide
  names := fun _ _ _ => rfl
  scheduled := List.mem_cons_self
  fullTable := by decide
  recordMode := rfl
  columns := rfl
  hasColumns := rfl
  reads :=
    { columns := rfl
      config := rfl
      position := by
        rintro p ⟨⟩
        rfl
      start_le := fun _ => le_rfl
      maximum_le := fun _ => Nat.le_succ 1
      select_le := fun _ => le_rfl
      maxPk := by
        rintro n result ⟨⟩
        exact intServer.maxPk_spec (changesLog.table 1) ["id"]
      select := fun n sql => intServer.deliver_spec (changesLog.table 2) none sql }
  keys := .inr ⟨"id", fullEntry_keyed, rfl, by decide, by decide⟩

theorem changesLog_apart : RecordsApart intServer changesLog fullEntry [.plain "id"] ["id"] := by
  intro n r hr r' hr' w w' hw hw' hkey
  obtain ⟨ids, -, htable⟩ := changesLog_table n
  rw [htable] at hr hr'
  obtain ⟨m, -, rfl⟩ := List.mem_map.mp hr
  obtain ⟨m', -, rfl⟩ := List.mem_map.mp hr'
  cases hw
  cases hw'
  obtain rfl : m = m' := row_key_eq.mp hkey
  rfl

theorem staleTarget_versions (w : Record) : ¬ staleTarget.Holds (.int 9, w) := by
  intro h
  have hof : ∀ x ∈ [Write.row (Val.int 1) (row 7)], x.IsOf (.int 1) := by simp [Write.IsOf]
  have hrun : (Generations.run (Keyed.empty : VersionedTarget ["id"])
      ([.row (.int 1) (row 7)] ++ [.activate (.int 1)])).Holds (.int 9, w) := h
  cases ((Generations.holds_run_activate hof _).mp hrun).1

end Sample

/-- Row 7 was there once. Row 3 stays in the table while row 1 becomes row 2. -/
theorem full_refresh_replaces_stale :
    ∃ st, (doSync Sample.fullServer Sample.settings [Sample.fullEntry] State.empty).2 = .ok st ∧
      (receiveVersions "db-t" Sample.staleTarget (doSync Sample.fullServer Sample.settings
        [Sample.fullEntry] State.empty).1).Holds (.int 9, Sample.row 3) ∧
      ¬ (receiveVersions "db-t" Sample.staleTarget (doSync Sample.fullServer Sample.settings
        [Sample.fullEntry] State.empty).1).Holds (.int 1, Sample.row 7) := by
  obtain ⟨hall, honly, -⟩ := full_refresh_replaces Sample.fullServer_takesRefresh
    Sample.changesLog_apart Sample.staleTarget_versions rfl
  refine ⟨_, rfl, hall (Sample.row 3) ?_ _ rfl, fun hheld => ?_⟩
  · intro n hstart hfinish
    rcases Nat.le_and_le_add_one_iff.mp ⟨hstart, hfinish⟩ with rfl | rfl
    · exact Multiset.singleton_le.mpr (by decide)
    · exact Multiset.singleton_le.mpr (by decide)
  · cases (honly _ hheld).1

end TapMysql
