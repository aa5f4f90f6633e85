import TapMysql.Binlog.Replica
import TapMysql.Lib.Replay
import TapMysql.Lifecycle

/-!
# A table that is replicated over many runs

A target reads what runs of the tap write, each run stopped after any of its messages and started
again from any STATE that it wrote. Records arrive again after a restart, and in between the target
may show old rows. Once a run returns, it shows the table as of the end that this run captured.
-/

namespace TapMysql.Binlog

open SyncedTable (Target Row)

/-! ### Runs that take the table along -/

section Run

variable {T : SyncedTable} {H : TableLog T} {c p : Position} {S : SyncSource} {config : SyncConfig}
  {catalog : List CatalogEntry} {st : State} {plan : SyncPlan} {pre : List Effect} {t : String}

/-- A run without gtids that syncs the table from the binlog with its entry. Every stream of the
binlog phase has a position, and from the least of them on the reader goes through the log. -/
structure TakesTable (H : TableLog T) (S : SyncSource) (config : SyncConfig)
    (catalog : List CatalogEntry) (st : State) (plan : SyncPlan) : Prop where
  planned : planSync S config catalog st = .ok plan
  distinct : (idsOf catalog).Nodup
  names : S.NamesColumns
  settled : T.Settled
  mode : config.usesGtid = false
  lib : S.binlog.lib = T.lib
  entry : (generateStreamsMap plan.binlog).get? T.streamId = some T.entry
  stored : ∀ t ∈ idsOf plan.binlog, ∃ q, storedPosition st t = some q
  reads : ∀ p t, StartsFrom (idsOf plan.binlog) st p t → ReadsAt H S.binlog p

theorem isBinlogStream_congr {e e' : CatalogEntry} (hid : e.tapStreamId = e'.tapStreamId)
    (hmeta : e.metadata = e'.metadata) : isBinlogStream st e = isBinlogStream st e' := by
  rw [Bool.eq_iff_iff, isBinlogStream_iff, isBinlogStream_iff, replicationMethod_congr hmeta, hid]

/-- A stream is in one phase only. -/
theorem not_scheduled_of_binlog (hdistinct : (idsOf catalog).Nodup)
    (hplan : planSync S config catalog st = .ok plan) (ht : t ∈ idsOf plan.binlog) :
    t ∉ idsOf plan.nonBinlog := by
  intro hmem
  obtain ⟨discovered₁, discovered₂, -, -, hselect, hbinlog, -⟩ := planSync_ok hplan
  obtain ⟨e, he, rfl⟩ := List.mem_map.mp ht
  obtain ⟨e', he', hid⟩ := List.mem_map.mp hmem
  obtain ⟨entry, hentry, table, columns, -, -, rfl⟩ := resolveCatalog_mem hbinlog e he
  obtain ⟨entry', hentry', hid', hmeta', hnot⟩ := getNonBinlogStreams_mem hselect e' he'
  obtain ⟨hselected, hlog⟩ := List.mem_filter.mp hentry
  obtain rfl : entry' = entry :=
    List.inj_on_of_nodup_map hdistinct hentry' (List.mem_filter.mp hselected).1
      (hid'.symm.trans hid)
  rw [isBinlogStream_congr hid' hmeta'] at hnot
  exact absurd hlog (by simpa [isBinlogStream] using hnot)

theorem TakesTable.syncs (h : TakesTable H S config catalog st plan) :
    SyncsTable T S.binlog config.binlogConfig plan.binlog :=
  ⟨h.settled, h.mode, h.lib, (planSync_resolved h.planned).2, h.entry⟩

theorem TakesTable.runs_name (h : TakesTable H S config catalog st plan) :
    ∀ e ∈ plan.nonBinlog, (S.runOf plan.settings e).NamesColumns := fun e _ => h.names e

theorem TakesTable.select_stored (h : TakesTable H S config catalog st plan)
    (ht : t ∈ idsOf plan.binlog) :
    storedPosition (plan.select S config st).state t = storedPosition st t := by
  have hnot := not_scheduled_of_binlog h.distinct h.planned ht
  exact storedPosition_congr fun key _ => State.getBookmark_congr (syncNonBinlogStreams_others
    (planSync_resolved h.planned).1 h.runs_name hnot) key

theorem mem_binlog_of_get? {binlog : List CatalogEntry} {s : String} {entry : StreamsMapEntry}
    (h : (generateStreamsMap binlog).get? s = some entry) : s ∈ idsOf binlog :=
  mem_generateStreamsMap_keys.mp (Dict.mem_keys_iff.mpr ⟨entry, h⟩)

/-- The SELECT phase writes no record of the table. -/
theorem TakesTable.select_silent (h : TakesTable H S config catalog st plan) :
    recordsOn T.streamId ((plan.select S config st).messages.map .message) = [] := by
  have hnot := not_scheduled_of_binlog h.distinct h.planned (mem_binlog_of_get? h.entry)
  apply recordsOn_eq_nil
  intro row version time hx
  exact (syncNonBinlogStreams_elsewhere (planSync_resolved h.planned).1 h.runs_name hnot st).data
    _ hx rfl

theorem TakesTable.start (h : TakesTable H S config catalog st plan)
    (hstart : StartsFrom (idsOf plan.binlog) st p t) :
    StartsFrom (idsOf plan.binlog) (plan.select S config st).state p t := by
  refine ⟨hstart.1, (h.select_stored hstart.1).trans hstart.2.1, fun t' ht' q hq => ?_⟩
  exact hstart.2.2 t' ht' q ((h.select_stored ht').symm.trans hq)

/-- Whatever part of the messages of a run was read, it replays a part of the log. -/
theorem TakesTable.replayed (h : TakesTable H S config catalog st plan)
    (hstart : StartsFrom (idsOf plan.binlog) st p t)
    (hc : ∀ f n, S.binlog.fetchCurrentLogFileAndPos = .ok (f, n) → toLex (f, n) ≤ c)
    (hpre : pre <+: (doSync S config catalog st).1) : Replayed H t p c pre := by
  have hselect : ∀ v, .message (.state v) ∈ (plan.select S config st).messages.map Effect.message →
      storedPosition v t = some p := by
    intro v hv
    have hnot := not_scheduled_of_binlog h.distinct h.planned hstart.1
    rw [← hstart.2.1]
    exact storedPosition_congr fun key _ => State.getBookmark_congr ((syncNonBinlogStreams_elsewhere
      (planSync_resolved h.planned).1 h.runs_name hnot st).states v hv) key
  rcases doSync_cases S config catalog st with ⟨err, hplan, -⟩ | ⟨plan', hplan, hrest⟩
  · rw [h.planned] at hplan
    cases hplan
  · obtain rfl : plan' = plan := Except.ok.inj (hplan.symm.trans h.planned)
    rcases hrest with ⟨err, -, hout⟩ | ⟨-, hout⟩
    · rw [hout] at hpre
      rw [← List.append_nil ((plan'.select S config st).messages.map Effect.message)] at hpre
      refine replayed_append hpre h.select_silent hselect fun b hb => ?_
      rw [List.prefix_nil.mp hb]
      exact replayed_nil
    · rw [hout] at hpre
      refine replayed_append hpre h.select_silent hselect fun b hb => ?_
      refine h.syncs.replayed (fun t' ht' => ?_) (h.start hstart) (h.reads p t hstart) hc hb
      rw [h.select_stored ht']
      exact h.stored t' ht'

/-- A run that returns has replayed the log up to the captured end. -/
theorem TakesTable.complete (h : TakesTable H S config catalog st plan)
    (hstart : StartsFrom (idsOf plan.binlog) st p t)
    (hc : S.binlog.fetchCurrentLogFileAndPos = .ok (ofLex c)) {st₁ : State}
    (hret : (doSync S config catalog st).2 = .ok st₁) :
    List.Forall₂ T.Shows (recordsOn T.streamId (doSync S config catalog st).1)
      ((H.upTo c).drop (H.upTo p).length) := by
  rcases doSync_cases S config catalog st with ⟨err, hplan, -⟩ | ⟨plan', hplan, hrest⟩
  · rw [h.planned] at hplan
    cases hplan
  · obtain rfl : plan' = plan := Except.ok.inj (hplan.symm.trans h.planned)
    rcases hrest with ⟨err, -, hout⟩ | ⟨-, hout⟩
    · rw [hout] at hret
      cases hret
    · rw [hout] at hret ⊢
      rw [recordsOn_append, h.select_silent, List.nil_append]
      refine h.syncs.complete (fun t' ht' => ?_) (h.start hstart) (h.reads p t hstart) hc hret
      rw [h.select_stored ht']
      exact h.stored t' ht'

theorem TakesTable.exists_start (h : TakesTable H S config catalog st plan) :
    ∃ p t, StartsFrom (idsOf plan.binlog) st p t := by
  have hmem : T.streamId ∈ (idsOf plan.binlog).toFinset :=
    List.mem_toFinset.mpr (mem_binlog_of_get? h.entry)
  obtain ⟨t, ht, hleast⟩ := (idsOf plan.binlog).toFinset.exists_min_image
    (fun t => (storedPosition st t).getD (toLex ("", 0))) ⟨_, hmem⟩
  rw [List.mem_toFinset] at ht
  obtain ⟨p, hp⟩ := h.stored t ht
  refine ⟨p, t, ht, hp, fun t' ht' q hq => ?_⟩
  have hle := hleast t' (List.mem_toFinset.mpr ht')
  rwa [hp, hq, Option.getD_some, Option.getD_some] at hle

end Run

/-! ### Runs one after the other -/

/-- What the target makes of the messages for the table. -/
def SyncedTable.read (T : SyncedTable) (target : T.Target) (out : List Effect) : T.Target :=
  (recordsOn T.streamId out).foldl applyMessage target

/-- The states and targets that runs reach, none of which captures an end behind `c`. A run is
stopped after any of its messages, and the next one starts from its own start or from any STATE
that it wrote, with all the streams of the binlog phase that it had. -/
inductive Fed {T : SyncedTable} (H : TableLog T) (c : Position) (st₀ : State)
    (target₀ : T.Target) : List String → State → T.Target → Prop
  | start : Fed H c st₀ target₀ [T.streamId] st₀ target₀
  | stopped {ids : List String} {st v : State} {target : T.Target} {S : SyncSource}
      {config : SyncConfig} {catalog : List CatalogEntry} {plan : SyncPlan} {pre : List Effect} :
      Fed H c st₀ target₀ ids st target → TakesTable H S config catalog st plan →
      ids ⊆ idsOf plan.binlog →
      (∀ f n, S.binlog.fetchCurrentLogFileAndPos = .ok (f, n) → toLex (f, n) ≤ c) →
      pre <+: (doSync S config catalog st).1 → v = st ∨ .message (.state v) ∈ pre →
      Fed H c st₀ target₀ (idsOf plan.binlog) v (T.read target pre)

section Runs

variable {T : SyncedTable} {H : TableLog T} {c p : Position} {S : SyncSource} {config : SyncConfig}
  {catalog : List CatalogEntry} {st st₀ st₁ : State} {plan : SyncPlan} {pre : List Effect}
  {t : String} {ids : List String} {target target₀ base : T.Target} {content : T.Content}

/-- The images that the records of the log show, up to the captured end. -/
def TableLog.images (H : TableLog T) (c : Position) : List (Edit Record) :=
  (H.upTo c).map (Edit.map Row.record)

/-- The target shows what `base` shows after the whole log, under all keys that no change behind
the place writes at which a later run starts. -/
def Caught (H : TableLog T) (c : Position) (base : T.Target) (ids : List String) (st : State)
    (target : T.Target) : Prop :=
  ∃ i, Keyed.CaughtUp base (H.images c) i target ∧
    ∃ t ∈ ids, ∃ q, storedPosition st t = some q ∧ (H.upTo q).length ≤ i

theorem read_replayed (h : Replayed H t p c pre) :
    T.read target pre = target.writeAll (((H.images c).take
      ((H.upTo p).length + (recordsOn T.streamId pre).length)).drop (H.upTo p).length) := by
  rw [SyncedTable.read, SyncedTable.foldl_applyMessage_of_shows h.shows, TableLog.images,
    List.drop_take, Nat.add_sub_cancel_left, List.map_take, List.map_drop]

/-- A run starts no later than at the place that the target needs to read from. -/
theorem Caught.start_le (h : Caught H c base ids st target) (hids : ids ⊆ idsOf plan.binlog)
    (hstart : StartsFrom (idsOf plan.binlog) st p t) :
    ∃ i, Keyed.CaughtUp base (H.images c) i target ∧ (H.upTo p).length ≤ i := by
  obtain ⟨i, hcaught, t', ht', q, hq, hle⟩ := h
  exact ⟨i, hcaught, (H.upTo_prefix (hstart.2.2 t' (hids ht') q hq)).length_le.trans hle⟩

theorem Caught.replayed (h : Caught H c base ids st target) (hids : ids ⊆ idsOf plan.binlog)
    (hstart : StartsFrom (idsOf plan.binlog) st p t) (hreplayed : Replayed H t p c pre)
    {v : State} (hv : v = st ∨ .message (.state v) ∈ pre) :
    Caught H c base (idsOf plan.binlog) v (T.read target pre) := by
  obtain ⟨i, hcaught, hpi⟩ := h.start_le hids hstart
  refine ⟨(H.upTo p).length + (recordsOn T.streamId pre).length, ?_, t, hstart.1, ?_⟩
  · rw [read_replayed hreplayed]
    exact hcaught.writeAll hpi
  · rcases hv with rfl | hv
    · exact ⟨p, hstart.2.1, Nat.le_add_right _ _⟩
    · exact hreplayed.states v hv

theorem Fed.caught (h : Fed H c st₀ target₀ ids st target)
    (hstart : Caught H c base [T.streamId] st₀ target₀) : Caught H c base ids st target := by
  induction h with
  | start => exact hstart
  | stopped _ htakes hids hc hpre hv ih =>
    obtain ⟨p, t, hstart⟩ := htakes.exists_start
    exact ih.replayed hids hstart (htakes.replayed hstart hc hpre) hv

/-- A run that returns brings the target to the captured end. -/
theorem Caught.complete (h : Caught H c base ids st target)
    (htakes : TakesTable H S config catalog st plan) (hids : ids ⊆ idsOf plan.binlog)
    (hc : S.binlog.fetchCurrentLogFileAndPos = .ok (ofLex c))
    (hret : (doSync S config catalog st).2 = .ok st₁) :
    T.read target (doSync S config catalog st).1 = base.writeAll (H.images c) := by
  obtain ⟨p, t, hstart⟩ := htakes.exists_start
  obtain ⟨i, hcaught, hpi⟩ := h.start_le hids hstart
  rw [SyncedTable.read, SyncedTable.foldl_applyMessage_of_shows (htakes.complete hstart hc hret),
    List.map_drop]
  have hread := hcaught.writeAll (b := (H.images c).length) hpi
  rw [List.take_length] at hread
  exact hread.eq le_rfl

/-- After any chain of runs, each stopped anywhere, the target of a run that returns shows the
table as of the captured end, exactly when no change left a key behind that no later one wrote. -/
theorem replication_converges_iff (hloaded : SyncedTable.Reproduces content target₀)
    (hstart : ∃ q, storedPosition st₀ T.streamId = some q ∧ H.upTo q = [])
    (hlegal : content.Legal (H.upTo c))
    (hapart : Keyed.Apart Row.key (keyOf T.keyColumns) Row.record (content.Occurs (H.upTo c)))
    (hfed : Fed H c st₀ target₀ ids st target) (htakes : TakesTable H S config catalog st plan)
    (hids : ids ⊆ idsOf plan.binlog)
    (hc : S.binlog.fetchCurrentLogFileAndPos = .ok (ofLex c))
    (hret : (doSync S config catalog st).2 = .ok st₁) :
    SyncedTable.Reproduces (content.applyAll (H.upTo c))
        (T.read target (doSync S config catalog st).1) ↔
      ∀ k, ¬ Keyed.LeftBehind Row.key k (H.upTo c) := by
  obtain ⟨q, hq, hnil⟩ := hstart
  have hcaught : Caught H c target₀ [T.streamId] st₀ target₀ :=
    ⟨0, Keyed.caughtUp_zero _ _, T.streamId, List.mem_singleton_self _, q, hq, by rw [hnil]; rfl⟩
  rw [(hfed.caught hcaught).complete htakes hids hc hret]
  exact Keyed.mirrors_writeAll_iff hloaded hlegal hapart

end Runs

/-! ### Records that arrive twice -/

namespace Sample

/-- Rows 1 and 3 are inserted, row 1 becomes row 2, and a new row 1 comes. -/
def changeAt : ℤ → TableChange table.Row
  | 0 => .write [row 1, row 3]
  | 1 => .update [(row 1, row 2)]
  | _ => .write [row 1]

def tableLog : TableLog table where
  log := [⟨"bin.1", 80, .tableMap "db" "t", "", 0⟩,
    ⟨"bin.1", 120, .rows (table.rowsOf (changeAt 0) 0), "", 0⟩, ⟨"bin.1", 150, .filtered, "", 0⟩,
    ⟨"bin.1", 200, .tableMap "db" "t", "", 0⟩,
    ⟨"bin.1", 240, .rows (table.rowsOf (changeAt 1) 1), "", 0⟩, ⟨"bin.1", 290, .filtered, "", 0⟩,
    ⟨"bin.1", 320, .tableMap "db" "t", "", 0⟩,
    ⟨"bin.1", 360, .rows (table.rowsOf (changeAt 2) 2), "", 0⟩, ⟨"bin.1", 400, .filtered, "", 0⟩]
  change ev := changeAt ev.timestamp
  ordered := by decide
  rows := by
    intro e he ev hev
    simp only [List.mem_cons, List.not_mem_nil, or_false] at he
    rcases he with rfl | rfl | rfl | rfl | rfl | rfl | rfl | rfl | rfl <;> cases hev <;> rfl

/-- The end of the log is captured at the position `n`. -/
def tableServer (n : ℕ) : SyncSource :=
  { TapMysql.Sample.server (deliveries false tableLog.log) with
    binlog := { source (deliveries false tableLog.log) with
      fetchCurrentLogFileAndPos := .ok ("bin.1", n) } }

def endAt (n : ℕ) : Position := toLex ("bin.1", n)

def tablePlan : SyncPlan := ⟨[], [{ entry with stream := "db-t" }], none⟩

theorem upTo_endAt : tableLog.upTo (endAt 500) =
    [.insert (row 1), .insert (row 3), .update (row 1) (row 2), .insert (row 1)] := by rfl

theorem tableLog_restartable : Restartable table.only tableLog.log (endAt 4) := by
  unfold Restartable
  decide

theorem tableServer_takesTable {st : State} {n : ℕ} (hn : n = 300 ∨ n = 500)
    (hplan : planSync (tableServer n) TapMysql.Sample.settings [entry] st = .ok tablePlan)
    (hst : storedPosition st "db-t" = some (endAt 4)) :
    TakesTable tableLog (tableServer n) TapMysql.Sample.settings [entry] st tablePlan where
  planned := hplan
  distinct := by decide
  names := fun _ _ _ => rfl
  settled := by
    constructor
    · intro ev hev
      simp only [unnamedColumns, hev]
      decide
    · intro ev hev ignored
      have hid : table.entry.catalogEntry.schema.keys.contains "id" = true := by decide
      have hdiff : getDiffInColumnsList ev table.entry.catalogEntry.schema.keys ignored = [] := by
        simp only [getDiffInColumnsList, hev, show table.dbColumns.filterMap DbColumn.name = ["id"]
          from rfl, List.filter_cons, hid, Bool.not_true, Bool.and_false]
        rfl
      rw [hdiff]
      rfl
  mode := by decide
  lib := rfl
  entry := rfl
  stored := by
    intro t ht
    obtain rfl : t = "db-t" := List.mem_singleton.mp ht
    exact ⟨endAt 4, hst⟩
  reads := by
    rintro p t ⟨ht, hp, -⟩
    obtain rfl : t = "db-t" := List.mem_singleton.mp ht
    obtain rfl : endAt 4 = p := Option.some.inj (hst.symm.trans hp)
    constructor
    · have hread : deliveries false tableLog.log =
          deliveries false ((readFrom (endAt 4) [] tableLog.log).take 3) := by decide
      refine fun _ _ => ⟨(readFrom (endAt 4) [] tableLog.log).take 3, hread,
        readsTable_readFrom tableLog_restartable 3, fun _ f n _ x hx howns hpx _ => ?_⟩
      rw [List.take_of_length_le (by decide)]
      exact tableLog_restartable x hx howns hpx
    · rintro f m ⟨⟩
      rcases hn with rfl | rfl <;> decide

theorem atFour_takesTable {n : ℕ} (hn : n = 300 ∨ n = 500) :
    TakesTable tableLog (tableServer n) TapMysql.Sample.settings [entry] atFour tablePlan :=
  tableServer_takesTable hn rfl (by decide)

def tableRun (n : ℕ) : List Effect × Except Err State :=
  doSync (tableServer n) TapMysql.Sample.settings [entry] atFour

/-- The run is stopped when the target has read the record of the update, and no STATE after it. -/
theorem fed_stopped {n : ℕ} (hn : n = 300 ∨ n = 500) :
    Fed tableLog (endAt n) atFour Keyed.empty (idsOf tablePlan.binlog) atFour
      (table.read Keyed.empty ((tableRun 300).1.take 5)) := by
  refine .stopped .start (atFour_takesTable (.inl rfl)) (by decide) ?_ (List.take_prefix 5 _)
    (.inl rfl)
  rintro f m ⟨⟩
  rcases hn with rfl | rfl <;> decide

theorem upTo_endAt_update : tableLog.upTo (endAt 300) =
    [.insert (row 1), .insert (row 3), .update (row 1) (row 2)] := by rfl

theorem upTo_legal {n : ℕ} (hn : n = 300 ∨ n = 500) :
    (Keyed.empty : table.Content).Legal (tableLog.upTo (endAt n)) := by
  rcases hn with rfl | rfl
  · rw [upTo_endAt_update, Keyed.legal_cons, Keyed.legal_cons, Keyed.legal_cons]
    exact ⟨rfl, rfl, ⟨rfl, .inr rfl⟩, Keyed.legal_nil _⟩
  · rw [upTo_endAt, Keyed.legal_cons, Keyed.legal_cons, Keyed.legal_cons, Keyed.legal_cons]
    exact ⟨rfl, rfl, ⟨rfl, .inr rfl⟩, rfl, Keyed.legal_nil _⟩

theorem upTo_occurs {n : ℕ} (hn : n = 300 ∨ n = 500) {u : table.Row}
    (hu : (Keyed.empty : table.Content).Occurs (tableLog.upTo (endAt n)) u) : ∃ m, u = row m := by
  have hle : endAt n ≤ endAt 500 := by rcases hn with rfl | rfl <;> decide
  rcases hu with hu | ⟨e, he, hu⟩
  · exact absurd hu (Keyed.not_holds_empty u)
  · have hmem := (tableLog.upTo_prefix hle).subset he
    simp only [upTo_endAt, List.mem_cons, List.not_mem_nil, or_false] at hmem
    rcases hmem with rfl | rfl | rfl | rfl
    · exact ⟨1, List.mem_singleton.mp hu⟩
    · exact ⟨3, List.mem_singleton.mp hu⟩
    · rcases List.mem_pair.mp hu with rfl | rfl
      · exact ⟨1, rfl⟩
      · exact ⟨2, rfl⟩
    · exact ⟨1, List.mem_singleton.mp hu⟩

theorem upTo_apart {n : ℕ} (hn : n = 300 ∨ n = 500) :
    Keyed.Apart Row.key (keyOf table.keyColumns) Row.record
      ((Keyed.empty : table.Content).Occurs (tableLog.upTo (endAt n))) :=
  fun u v hu hv => rows_apart u v (upTo_occurs hn hu) (upTo_occurs hn hv)

/-- The new row 1 takes the key that the update left. -/
theorem upTo_kept (k : List Val) : ¬ Keyed.LeftBehind Row.key k (tableLog.upTo (endAt 500)) := by
  rintro ⟨a, e, b, hes, ⟨u, v, rfl, hu, -⟩, hlater⟩
  rw [upTo_endAt] at hes
  rcases List.cons_eq_append_iff.mp hes with ⟨-, h⟩ | ⟨a, -, h⟩
  · cases (List.cons.inj h).1
  rcases List.cons_eq_append_iff.mp h with ⟨-, h⟩ | ⟨a, -, h⟩
  · cases (List.cons.inj h).1
  rcases List.cons_eq_append_iff.mp h with ⟨-, h⟩ | ⟨a, -, h⟩
  · obtain ⟨hmoved, rfl⟩ := List.cons.inj h
    cases hmoved
    exact hlater _ (List.mem_singleton_self _) hu
  rcases List.cons_eq_append_iff.mp h with ⟨-, h⟩ | ⟨a, -, h⟩
  · cases (List.cons.inj h).1
  · simp at h

theorem upTo_leftBehind :
    Keyed.LeftBehind Row.key (row 1).key (tableLog.upTo (endAt 300)) := by
  refine ⟨[.insert (row 1), .insert (row 3)], .update (row 1) (row 2), [], upTo_endAt_update,
    ⟨_, _, rfl, rfl, row_key_ne⟩, ?_⟩
  simp

end Sample

/-- The records of the first run come again. The target of the run that captures the end behind
the new row 1 shows the table, that of the run that captures the end before it has row 1 left. -/
theorem replication_converges_iff_restarted :
    SyncedTable.Reproduces ((Keyed.empty : Sample.table.Content).applyAll
        (Sample.tableLog.upTo (Sample.endAt 500)))
      (Sample.table.read (Sample.table.read Keyed.empty ((Sample.tableRun 300).1.take 5))
        (Sample.tableRun 500).1) ∧
    ¬ SyncedTable.Reproduces ((Keyed.empty : Sample.table.Content).applyAll
        (Sample.tableLog.upTo (Sample.endAt 300)))
      (Sample.table.read (Sample.table.read Keyed.empty ((Sample.tableRun 300).1.take 5))
        (Sample.tableRun 300).1) := by
  constructor
  · exact (replication_converges_iff Keyed.mirrors_empty ⟨Sample.endAt 4, by decide, by rfl⟩
      (Sample.upTo_legal (.inr rfl)) (Sample.upTo_apart (.inr rfl)) (Sample.fed_stopped (.inr rfl))
      (Sample.atFour_takesTable (.inr rfl)) (List.Subset.refl _) rfl rfl).mpr Sample.upTo_kept
  · exact fun h => (replication_converges_iff Keyed.mirrors_empty
      ⟨Sample.endAt 4, by decide, by rfl⟩ (Sample.upTo_legal (.inl rfl))
      (Sample.upTo_apart (.inl rfl)) (Sample.fed_stopped (.inl rfl))
      (Sample.atFour_takesTable (.inl rfl)) (List.Subset.refl _) rfl rfl).mp h _
        Sample.upTo_leftBehind

end TapMysql.Binlog
