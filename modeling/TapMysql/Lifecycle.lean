import TapMysql.DoSync
import TapMysql.Select.Snapshot
import TapMysql.Select.Version

/-!
# A LOG_BASED stream over many runs

A run is started from a STATE of an earlier one, wherever that one stopped. Once a snapshot of a
LOG_BASED stream has returned, every state that is reached in this way has a binlog position for
the stream and no trace of a snapshot, so the stream is not snapshotted again, and its version
stays.
-/

namespace TapMysql

open Binlog (Effect KeptByUpdates StreamsMap whitelistStreams updateBookmarks positionValue)

/-! ### Streams that follow the binlog -/

/-- The stream has a position in the binlog, and no snapshot of it is going on. -/
structure OnBinlog (s : String) (st : State) : Prop where
  position : ((st.getBookmark s "log_file").truthy = true ∧
    (st.getBookmark s "log_pos").truthy = true) ∨ (st.getBookmark s "gtid").truthy = true
  maximum : (st.getBookmark s "max_pk_values").truthy = false
  last : (st.getBookmark s "last_pk_fetched").truthy = false

theorem isBinlogStream_iff {e : CatalogEntry} {st : State} :
    isBinlogStream st e = true ↔ e.replicationMethod = .logBased ∧ OnBinlog e.tapStreamId st := by
  unfold isBinlogStream isLogBased binlogStreamRequiresHistorical
  constructor
  · intro h
    simp only [Bool.and_eq_true, Bool.or_eq_true, Bool.not_eq_true', decide_eq_true_eq,
      Bool.not_not] at h
    exact ⟨h.1, h.2.1, h.2.2.1, h.2.2.2⟩
  · intro ⟨hm, hpos, hmax, hlast⟩
    simp only [Bool.and_eq_true, Bool.or_eq_true, Bool.not_eq_true', decide_eq_true_eq,
      Bool.not_not]
    exact ⟨hm, hpos, hmax, hlast⟩

/-- The stream follows the binlog with this version. -/
structure Resting (s : String) (w : Val) (st : State) : Prop extends OnBinlog s st where
  version : st.getBookmark s "version" = w

section Bookmark

variable {s : String} {w : Val} {st st' : State}

theorem OnBinlog.congr (h : OnBinlog s st)
    (hkey : ∀ key, st'.getBookmark s key = st.getBookmark s key) : OnBinlog s st' := by
  refine ⟨?_, ?_, ?_⟩
  · rw [hkey, hkey, hkey]
    exact h.position
  · rw [hkey]
    exact h.maximum
  · rw [hkey]
    exact h.last

theorem Resting.congr (h : Resting s w st)
    (hkey : ∀ key, st'.getBookmark s key = st.getBookmark s key) : Resting s w st' :=
  ⟨h.toOnBinlog.congr hkey, (hkey _).trans h.version⟩

/-- A position in a file with a name replaces the position. -/
theorem keptByUpdates_resting (streams : List String) (s : String) (w : Val) :
    KeptByUpdates streams (· ≠ "") (Resting s w) := by
  intro m _ st f p gtid st' hf h hu
  have hkey := Binlog.getBookmark_updateBookmarks hu s
  by_cases hs : s ∈ m.keys
  · simp only [hs, if_true] at hkey
    have hp : p ≠ 0 := by
      rintro rfl
      simp [updateBookmarks, hf] at hu
    refine ⟨⟨.inl ⟨?_, ?_⟩, ?_, ?_⟩, ?_⟩
    · simp [hkey, positionValue, Val.truthy, hf]
    · simp [hkey, positionValue, Val.truthy, hp]
    · simpa [hkey, positionValue] using h.maximum
    · simpa [hkey, positionValue] using h.last
    · simpa [hkey, positionValue] using h.version
  · simp only [hs, if_false] at hkey
    exact h.congr hkey

theorem Resting.whitelist (h : Resting s w st) (t : String) :
    Resting s w (whitelistBookmarkKeys Binlog.bookmarkKeys t st) := by
  have hkept : ∀ key ∈ Binlog.bookmarkKeys,
      (whitelistBookmarkKeys Binlog.bookmarkKeys t st).getBookmark s key =
        st.getBookmark s key := by
    intro key hkey
    rw [getBookmark_whitelistBookmarkKeys]
    simp [hkey]
  have hcleared : ∀ key, (st.getBookmark s key).truthy = false →
      ((whitelistBookmarkKeys Binlog.bookmarkKeys t st).getBookmark s key).truthy = false := by
    intro key hkey
    rw [getBookmark_whitelistBookmarkKeys]
    split_ifs
    · rfl
    · exact hkey
  refine ⟨⟨?_, hcleared _ h.maximum, hcleared _ h.last⟩, ?_⟩
  · rw [hkept _ (by decide), hkept _ (by decide), hkept _ (by decide)]
    exact h.position
  · rw [hkept _ (by decide)]
    exact h.version

theorem Resting.whitelistStreams (h : Resting s w st) (m : StreamsMap) :
    Resting s w (whitelistStreams m st) :=
  List.foldlRecOn m.keys _ h fun _ h t _ => h.whitelist t

end Bookmark

/-! ### One run -/

theorem syncBinlogStreams_resting {s : String} {w : Val} {S : Binlog.BinlogSource}
    {config : Binlog.BinlogConfig} {catalog : List CatalogEntry} {st : State}
    (hS : S.NamesFiles (· ≠ "")) (hst : Resting s w st) :
    (∀ x ∈ (Binlog.syncBinlogStreams S config catalog st).1,
      Binlog.TurnEffect (Resting s w) x) ∧
    ∀ st', (Binlog.syncBinlogStreams S config catalog st).2 = .ok st' → Resting s w st' := by
  unfold Binlog.syncBinlogStreams
  split_ifs
  · refine ⟨by simp, fun st' h => ?_⟩
    cases h
    exact hst
  · obtain ⟨heffects, hstate⟩ := Binlog.syncBinlogStream_keeps
      (keptByUpdates_resting (Binlog.generateStreamsMap catalog).keys s w) (fun _ hf => hf) hS
      config (hst.whitelistStreams _)
    refine ⟨List.forall_mem_append.mpr ⟨fun x hx => ?_, heffects⟩, hstate⟩
    obtain ⟨e, -, rfl⟩ := List.mem_map.mp hx
    trivial

/-- A run that takes the stream for a LOG_BASED one, with a reader whose files have names. -/
structure RunFor (s : String) (S : SyncSource) (catalog : List CatalogEntry) : Prop where
  logBased : ∀ e ∈ catalog, e.tapStreamId = s → e.replicationMethod = .logBased
  files : S.binlog.NamesFiles (· ≠ "")
  names : S.NamesColumns

section Run

variable {s : String} {w : Val} {S : SyncSource} {config : SyncConfig}
  {catalog discovered : List CatalogEntry} {st v : State} {plan : SyncPlan}

theorem splitByState_mem {selected without withState : List CatalogEntry}
    (h : splitByState st selected = .ok (without, withState)) :
    ∀ e ∈ without ++ withState, e ∈ selected ∧ isBinlogStream st e = false := by
  induction selected generalizing without withState with
  | nil =>
    cases h
    simp
  | cons e rest ih =>
    rw [splitByState] at h
    split at h
    · cases h
    · cases hrest : splitByState st rest with
      | error err => simp [hrest] at h
      | ok lists =>
        obtain ⟨without', withState'⟩ := lists
        simp only [hrest] at h
        have hih : ∀ e' ∈ without' ++ withState', e' ∈ e :: rest ∧ isBinlogStream st e' = false :=
          fun e' he' => ⟨List.mem_cons_of_mem _ (ih hrest e' he').1, (ih hrest e' he').2⟩
        have hcons : isBinlogStream st e = false →
            ∀ e' ∈ e :: (without' ++ withState'), e' ∈ e :: rest ∧ isBinlogStream st e' = false :=
          fun he => List.forall_mem_cons.mpr ⟨⟨List.mem_cons_self, he⟩, hih⟩
        split_ifs at h with hstate hlog hother
        · cases h
          exact hcons (not_isBinlogStream_of_not_hasState (by simpa using hstate))
        · cases h
          intro e' he'
          rw [List.mem_append, List.mem_cons, or_left_comm, ← List.mem_append,
            ← List.mem_cons] at he'
          refine hcons ?_ e' he'
          simp only [Bool.and_eq_true] at hlog
          simp [isBinlogStream, hlog.2]
        · cases h
          intro e' he'
          rw [List.mem_append, List.mem_cons, or_left_comm, ← List.mem_append,
            ← List.mem_cons] at he'
          refine hcons ?_ e' he'
          simp only [Bool.not_eq_true'] at hother
          simp [isBinlogStream, hother]
        · cases h
          exact hih

theorem mem_streamsToSync {without withState : List CatalogEntry} {e : CatalogEntry}
    (h : e ∈ streamsToSync st without withState) : e ∈ without ++ withState := by
  unfold streamsToSync at h
  split at h
  · exact h
  · rcases List.mem_append.mp h with h | h
    · exact List.mem_append_right _ (List.mem_filter.mp h).1
    · exact (List.mem_filter.mp h).1

/-- A stream of the SELECT phase has the id and the metadata of a selected stream of the catalog
that does not follow the binlog. -/
theorem getNonBinlogStreams_mem {streams : List CatalogEntry}
    (h : getNonBinlogStreams discovered catalog st = .ok streams) :
    ∀ e ∈ streams, ∃ entry ∈ catalog, e.tapStreamId = entry.tapStreamId ∧
      e.metadata = entry.metadata ∧ isBinlogStream st e = false := by
  intro e he
  unfold getNonBinlogStreams at h
  split at h
  · cases h
  · rename_i without withState hsplit
    obtain ⟨entry, hentry, table, columns, -, -, rfl⟩ := resolveCatalog_mem h e he
    obtain ⟨hin, hnot⟩ := splitByState_mem hsplit entry (mem_streamsToSync hentry)
    exact ⟨entry, (List.mem_filter.mp hin).1, rfl, rfl, hnot⟩

theorem replicationMethod_congr {e e' : CatalogEntry} (h : e.metadata = e'.metadata) :
    e.replicationMethod = e'.replicationMethod := by
  unfold CatalogEntry.replicationMethod CatalogEntry.streamMetadata
  rw [h]

theorem RunFor.logBased_of_scheduled (hrun : RunFor s S catalog)
    (hplan : planSync S config catalog st = .ok plan) {e : CatalogEntry} (he : e ∈ plan.nonBinlog)
    (hid : e.tapStreamId = s) : e.replicationMethod = .logBased := by
  obtain ⟨discovered₁, -, -, -, hstreams, -⟩ := planSync_ok hplan
  obtain ⟨entry, hentry, hid', hmeta, -⟩ := getNonBinlogStreams_mem hstreams e he
  rw [replicationMethod_congr hmeta]
  exact hrun.logBased entry hentry (hid'.symm.trans hid)

/-- A stream that follows the binlog is not scheduled for the SELECT phase. -/
theorem RunFor.not_scheduled (hrun : RunFor s S catalog) (hst : OnBinlog s st)
    (hplan : planSync S config catalog st = .ok plan) : s ∉ idsOf plan.nonBinlog := by
  intro hmem
  obtain ⟨e, he, rfl⟩ := List.mem_map.mp hmem
  obtain ⟨discovered₁, -, -, -, hstreams, -⟩ := planSync_ok hplan
  obtain ⟨-, -, -, -, hnot⟩ := getNonBinlogStreams_mem hstreams e he
  have hlog := hrun.logBased_of_scheduled hplan he rfl
  rw [isBinlogStream_iff.mpr ⟨hlog, hst⟩] at hnot
  cases hnot

/-- Every STATE of a run leaves a stream on the binlog that was there when the run began, with the
version it had. -/
theorem RunFor.resting (hrun : RunFor s S catalog) (hst : Resting s w st)
    (hv : .message (.state v) ∈ (doSync S config catalog st).1) : Resting s w v := by
  rcases doSync_cases S config catalog st with ⟨err, -, hout⟩ | ⟨plan, hplan, hrest⟩
  · rw [hout] at hv
    cases hv
  · have hs := hrun.not_scheduled hst.toOnBinlog hplan
    have hres := (planSync_resolved hplan).1
    have hnames : ∀ e ∈ plan.nonBinlog, (S.runOf plan.settings e).NamesColumns :=
      fun e _ => hrun.names e
    have hselect : .message (.state v) ∈
        (plan.select S config st).messages.map Effect.message → Resting s w v := by
      intro hin
      exact hst.congr (State.getBookmark_congr
        ((syncNonBinlogStreams_elsewhere hres hnames hs st).states v hin))
    rcases hrest with ⟨err, -, hout⟩ | ⟨hnone, hout⟩
    · rw [hout] at hv
      exact hselect hv
    · rw [hout] at hv
      rcases List.mem_append.mp hv with hv | hv
      · exact hselect hv
      · have hafter : Resting s w (plan.select S config st).state :=
          hst.congr (State.getBookmark_congr (syncNonBinlogStreams_others hres hnames hs))
        exact (syncBinlogStreams_resting hrun.files hafter).1 _ hv

end Run

/-! ### The end of a snapshot -/

section Snapshot

variable {e : CatalogEntry} {s : String} {autoIncrement : String → Bool} {gtidConfig : GtidConfig}
  {run : StreamRun} {args : SyncArgs} {server : Nat → Attempt} {st : State}

/-- The server answers with the name of a file and a position in it. -/
def StreamRun.AnswersPosition (run : StreamRun) : Prop :=
  ∀ position, run.master.logFileAndPos = .ok position →
    position.1.truthy = true ∧ position.2.truthy = true

/-- A pass over a table that returns clears its window. -/
theorem FullTable.syncTable_clears
    (h : (FullTable.syncTable e autoIncrement server args st).error = none) :
    (FullTable.syncTable e autoIncrement server args st).state.getBookmark e.tapStreamId
        "max_pk_values" = .null ∧
      (FullTable.syncTable e autoIncrement server args st).state.getBookmark e.tapStreamId
        "last_pk_fetched" = .null := by
  unfold FullTable.syncTable at h ⊢
  dsimp only at h ⊢
  split
  · rename_i err herr
    simp [herr] at h
  · simp [FullTable.clearPass, State.getBookmark_clearBookmark]

theorem getBookmark_writePosition {key : String} (position : Val × Val) (gtid : Val)
    (hkey : key ∉ ["log_file", "log_pos", "gtid"]) :
    (writePosition e position gtid st).getBookmark s key = st.getBookmark s key := by
  simp only [List.mem_cons, List.not_mem_nil, or_false, not_or] at hkey
  unfold writePosition
  dsimp only
  split_ifs <;>
    simp [State.getBookmark_writeBookmark, Ne.symm hkey.1, Ne.symm hkey.2.1, Ne.symm hkey.2.2]

/-- A snapshot that returns leaves the stream on the binlog: at the position that the interrupted
one had kept, or at the one that it read first. -/
theorem doSyncHistoricalBinlog_onBinlog (hm : e.replicationMethod = .logBased)
    (hpos : run.AnswersPosition)
    (hret : (doSyncHistoricalBinlog e autoIncrement gtidConfig run st).error = none) :
    OnBinlog e.tapStreamId (doSyncHistoricalBinlog e autoIncrement gtidConfig run st).state := by
  have hstored := returned_position hm hret
  rcases doSyncHistoricalBinlog_cases e autoIncrement gtidConfig run st with
    ⟨before, st', err, -, ho⟩ | ⟨hresume, ho⟩ | ⟨hresume, position, gtid, hread, -, ho⟩
  · simp [ho, Outcome.failed] at hret
  · rw [ho, Outcome.error_after] at hret
    obtain ⟨hmax, hlast⟩ := FullTable.syncTable_clears hret
    have hkept : storedPosition e (doSyncHistoricalBinlog e autoIncrement gtidConfig run st).state =
        storedPosition e st := by
      rcases hstored with ⟨-, h⟩ | ⟨h, -⟩
      · exact h
      · rw [h] at hresume
        cases hresume
    have hgtid : (FullTable.syncTable e autoIncrement run.server (versionedArgs e run st)
        st).state.getBookmark e.tapStreamId "gtid" = st.getBookmark e.tapStreamId "gtid" :=
      (FullTable.syncTable_carries (Or.inr hm) (by decide) (by decide)
        (by simp [FullTable.generateBookmarkKeys, hm]) autoIncrement run.server rfl).1
    rw [ho] at hkept ⊢
    obtain ⟨hfile, hlogPos⟩ := Prod.mk.inj hkept
    refine ⟨?_, by simp [Outcome.after, hmax], by simp [Outcome.after, hlast]⟩
    rw [hfile, hlogPos]
    simp only [resumesSnapshot, Bool.and_eq_true, Bool.or_eq_true] at hresume
    rcases hresume.2 with ⟨-, hg⟩ | hf
    · exact .inr (by simpa [Outcome.after, hgtid] using hg)
    · exact .inl hf
  · obtain ⟨htruthy, hpos'⟩ := hpos position hread
    have hfound : storedPosition e
        (doSyncHistoricalBinlog e autoIncrement gtidConfig run st).state = position := by
      rcases hstored with ⟨h, -⟩ | ⟨-, position', hread', h⟩
      · rw [h] at hresume
        cases hresume
      · rw [h]
        exact Except.ok.inj (hread'.symm.trans hread)
    rw [ho, Outcome.error_after, startSnapshot_eq, Outcome.error_thenState] at hret
    obtain ⟨hmax, hlast⟩ := FullTable.syncTable_clears hret
    rw [ho, startSnapshot_eq, Outcome.thenState, hret] at hfound ⊢
    obtain ⟨hfile, hlogPos⟩ := Prod.mk.inj hfound
    simp only [Outcome.after] at hfile hlogPos ⊢
    refine ⟨.inl ⟨by rw [hfile]; exact htruthy, by rw [hlogPos]; exact hpos'⟩, ?_, ?_⟩
    · split_ifs
      · rw [hmax]
        rfl
      · rw [getBookmark_writePosition _ _ (by decide), hmax]
        rfl
    · split_ifs
      · rw [hlast]
        rfl
      · rw [getBookmark_writePosition _ _ (by decide), hlast]
        rfl

/-- A snapshot that returns has activated the version that it leaves in the bookmark. A snapshot
that goes on takes its version from the bookmark. -/
theorem doSyncHistoricalBinlog_activates (hm : e.replicationMethod = .logBased)
    (hversion : (st.getBookmark e.tapStreamId "max_pk_values").truthy = true →
      st.getBookmark e.tapStreamId "version" ≠ .null)
    (hret : (doSyncHistoricalBinlog e autoIncrement gtidConfig run st).error = none) :
    ∃ w, w ≠ .null ∧
      (doSyncHistoricalBinlog e autoIncrement gtidConfig run st).state.getBookmark e.tapStreamId
        "version" = w ∧
      .activateVersion e.stream w ∈
        (doSyncHistoricalBinlog e autoIncrement gtidConfig run st).messages := by
  have hkept : ∀ args st', (FullTable.syncTable e autoIncrement run.server args
      st').state.getBookmark e.tapStreamId "version" = st'.getBookmark e.tapStreamId "version" :=
    fun args st' => (FullTable.syncTable_carries (Or.inr hm) (by decide) (by decide)
      FullTable.version_mem autoIncrement run.server rfl).1
  have hactivates : ∀ args st', (FullTable.syncTable e autoIncrement run.server args
      st').error = none → .activateVersion e.stream args.streamVersion ∈
        (FullTable.syncTable e autoIncrement run.server args st').messages := by
    intro args st' h
    unfold FullTable.syncTable at h ⊢
    dsimp only at h ⊢
    split
    · rename_i err herr
      simp [herr] at h
    · simp [FullTable.activateVersion]
  refine ⟨getStreamVersion e.tapStreamId st run.now, streamVersion_ne_null _ _ _, ?_⟩
  rcases doSyncHistoricalBinlog_cases e autoIncrement gtidConfig run st with
    ⟨before, st', err, -, ho⟩ | ⟨hresume, ho⟩ | ⟨hresume, position, gtid, hread, -, ho⟩
  · simp [ho, Outcome.failed] at hret
  · rw [ho, Outcome.error_after] at hret
    rw [ho]
    refine ⟨?_, List.mem_append_right _ (hactivates _ _ hret)⟩
    simp only [resumesSnapshot, Bool.and_eq_true] at hresume
    simp only [Outcome.after, hkept]
    rcases getStreamVersion_cases st run.now e.tapStreamId with ⟨hnull, -⟩ | ⟨-, h⟩
    · exact absurd hnull (hversion hresume.1)
    · exact h.symm
  · rw [ho, Outcome.error_after, startSnapshot_eq, Outcome.error_thenState] at hret
    have hstart : (startState e autoIncrement run st position gtid).getBookmark e.tapStreamId
        "version" = getStreamVersion e.tapStreamId st run.now := by
      unfold startState
      split_ifs
      · rw [getBookmark_writePosition _ _ (by decide)]
        simp [versionedArgs]
      · simp [versionedArgs]
    rw [ho, startSnapshot_eq, Outcome.thenState, hret]
    simp only [Outcome.after]
    refine ⟨?_, ?_⟩
    · split_ifs
      · rw [hkept, hstart]
      · rw [getBookmark_writePosition _ _ (by decide), hkept, hstart]
    · rw [List.append_nil]
      exact List.mem_append_right _ (hactivates _ _ hret)

/-- A SELECT phase that returns leaves its LOG_BASED streams on the binlog. -/
theorem syncNonBinlogStreams_onBinlog {autoIncrement : CatalogEntry → String → Bool}
    {runs : CatalogEntry → StreamRun} {streams : List CatalogEntry}
    (hres : Binlog.Resolved streams) (hnames : ∀ e ∈ streams, (runs e).NamesColumns)
    (hpos : ∀ e ∈ streams, (runs e).AnswersPosition)
    (hlog : ∀ e ∈ streams, e.tapStreamId = s → e.replicationMethod = .logBased)
    (hret : (syncNonBinlogStreams autoIncrement gtidConfig runs streams st).error = none)
    (h : OnBinlog s st ∨ ∃ e ∈ streams, e.tapStreamId = s ∧ e.schema.keys ≠ []) :
    OnBinlog s (syncNonBinlogStreams autoIncrement gtidConfig runs streams st).state := by
  induction streams generalizing st with
  | nil =>
    rcases h with h | ⟨e, he, -⟩
    · exact h.congr fun key => rfl
    · cases he
  | cons e streams ih =>
    have hrest : ∀ {st}, (syncNonBinlogStreams autoIncrement gtidConfig runs streams st).error =
        none → (OnBinlog s st ∨ ∃ e ∈ streams, e.tapStreamId = s ∧ e.schema.keys ≠ []) →
        OnBinlog s (syncNonBinlogStreams autoIncrement gtidConfig runs streams st).state :=
      fun hret h => ih (fun e' he' => hres e' (List.mem_cons_of_mem _ he'))
        (fun e' he' => hnames e' (List.mem_cons_of_mem _ he'))
        (fun e' he' => hpos e' (List.mem_cons_of_mem _ he'))
        (fun e' he' => hlog e' (List.mem_cons_of_mem _ he')) hret h
    obtain ⟨-, -, -, -, -, hstate⟩ := syncStream_turn e (hres e List.mem_cons_self)
      (autoIncrement e) gtidConfig (hnames e List.mem_cons_self) st
    rw [syncNonBinlogStreams] at hret ⊢
    split_ifs at hret ⊢ with hempty
    · refine hrest hret ?_
      rcases h with h | ⟨e', he', hid, hcols⟩
      · exact .inl h
      · rcases List.mem_cons.mp he' with rfl | he'
        · exact absurd (List.isEmpty_iff.mp hempty) hcols
        · exact .inr ⟨e', he', hid, hcols⟩
    · dsimp only at hret ⊢
      split at hret
      · rename_i err herr
        rw [herr] at hret
        cases hret
      · rename_i herr
        refine hrest hret ?_
        by_cases hid : e.tapStreamId = s
        · subst hid
          have hm := hlog e List.mem_cons_self rfl
          simp only [syncStream, hm, Outcome.error_after] at herr
          refine .inl ?_
          simp only [syncStream, hm]
          exact doSyncHistoricalBinlog_onBinlog hm (hpos e List.mem_cons_self) herr
        · have hsame := State.getBookmark_congr (hstate.others s (Ne.symm hid))
          rcases h with h | ⟨e', he', hid', hcols⟩
          · exact .inl (h.congr hsame)
          · rcases List.mem_cons.mp he' with rfl | he'
            · exact absurd hid' hid
            · exact .inr ⟨e', he', hid', hcols⟩

/-- The turn of a LOG_BASED stream in a SELECT phase that returns, when it has only one. -/
theorem syncNonBinlogStreams_activates {autoIncrement : CatalogEntry → String → Bool}
    {runs : CatalogEntry → StreamRun} {streams : List CatalogEntry}
    (hres : Binlog.Resolved streams) (hnames : ∀ e ∈ streams, (runs e).NamesColumns)
    (hnodup : (idsOf streams).Nodup)
    (hversion : (st.getBookmark e.tapStreamId "max_pk_values").truthy = true →
      st.getBookmark e.tapStreamId "version" ≠ .null)
    (hret : (syncNonBinlogStreams autoIncrement gtidConfig runs streams st).error = none)
    (he : e ∈ streams) (hm : e.replicationMethod = .logBased) (hcols : e.schema.keys ≠ []) :
    ∃ w, w ≠ .null ∧
      (syncNonBinlogStreams autoIncrement gtidConfig runs streams st).state.getBookmark
        e.tapStreamId "version" = w ∧
      .activateVersion e.tapStreamId w ∈
        (syncNonBinlogStreams autoIncrement gtidConfig runs streams st).messages := by
  induction streams generalizing st with
  | nil => cases he
  | cons first streams ih =>
    have hres' : Binlog.Resolved streams := fun e' he' => hres e' (List.mem_cons_of_mem _ he')
    have hnames' : ∀ e' ∈ streams, (runs e').NamesColumns :=
      fun e' he' => hnames e' (List.mem_cons_of_mem _ he')
    obtain ⟨hnotin, hnodup'⟩ := List.nodup_cons.mp hnodup
    obtain ⟨-, -, -, -, -, hstate⟩ := syncStream_turn first (hres first List.mem_cons_self)
      (autoIncrement first) gtidConfig (hnames first List.mem_cons_self) st
    rw [syncNonBinlogStreams] at hret ⊢
    split_ifs at hret ⊢ with hempty
    · rcases List.mem_cons.mp he with rfl | he
      · exact absurd (List.isEmpty_iff.mp hempty) hcols
      · exact ih hres' hnames' hnodup' hversion hret he
    · dsimp only at hret ⊢
      split at hret
      · rename_i err herr
        rw [herr] at hret
        cases hret
      · rename_i herr
        rcases List.mem_cons.mp he with rfl | he
        · -- the later turns belong to other streams
          have hid : e.stream = e.tapStreamId := hres e List.mem_cons_self
          simp only [syncStream, hm, Outcome.error_after] at herr
          obtain ⟨w, hw, hkept, hactivated⟩ :=
            doSyncHistoricalBinlog_activates hm (by simpa using hversion) herr
          refine ⟨w, hw, ?_, List.mem_append_left _ ?_⟩
          · rw [Outcome.andThen,
              State.getBookmark_congr (syncNonBinlogStreams_others hres' hnames' hnotin)]
            simp only [syncStream, hm]
            exact hkept
          · simp only [syncStream, hm]
            exact List.mem_append_right _ (hid ▸ hactivated)
        · have hne : e.tapStreamId ≠ first.tapStreamId := fun h =>
            hnotin (h ▸ List.mem_map_of_mem he)
          have hsame := State.getBookmark_congr (hstate.others _ hne)
          obtain ⟨w, hw, hkept, hactivated⟩ :=
            ih hres' hnames' hnodup' (by simpa [hsame] using hversion) hret he
          exact ⟨w, hw, hkept, List.mem_append_right _ hactivated⟩

end Snapshot

/-! ### The version of the rows -/

section Version

variable {s : String} {w : Val} {S : Binlog.BinlogSource} {config : Binlog.BinlogConfig}
  {catalog : List CatalogEntry} {st : State}

open Binlog

/-- What is discovered under the name of the table is the table of the stream. -/
def FindsOwn (discover : ℕ → String → Except Err (List CatalogEntry)) (s table : String) : Prop :=
  ∀ n found rest, discover n table = .ok (found :: rest) →
    found.tapStreamId = s ∧ found.table = table

/-- The entry of the stream in the map belongs to its table. -/
def OwnEntry (discover : ℕ → String → Except Err (List CatalogEntry)) (s : String)
    (m : StreamsMap) : Prop :=
  ∀ entry, m.get? s = some entry →
    entry.catalogEntry.tapStreamId = s ∧ FindsOwn discover s entry.catalogEntry.table

theorem rediscover_own {env : Env} {calls : ℕ} {table : String} {new : Rediscovery}
    (h : rediscover env calls s table = .ok new) (hown : FindsOwn env.discover s table) :
    new.entry.tapStreamId = s ∧ FindsOwn env.discover s new.entry.table := by
  obtain ⟨found, rest, columns, hfound, -, rfl⟩ := rediscover_eq_ok_iff.mp h
  obtain ⟨hid, htable⟩ := hown calls found rest hfound
  exact ⟨hid, fun n found' rest' h' => by
    have h'' := hown n found' rest' (htable ▸ h')
    exact ⟨h''.1, h''.2.trans htable.symm⟩⟩

theorem reaches_ownEntry {env : Env} {v₀ v : Vars} {ds : List Delivery} {out : List Effect}
    (hr : Loop.Reaches (iteration env) v₀ ds out v)
    (h : OwnEntry env.discover s v₀.streamsMap) : OwnEntry env.discover s v.streamsMap := by
  induction hr with
  | start => exact h
  | @step ds out v d em v' _ hs ih =>
    rcases iteration_map hs with hmap | ⟨t, entry, new, hreplaces, hmap⟩
    · rw [hmap]
      exact ih
    · rw [hmap]
      intro entry' hget
      by_cases ht : t = s
      · subst ht
        rw [Dict.get?_set_self, Option.some.injEq] at hget
        subst hget
        obtain ⟨⟨-, ev, found, -, rfl, hfound, -, -, -, hre⟩, hentry, -⟩ := hreplaces
        exact rediscover_own hre (ih found hfound).2
      · rw [Dict.get?_set_ne _ _ ht] at hget
        exact ih entry' hget

/-- A row of a stream that rests carries its version. -/
theorem record_version {env : Env} {v₀ v : Vars} {ds : List Delivery} {out : List Effect}
    {d : Delivery} {row : Record} {version : Val} {time : String} (hcat : Resolved catalog)
    (hv₀ : v₀.streamsMap = generateStreamsMap catalog)
    (hown : OwnEntry env.discover s v₀.streamsMap)
    (hr : Loop.Reaches (iteration env) v₀ ds out v) (hrest : Resting s w v.state)
    (hw : w ≠ .null)
    (hx : .message (.record s row version time) ∈ (iteration env v d).emitted) : version = w := by
  rcases mem_emitted hx with ⟨hend, hin⟩ | ⟨st, hst⟩
  · obtain ⟨ev, entry, p, hd, hfound, hnamed, hp, hin⟩ := handleEvent_messages hin
    have hplaced : PlacedRows env v d ev entry p := ⟨hend, hd, hfound, hnamed, hp⟩
    rcases hin with hin | hin
    · obtain ⟨e, he⟩ := placeColumns_emitted hp _ hin
      cases he
    · obtain ⟨before, row', after, -, -, hrow⟩ := (mem_records hplaced).mp hin
      obtain ⟨record, hm, -, -⟩ := rowToSingerRecord_keys hrow
      obtain ⟨hstream, -, rfl, -⟩ := Message.record.inj hm
      have hid : ev.tapStreamId = s :=
        (placed_stream (reaches_announced hcat hv₀ hr) hplaced).symm.trans hstream.symm
      have hentry := reaches_ownEntry hr hown entry (hid ▸ hfound)
      have hp' : p.entry.catalogEntry.tapStreamId = s := by
        rcases hplaced.entry_cases with ⟨h, -⟩ | ⟨new, hreplaces, h, -⟩
        · rw [h]
          exact hentry.1
        · rw [h]
          obtain ⟨⟨-, -, found, -, -, hfound', -, -, -, hre⟩, hentry', -⟩ := hreplaces
          obtain rfl : found = entry := Option.some.inj (hfound'.symm.trans hentry')
          rw [hid] at hre
          exact (rediscover_own hre hentry.2).1
      rw [hp', getStreamVersion, hrest.version]
      cases w with
      | null => exact absurd rfl hw
      | _ => rfl
  · cases hst

end Version

/-! ### Many runs -/

section Runs

variable {s : String} {w : Val} {S : SyncSource} {config : SyncConfig}
  {catalog : List CatalogEntry} {st st₁ v : State} {plan : SyncPlan}

/-- The states that runs reach when each of them is started from a STATE of an earlier one. The
server, the settings and the catalog may change from run to run. -/
inductive Restarts (s : String) (st₀ : State) : State → Prop
  | start : Restarts s st₀ st₀
  | stopped {st v : State} {S : SyncSource} {config : SyncConfig} {catalog : List CatalogEntry} :
      Restarts s st₀ st → RunFor s S catalog →
      .message (.state v) ∈ (doSync S config catalog st).1 → Restarts s st₀ v

theorem Restarts.resting (h : Restarts s st v) (hst : Resting s w st) : Resting s w v := by
  induction h with
  | start => exact hst
  | stopped _ hrun hv ih => exact hrun.resting ih hv

/-- The LOG_BASED streams that a returned run has snapshotted follow the binlog. -/
theorem RunFor.onBinlog (hrun : RunFor s S catalog) (hpos : ∀ e, (S.runs e).AnswersPosition)
    (hplan : planSync S config catalog st = .ok plan)
    (hret : (doSync S config catalog st).2 = .ok st₁)
    (he : ∃ e ∈ plan.nonBinlog, e.tapStreamId = s ∧ e.schema.keys ≠ []) : OnBinlog s st₁ := by
  rcases doSync_cases S config catalog st with ⟨err, hout, -⟩ | ⟨plan', hplan', hrest⟩
  · rw [hplan] at hout
    cases hout
  · obtain rfl : plan' = plan := Except.ok.inj (hplan'.symm.trans hplan)
    have hlog : ∀ e ∈ plan'.nonBinlog, e.tapStreamId = s → e.replicationMethod = .logBased :=
      fun e he hid => hrun.logBased_of_scheduled hplan he hid
    rcases hrest with ⟨err, -, hout⟩ | ⟨hnone, hout⟩
    · rw [hout] at hret
      cases hret
    · rw [hout] at hret
      have hselect : OnBinlog s (plan'.select S config st).state :=
        syncNonBinlogStreams_onBinlog (planSync_resolved hplan).1 (fun e _ => hrun.names e)
          (fun e _ => hpos e) hlog hnone (.inr he)
      exact ((syncBinlogStreams_resting hrun.files ⟨hselect, rfl⟩).2 st₁ hret).toOnBinlog

/-- A snapshot is taken once. After a run that returned, no run of any chain of restarts schedules
the stream for a snapshot again, wherever the runs in between were stopped. -/
theorem snapshot_taken_once (hrun : RunFor s S catalog)
    (hpos : ∀ e, (S.runs e).AnswersPosition)
    (hplan : planSync S config catalog st = .ok plan)
    (hret : (doSync S config catalog st).2 = .ok st₁)
    (he : ∃ e ∈ plan.nonBinlog, e.tapStreamId = s ∧ e.schema.keys ≠ [])
    (hv : Restarts s st₁ v) :
    OnBinlog s v ∧ ∀ S' config' catalog' plan', RunFor s S' catalog' →
      planSync S' config' catalog' v = .ok plan' → s ∉ idsOf plan'.nonBinlog := by
  have hafter : OnBinlog s v :=
    (hv.resting ⟨hrun.onBinlog hpos hplan hret he, rfl⟩).toOnBinlog
  exact ⟨hafter, fun S' config' catalog' plan' hrun' hplan' => hrun'.not_scheduled hafter hplan'⟩

/-- What a discovery of the run finds for the table of the stream is its own table. -/
def FindsOwnTable (s : String) (S : SyncSource) (catalog : List CatalogEntry) : Prop :=
  ∀ e ∈ catalog, e.tapStreamId = s → FindsOwn S.binlog.discover s e.table

theorem getBinlogStreams_mem {discovered streams : List CatalogEntry}
    (h : getBinlogStreams discovered catalog st = .ok streams) :
    ∀ e ∈ streams, ∃ entry ∈ catalog,
      e.tapStreamId = entry.tapStreamId ∧ e.table = entry.table := by
  intro e he
  obtain ⟨entry, hentry, table, columns, -, -, rfl⟩ := resolveCatalog_mem h e he
  exact ⟨entry, (List.mem_filter.mp (List.mem_filter.mp hentry).1).1, rfl, rfl⟩

theorem ownEntry_generateStreamsMap {discovered streams : List CatalogEntry}
    (hown : FindsOwnTable s S catalog)
    (h : getBinlogStreams discovered catalog st = .ok streams) :
    OwnEntry S.binlog.discover s (Binlog.generateStreamsMap streams) := by
  intro entry hget
  obtain ⟨e, he, hid, rfl⟩ := Binlog.generateStreamsMap_get? hget
  obtain ⟨input, hinput, hid', htable⟩ := getBinlogStreams_mem h e he
  refine ⟨hid, ?_⟩
  show FindsOwn S.binlog.discover s e.table
  rw [htable]
  exact hown input hinput (hid'.symm.trans hid)

/-- A binlog sync writes the rows of a stream that rests with its version. -/
theorem syncBinlogStreams_version {discovered streams : List CatalogEntry} {row : Record}
    {version : Val} {time : String} {bconfig : Binlog.BinlogConfig}
    (hfiles : S.binlog.NamesFiles (· ≠ "")) (hown : FindsOwnTable s S catalog)
    (hstreams : getBinlogStreams discovered catalog st = .ok streams) {start : State}
    (hstart : Resting s w start) (hw : w ≠ .null)
    (hx : .message (.record s row version time) ∈
      (Binlog.syncBinlogStreams S.binlog bconfig streams start).1) : version = w := by
  unfold Binlog.syncBinlogStreams at hx
  split_ifs at hx
  · cases hx
  · rcases List.mem_append.mp hx with hx | hx
    · obtain ⟨e, -, he⟩ := List.mem_map.mp hx
      cases he
    · rcases Binlog.syncBinlogStream_effects S.binlog bconfig (Binlog.generateStreamsMap streams)
        start with ⟨e, -, he⟩ | ⟨r, hr, last, hrun, hlast⟩
      · rw [he] at hx
        cases hx
      · rw [hrun] at hx
        rcases List.mem_append.mp hx with hx | hx
        · obtain ⟨hstate, henv, reader, hdeliveries⟩ := Binlog.prepareRun_eq hr
          rcases Loop.mem_run hx with ⟨a, d, b, out, v, hds, hreach, hin⟩ | ⟨out, v, -, hin⟩
          · have hhead : Binlog.HeadKeeps (Binlog.generateStreamsMap streams) (Resting s w) v :=
              Binlog.reaches_keeps (keptByUpdates_resting _ s w) hreach
                (fun d' hd' => hfiles reader d' (by
                  rw [← hdeliveries, hds]
                  exact List.mem_append_left _ hd'))
                ⟨rfl, by
                  show Resting s w r.state
                  rw [hstate]
                  exact hstart.whitelistStreams _⟩
            exact record_version (Binlog.resolveCatalog_resolved hstreams) rfl
              (henv ▸ ownEntry_generateStreamsMap hown hstreams) hreach hhead.state hw hin
          · cases hf : r.failure <;> simp [hf, Binlog.readerEnd] at hin
        · obtain ⟨st', hst'⟩ := hlast _ hx
          cases hst'

/-- A row of the stream carries the version, and nothing else is said about its rows. -/
def KeepsVersion (s : String) (w : Val) (m : Message) : Prop :=
  m.dataOf? = some s → ∃ row time, m = .record s row w time

theorem RunFor.keepsVersion (hrun : RunFor s S catalog) (hown : FindsOwnTable s S catalog)
    (hst : Resting s w st) (hw : w ≠ .null) {m : Message}
    (hm : .message m ∈ (doSync S config catalog st).1) : KeepsVersion s w m := by
  intro hdata
  rcases doSync_cases S config catalog st with ⟨err, -, hout⟩ | ⟨plan, hplan, hrest⟩
  · rw [hout] at hm
    cases hm
  · have hs := hrun.not_scheduled hst.toOnBinlog hplan
    have hres := (planSync_resolved hplan).1
    have hnames : ∀ e ∈ plan.nonBinlog, (S.runOf plan.settings e).NamesColumns :=
      fun e _ => hrun.names e
    have hselect : .message m ∉ (plan.select S config st).messages.map Effect.message :=
      fun hin => (syncNonBinlogStreams_elsewhere hres hnames hs st).data m hin hdata
    rcases hrest with ⟨err, -, hout⟩ | ⟨hnone, hout⟩
    · rw [hout] at hm
      exact absurd hm hselect
    · rw [hout] at hm
      have hbinlog := (List.mem_append.mp hm).resolve_left hselect
      have hafter : Resting s w (plan.select S config st).state :=
        hst.congr (State.getBookmark_congr (syncNonBinlogStreams_others hres hnames hs))
      obtain ⟨-, discovered₂, -, -, -, hstreams, -⟩ := planSync_ok hplan
      have hturn := (syncBinlogStreams_resting hrun.files hafter).1 _ hbinlog
      cases m with
      | record t row version time =>
        obtain rfl : t = s := Option.some.inj hdata
        obtain rfl := syncBinlogStreams_version hrun.files hown hstreams hafter hw hbinlog
        exact ⟨row, time, rfl⟩
      | batch => exact hturn.elim
      | activateVersion => exact hturn.elim
      | _ => cases hdata

/-- The version that a snapshot activates is the version of every later row of the stream: in no
run of any chain of restarts is another one activated, or a row written with another one. -/
theorem snapshot_version_stays (hrun : RunFor s S catalog)
    (hpos : ∀ e, (S.runs e).AnswersPosition)
    (hplan : planSync S config catalog st = .ok plan) (hnodup : (idsOf plan.nonBinlog).Nodup)
    (hversion : (st.getBookmark s "max_pk_values").truthy = true →
      st.getBookmark s "version" ≠ .null)
    (hret : (doSync S config catalog st).2 = .ok st₁)
    (he : ∃ e ∈ plan.nonBinlog, e.tapStreamId = s ∧ e.schema.keys ≠ []) :
    ∃ w, .message (.activateVersion s w) ∈ (doSync S config catalog st).1 ∧
      ∀ v, Restarts s st₁ v → ∀ S' config' catalog', RunFor s S' catalog' →
        FindsOwnTable s S' catalog' → ∀ m, .message m ∈ (doSync S' config' catalog' v).1 →
          KeepsVersion s w m := by
  have honBinlog := hrun.onBinlog hpos hplan hret he
  obtain ⟨e, he, rfl, hcols⟩ := he
  have hm := hrun.logBased_of_scheduled hplan he rfl
  rcases doSync_cases S config catalog st with ⟨err, hout, -⟩ | ⟨plan', hplan', hrest⟩
  · rw [hplan] at hout
    cases hout
  · obtain rfl : plan' = plan := Except.ok.inj (hplan'.symm.trans hplan)
    rcases hrest with ⟨err, -, hout⟩ | ⟨hnone, hout⟩
    · rw [hout] at hret
      cases hret
    · have hnames : ∀ e ∈ plan'.nonBinlog, (S.runOf plan'.settings e).NamesColumns :=
        fun e _ => hrun.names e
      obtain ⟨w, hw, hkept, hactivated⟩ := syncNonBinlogStreams_activates
        (planSync_resolved hplan).1 hnames hnodup hversion hnone he hm hcols
      rw [hout] at hret
      have hselect : Resting e.tapStreamId w (plan'.select S config st).state :=
        ⟨syncNonBinlogStreams_onBinlog (planSync_resolved hplan).1 hnames (fun e _ => hpos e)
          (fun e' he' hid => hrun.logBased_of_scheduled hplan he' hid) hnone
          (.inr ⟨e, he, rfl, hcols⟩), hkept⟩
      have hrest : Resting e.tapStreamId w st₁ :=
        (syncBinlogStreams_resting hrun.files hselect).2 st₁ hret
      refine ⟨w, ?_, fun v hv S' config' catalog' hrun' hown m hm => ?_⟩
      · rw [hout]
        exact List.mem_append_left _ (List.mem_map_of_mem hactivated)
      · exact hrun'.keepsVersion hown (hv.resting hrest) hw hm

end Runs

/-! ### A snapshot and what follows it -/

namespace Sample

theorem server_runFor {ds : List Binlog.Delivery} (hds : ∀ d ∈ ds, d.NamesFiles (· ≠ "")) :
    RunFor "db-t" (server ds) [Binlog.Sample.entry] where
  logBased := by decide
  files := fun _ => hds
  names := server_namesColumns ds

theorem server_answersPosition (e : CatalogEntry) : ((server []).runs e).AnswersPosition := by
  rintro position ⟨⟩
  exact ⟨rfl, rfl⟩

theorem firstPlan_scheduled :
    ∃ e ∈ firstPlan.nonBinlog, e.tapStreamId = "db-t" ∧ e.schema.keys ≠ [] :=
  ⟨_, List.mem_cons_self, rfl, by decide⟩

/-- The state that the run with the snapshot of `db.t` returns, with the version 9. -/
def returnedState : State :=
  match (doSync (server []) settings [Binlog.Sample.entry] State.empty).2 with
  | .ok st => st
  | .error _ => State.empty

theorem deleteOne_namesFiles : ∀ d ∈ [Binlog.Sample.deleteOne], d.NamesFiles (· ≠ "") := by
  simp [Binlog.Delivery.NamesFiles, Binlog.Sample.deleteOne]

/-- The last STATE of a second run, which reads the delete of the row in the binlog. -/
def deletedState : State :=
  returnedState.writeBookmark "db-t" "log_pos" (.int 500)

theorem deletedState_written :
    .message (.state deletedState) ∈ (doSync (server [Binlog.Sample.deleteOne]) settings
      [Binlog.Sample.entry] returnedState).1 := by
  decide

/-- The run that was stopped after its last STATE, before it returned. -/
theorem deletedState_restarts : Restarts "db-t" returnedState deletedState :=
  .stopped .start (server_runFor deleteOne_namesFiles) deletedState_written

/-- A row that is written after the second run. -/
def insertLater : Binlog.Delivery :=
  { Binlog.Sample.deleteOne with event := .rows (Binlog.Sample.insert "t" 1), logPos := 600 }

def laterServer : SyncSource :=
  { server [insertLater] with
    binlog := { Binlog.Sample.source [insertLater] with
      fetchCurrentLogFileAndPos := .ok ("bin.1", 700) } }

theorem laterServer_runFor : RunFor "db-t" laterServer [Binlog.Sample.entry] where
  logBased := by decide
  files := by
    intro _ d hd
    obtain rfl := List.mem_singleton.mp hd
    exact ⟨by decide, fun _ _ h => nomatch h⟩
  names := fun _ _ _ => rfl

theorem laterServer_findsOwnTable : FindsOwnTable "db-t" laterServer [Binlog.Sample.entry] := by
  intro e he _ n found rest h
  obtain rfl := List.mem_singleton.mp he
  cases h
  exact ⟨rfl, rfl⟩

end Sample

/-- A second run reads a delete in the binlog, and is stopped at its last STATE. -/
theorem snapshot_taken_once_deleted :
    Sample.deletedState.getBookmark "db-t" "log_pos" ≠
        Sample.returnedState.getBookmark "db-t" "log_pos" ∧
      OnBinlog "db-t" Sample.deletedState ∧
      ∀ S' config' catalog' plan', RunFor "db-t" S' catalog' →
        planSync S' config' catalog' Sample.deletedState = .ok plan' →
          "db-t" ∉ idsOf plan'.nonBinlog :=
  ⟨by decide, snapshot_taken_once (Sample.server_runFor (by simp)) Sample.server_answersPosition
    (Sample.firstPlan_eq []) rfl Sample.firstPlan_scheduled Sample.deletedState_restarts⟩

/-- A third run writes the row that is inserted after the delete, with the version of the
snapshot. -/
theorem snapshot_version_stays_inserted :
    .message (.activateVersion "db-t" (.int 9)) ∈
        (doSync (Sample.server []) Sample.settings [Binlog.Sample.entry] State.empty).1 ∧
      .message (.record "db-t" (Dict.ofList [("id", .int 1)]) (.int 9) "now") ∈
        (doSync Sample.laterServer Sample.settings [Binlog.Sample.entry] Sample.deletedState).1 ∧
      ∀ m, .message m ∈
          (doSync Sample.laterServer Sample.settings [Binlog.Sample.entry] Sample.deletedState).1 →
        KeepsVersion "db-t" (.int 9) m := by
  have hrow : .message (.record "db-t" (Dict.ofList [("id", .int 1)]) (.int 9) "now") ∈
      (doSync Sample.laterServer Sample.settings [Binlog.Sample.entry] Sample.deletedState).1 := by
    decide
  obtain ⟨w, hactivated, hstays⟩ := snapshot_version_stays (Sample.server_runFor (by simp))
    Sample.server_answersPosition (Sample.firstPlan_eq []) (by decide) (by decide) rfl
    Sample.firstPlan_scheduled
  have hlater := hstays Sample.deletedState Sample.deletedState_restarts Sample.laterServer
    Sample.settings _ Sample.laterServer_runFor Sample.laterServer_findsOwnTable
  obtain ⟨_, _, heq⟩ := hlater _ hrow rfl
  obtain rfl : Val.int 9 = w := by
    cases heq
    rfl
  exact ⟨hactivated, hrow, hlater⟩

end TapMysql
