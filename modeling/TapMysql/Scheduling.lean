import TapMysql.Discovery

/-!
# Which streams a run syncs, and in which order

`get_non_binlog_streams` and `get_binlog_streams` classify the selected streams of the catalog
by their bookmarks. A stream that the state names as currently syncing is looked for among the
streams with a bookmark only, and removed from the others, so it is lost when it has none.
-/

namespace TapMysql

/-! ### The code -/

def binlogStreamRequiresHistorical (e : CatalogEntry) (st : State) : Bool :=
  let bookmark := fun key => (st.getBookmark e.tapStreamId key).truthy
  !(((bookmark "log_file" && bookmark "log_pos") || bookmark "gtid") &&
    (!bookmark "max_pk_values" && !bookmark "last_pk_fetched"))

def isLogBased (e : CatalogEntry) : Bool := decide (e.replicationMethod = .logBased)

def isValidCurrentlySyncingStream (e : CatalogEntry) (st : State) : Bool :=
  if !isLogBased e then true
  else if isLogBased e && binlogStreamRequiresHistorical e st then true
  else false

/-- `state.get('bookmarks', {}).get(tap_stream_id)`, as a condition. -/
def hasState (st : State) (e : CatalogEntry) : Bool := !(st.bookmark e.tapStreamId).isEmpty

def isViewError (e : CatalogEntry) : Err :=
  ⟨.exception, "Unable to replicate stream(" ++ e.stream ++ ") with binlog because it is a view."⟩

/-- The loop over the selected streams: those without state and those with state. -/
def splitByState (st : State) :
    List CatalogEntry → Except Err (List CatalogEntry × List CatalogEntry)
  | [] => .ok ([], [])
  | e :: rest =>
    if hasState st e && isLogBased e && binlogStreamRequiresHistorical e st && e.getIsView then
      .error (isViewError e)
    else
      match splitByState st rest with
      | .error err => .error err
      | .ok (streamsWithoutState, streamsWithState) =>
        if !hasState st e then .ok (e :: streamsWithoutState, streamsWithState)
        else if isLogBased e && binlogStreamRequiresHistorical e st then
          .ok (streamsWithoutState, e :: streamsWithState)
        else if !isLogBased e then .ok (streamsWithoutState, e :: streamsWithState)
        else .ok (streamsWithoutState, streamsWithState)

/-- `singer.get_currently_syncing`, when it counts as set. -/
def State.currentlySyncing? (st : State) : Option String :=
  match st.currentlySyncing with
  | some s => if s = "" then none else some s
  | none => none

def streamsToSync (st : State) (streamsWithoutState streamsWithState : List CatalogEntry) :
    List CatalogEntry :=
  match st.currentlySyncing? with
  | none => streamsWithoutState ++ streamsWithState
  | some s =>
    (streamsWithState.filter fun e =>
      decide (e.tapStreamId = s) && isValidCurrentlySyncingStream e st) ++
    (streamsWithoutState ++ streamsWithState).filter fun e => !decide (e.tapStreamId = s)

def getNonBinlogStreams (discovered catalog : List CatalogEntry) (st : State) :
    Except Err (List CatalogEntry) :=
  match splitByState st (catalog.filter CatalogEntry.streamIsSelected) with
  | .error e => .error e
  | .ok (streamsWithoutState, streamsWithState) =>
    resolveCatalog discovered (streamsToSync st streamsWithoutState streamsWithState)

def getBinlogStreams (discovered catalog : List CatalogEntry) (st : State) :
    Except Err (List CatalogEntry) :=
  resolveCatalog discovered ((catalog.filter CatalogEntry.streamIsSelected).filter fun e =>
    isLogBased e && !binlogStreamRequiresHistorical e st)

/-! ### The schedule it is meant to compute -/

section Schedule

variable (st : State)

def isBinlogStream (e : CatalogEntry) : Bool :=
  isLogBased e && !binlogStreamRequiresHistorical e st

/-- Is the stream the one that the state names as currently syncing? -/
def isCurrentlySyncing (e : CatalogEntry) : Bool :=
  decide (st.currentlySyncing? = some e.tapStreamId)

/-- The SELECT-based streams: the one currently syncing first, then those without a bookmark,
then those with one, each group in catalog order. -/
def selectSchedule (selected : List CatalogEntry) : List CatalogEntry :=
  let selectBased := selected.filter fun e => !isBinlogStream st e
  let others := selectBased.filter fun e => !isCurrentlySyncing st e
  selectBased.filter (isCurrentlySyncing st) ++
    ((others.filter fun e => !hasState st e) ++ others.filter (hasState st))

def idsOf (streams : List CatalogEntry) : List String := streams.map CatalogEntry.tapStreamId

/-- Every selected stream is scheduled exactly once, in the right list and in order. -/
structure ScheduledOnce (catalog nonBinlog binlog : List CatalogEntry) : Prop where
  once : ∀ e ∈ catalog, e.streamIsSelected = true →
    (idsOf nonBinlog ++ idsOf binlog).count e.tapStreamId = 1
  binlog_iff : ∀ e ∈ catalog, e.streamIsSelected = true →
    (e.tapStreamId ∈ idsOf binlog ↔ isBinlogStream st e = true)
  order : idsOf nonBinlog = idsOf (selectSchedule st (catalog.filter CatalogEntry.streamIsSelected))

/-- The state names a selected stream that has no bookmark as currently syncing. -/
def InterruptedWithoutBookmark (catalog : List CatalogEntry) : Prop :=
  ∃ e ∈ catalog, e.streamIsSelected = true ∧ isCurrentlySyncing st e = true ∧ hasState st e = false

end Schedule

/-! ### Classification -/

theorem getBookmark_of_not_hasState {st : State} {e : CatalogEntry} (h : hasState st e = false)
    (key : String) : st.getBookmark e.tapStreamId key = .null := by
  have hempty : (st.bookmark e.tapStreamId).entries = [] := by
    simpa [hasState, Dict.isEmpty] using h
  simp [State.getBookmark, Dict.get?, hempty, Dict.assocGet]

theorem requiresHistorical_of_not_hasState {st : State} {e : CatalogEntry}
    (h : hasState st e = false) : binlogStreamRequiresHistorical e st = true := by
  simp [binlogStreamRequiresHistorical, getBookmark_of_not_hasState h]

theorem not_isBinlogStream_of_not_hasState {st : State} {e : CatalogEntry}
    (h : hasState st e = false) : isBinlogStream st e = false := by
  simp [isBinlogStream, requiresHistorical_of_not_hasState h]

theorem splitByState_eq (st : State) (selected : List CatalogEntry)
    (hview : ∀ e ∈ selected, e.getIsView = false) :
    splitByState st selected = .ok (selected.filter fun e => !hasState st e,
      selected.filter fun e => hasState st e && !isBinlogStream st e) := by
  induction selected with
  | nil => rfl
  | cons e rest ih =>
    have hrest := ih fun e' he' => hview e' (List.mem_cons_of_mem _ he')
    simp only [splitByState, hview e List.mem_cons_self, Bool.and_false, Bool.false_eq_true,
      if_false, hrest, List.filter_cons]
    cases hs : hasState st e with
    | false => simp
    | true =>
      cases hl : isLogBased e with
      | false => simp [isBinlogStream, hl]
      | true => cases hh : binlogStreamRequiresHistorical e st <;> simp [isBinlogStream, hl, hh]

theorem isValidCurrentlySyncingStream_eq (st : State) (e : CatalogEntry) :
    isValidCurrentlySyncingStream e st = !isBinlogStream st e := by
  unfold isValidCurrentlySyncingStream isBinlogStream
  cases isLogBased e <;> cases binlogStreamRequiresHistorical e st <;> rfl

/-! ### Once -/

section Once

variable {st : State} {catalog discovered₁ discovered₂ : List CatalogEntry}

theorem selectSchedule_perm (st : State) (selected : List CatalogEntry) :
    (selectSchedule st selected ++ selected.filter (isBinlogStream st)).Perm selected := by
  have hstate := List.filter_append_perm (fun e => !hasState st e)
    ((selected.filter fun e => !isBinlogStream st e).filter fun e => !isCurrentlySyncing st e)
  have hcurrent := List.filter_append_perm (isCurrentlySyncing st)
    (selected.filter fun e => !isBinlogStream st e)
  have hbinlog := List.filter_append_perm (fun e => !isBinlogStream st e) selected
  simp only [Bool.not_not] at hstate hbinlog
  have hselect := (hstate.append_left _).trans hcurrent
  exact (hselect.append_right _).trans hbinlog

/-- When the stream currently syncing has a bookmark, the code builds the schedule. -/
theorem streamsToSync_eq (st : State) (selected : List CatalogEntry)
    (h : ∀ e ∈ selected, isCurrentlySyncing st e = true → hasState st e = true) :
    streamsToSync st (selected.filter fun e => !hasState st e)
      (selected.filter fun e => hasState st e && !isBinlogStream st e) =
    selectSchedule st selected := by
  have hwithout : ∀ e, (!hasState st e) = (!hasState st e && !isBinlogStream st e) := fun e => by
    cases hs : hasState st e with
    | false => simp [not_isBinlogStream_of_not_hasState hs]
    | true => rfl
  unfold streamsToSync selectSchedule
  cases hc : st.currentlySyncing? with
  | none =>
    have hnot : ∀ e, isCurrentlySyncing st e = false := fun e => by simp [isCurrentlySyncing, hc]
    simp only [List.filter_filter, hnot, Bool.not_false, Bool.true_and, Bool.false_and,
      List.filter_false, List.nil_append]
    congr 1
    exact List.filter_congr fun e _ => hwithout e
  | some s =>
    have hcur : ∀ e, isCurrentlySyncing st e = decide (e.tapStreamId = s) := fun e => by
      simp [isCurrentlySyncing, hc, eq_comm]
    simp only [List.filter_append, List.filter_filter]
    congr 1
    · refine List.filter_congr fun e he => ?_
      have hstate := h e he
      rw [hcur] at hstate ⊢
      rw [isValidCurrentlySyncingStream_eq]
      cases hid : decide (e.tapStreamId = s) with
      | false => simp
      | true => simp [hstate hid]
    · congr 1
      · refine List.filter_congr fun e _ => ?_
        rw [hcur, hwithout e]
        cases decide (e.tapStreamId = s) <;> cases hasState st e <;> simp
      · refine List.filter_congr fun e _ => ?_
        rw [hcur]
        cases decide (e.tapStreamId = s) <;> cases hasState st e <;> simp

/-- A stream currently syncing without a bookmark is in neither part of the code's list. -/
theorem not_mem_streamsToSync {selected : List CatalogEntry}
    (hnodup : (idsOf selected).Nodup) {e : CatalogEntry} (he : e ∈ selected)
    (hc : isCurrentlySyncing st e = true) (hs : hasState st e = false) :
    e.tapStreamId ∉ idsOf (streamsToSync st (selected.filter fun e => !hasState st e)
      (selected.filter fun e => hasState st e && !isBinlogStream st e)) := by
  intro hmem
  obtain ⟨e', he', hid⟩ := List.mem_map.mp hmem
  have hcur : st.currentlySyncing? = some e.tapStreamId := by simpa [isCurrentlySyncing] using hc
  simp only [streamsToSync, hcur, List.mem_append, List.mem_filter, hid, decide_true,
    Bool.not_true, Bool.false_eq_true, and_false, or_false, Bool.and_eq_true] at he'
  obtain rfl : e' = e := List.inj_on_of_nodup_map hnodup he'.1.1 he hid
  rw [hs] at he'
  exact Bool.false_ne_true he'.1.2.1

theorem nodup_selected (hnodup : (idsOf catalog).Nodup) :
    (idsOf (catalog.filter CatalogEntry.streamIsSelected)).Nodup :=
  hnodup.sublist (List.filter_sublist.map _)

theorem getStreams_ids (st : State) (hinc₁ : InclusionsKnown discovered₁)
    (hinc₂ : InclusionsKnown discovered₂)
    (hex : ∀ e ∈ catalog, e.streamIsSelected = true →
      (getStream discovered₁ e.tapStreamId).isSome ∧ (getStream discovered₂ e.tapStreamId).isSome)
    (hview : ∀ e ∈ catalog, e.streamIsSelected = true → e.getIsView = false) :
    ∃ nonBinlog binlog, getNonBinlogStreams discovered₁ catalog st = .ok nonBinlog ∧
      getBinlogStreams discovered₂ catalog st = .ok binlog ∧
      idsOf nonBinlog = idsOf (streamsToSync st
        ((catalog.filter CatalogEntry.streamIsSelected).filter fun e => !hasState st e)
        ((catalog.filter CatalogEntry.streamIsSelected).filter fun e =>
          hasState st e && !isBinlogStream st e)) ∧
      idsOf binlog =
        idsOf ((catalog.filter CatalogEntry.streamIsSelected).filter (isBinlogStream st)) := by
  have hsplit := splitByState_eq st (catalog.filter CatalogEntry.streamIsSelected) fun e he =>
    hview e (List.mem_filter.mp he).1 (List.mem_filter.mp he).2
  have hsub : ∀ e ∈ streamsToSync st
      ((catalog.filter CatalogEntry.streamIsSelected).filter fun e => !hasState st e)
      ((catalog.filter CatalogEntry.streamIsSelected).filter fun e =>
        hasState st e && !isBinlogStream st e), e ∈ catalog ∧ e.streamIsSelected = true := by
    intro e he
    rw [streamsToSync] at he
    split at he <;> simp only [List.mem_append, List.mem_filter] at he <;> tauto
  obtain ⟨nonBinlog, hnb, hids₁⟩ := resolveCatalog_ids hinc₁ (streamsToSync st
      ((catalog.filter CatalogEntry.streamIsSelected).filter fun e => !hasState st e)
      ((catalog.filter CatalogEntry.streamIsSelected).filter fun e =>
        hasState st e && !isBinlogStream st e)) fun e he =>
    (hex e (hsub e he).1 (hsub e he).2).1
  obtain ⟨binlog, hb, hids₂⟩ := resolveCatalog_ids hinc₂
      ((catalog.filter CatalogEntry.streamIsSelected).filter (isBinlogStream st)) fun e he => by
    have hin := List.mem_filter.mp (List.mem_filter.mp he).1
    exact (hex e hin.1 hin.2).2
  refine ⟨nonBinlog, binlog, ?_, hb, hids₁, hids₂⟩
  rw [getNonBinlogStreams, hsplit]
  exact hnb

/-- Every selected stream is scheduled exactly once, unless the state names one that has no
bookmark as currently syncing. -/
theorem scheduled_once_iff (hnodup : (idsOf catalog).Nodup)
    (hinc₁ : InclusionsKnown discovered₁) (hinc₂ : InclusionsKnown discovered₂)
    (hex : ∀ e ∈ catalog, e.streamIsSelected = true →
      (getStream discovered₁ e.tapStreamId).isSome ∧ (getStream discovered₂ e.tapStreamId).isSome)
    (hview : ∀ e ∈ catalog, e.streamIsSelected = true → e.getIsView = false) :
    (∃ nonBinlog binlog, getNonBinlogStreams discovered₁ catalog st = .ok nonBinlog ∧
      getBinlogStreams discovered₂ catalog st = .ok binlog ∧
      ScheduledOnce st catalog nonBinlog binlog) ↔ ¬ InterruptedWithoutBookmark st catalog := by
  obtain ⟨nonBinlog, binlog, hnb, hb, hids₁, hids₂⟩ :=
    getStreams_ids st hinc₁ hinc₂ hex hview
  have hsel := nodup_selected hnodup
  constructor
  · rintro ⟨nonBinlog', binlog', hnb', hb', hsched⟩ ⟨e, he, hse, hcur, hstate⟩
    rw [hnb, Except.ok.injEq] at hnb'
    rw [hb, Except.ok.injEq] at hb'
    subst hnb' hb'
    have hmem : e ∈ catalog.filter CatalogEntry.streamIsSelected := List.mem_filter.mpr ⟨he, hse⟩
    have hnot₁ : e.tapStreamId ∉ idsOf nonBinlog := by
      rw [hids₁]
      exact not_mem_streamsToSync hsel hmem hcur hstate
    have hnot₂ : e.tapStreamId ∉ idsOf binlog := fun h => by
      have hbinlog := (hsched.binlog_iff e he hse).mp h
      rw [not_isBinlogStream_of_not_hasState hstate] at hbinlog
      exact Bool.false_ne_true hbinlog
    have hzero : (idsOf nonBinlog ++ idsOf binlog).count e.tapStreamId = 0 :=
      List.count_eq_zero.mpr fun h => (List.mem_append.mp h).elim hnot₁ hnot₂
    rw [hsched.once e he hse] at hzero
    exact Nat.one_ne_zero hzero
  · intro hnot
    have heq := streamsToSync_eq st (catalog.filter CatalogEntry.streamIsSelected)
      fun e he hcur => by
        by_contra hstate
        obtain ⟨hin, hse⟩ := List.mem_filter.mp he
        exact hnot ⟨e, hin, hse, hcur, by simpa using hstate⟩
    rw [heq] at hids₁
    refine ⟨nonBinlog, binlog, hnb, hb, ?_, ?_, hids₁⟩
    · intro e he hse
      have hperm := (selectSchedule_perm st (catalog.filter CatalogEntry.streamIsSelected)).map
        CatalogEntry.tapStreamId
      rw [hids₁, hids₂, idsOf, idsOf, ← List.map_append, hperm.count_eq]
      exact List.count_eq_one_of_mem hsel
        (List.mem_map_of_mem (List.mem_filter.mpr ⟨he, hse⟩))
    · intro e he hse
      have hin : e ∈ catalog.filter CatalogEntry.streamIsSelected := List.mem_filter.mpr ⟨he, hse⟩
      rw [hids₂]
      constructor
      · intro hmem
        obtain ⟨e', he', hid⟩ := List.mem_map.mp hmem
        obtain ⟨hin', hbin⟩ := List.mem_filter.mp he'
        rwa [← List.inj_on_of_nodup_map hsel hin' hin hid]
      · intro hbin
        exact List.mem_map_of_mem (List.mem_filter.mpr ⟨hin, hbin⟩)

end Once

/-! ### A run interrupted before its first bookmark -/

namespace Sample

def fullTableEntry : CatalogEntry where
  tapStreamId := "db-t"
  stream := "t"
  table := "t"
  metadata := Dict.ofList
    [([], Dict.ofList [("selected", .bool true), ("replication-method", .str "FULL_TABLE")])]
  schema := Dict.ofList [("id", { PropSchema.blank with inclusion := some .automatic })]

/-- The state that `sync_non_binlog_streams` writes when it begins the stream. -/
def begunState : State := State.empty.setCurrentlySyncing (some "db-t")

end Sample

theorem begun_stream_not_scheduled :
    ¬ ∃ nonBinlog binlog,
      getNonBinlogStreams [Sample.fullTableEntry] [Sample.fullTableEntry] Sample.begunState =
        .ok nonBinlog ∧
      getBinlogStreams [Sample.fullTableEntry] [Sample.fullTableEntry] Sample.begunState =
        .ok binlog ∧
      ScheduledOnce Sample.begunState [Sample.fullTableEntry] nonBinlog binlog := by
  intro h
  obtain ⟨nonBinlog, binlog, hnb, hb, hsched⟩ := h
  have hnb' : getNonBinlogStreams [Sample.fullTableEntry] [Sample.fullTableEntry]
      Sample.begunState = .ok [] := rfl
  have hb' : getBinlogStreams [Sample.fullTableEntry] [Sample.fullTableEntry]
      Sample.begunState = .ok [] := rfl
  rw [hnb, Except.ok.injEq] at hnb'
  rw [hb, Except.ok.injEq] at hb'
  subst hnb' hb'
  exact absurd (hsched.once Sample.fullTableEntry (by simp) rfl) (by decide)

namespace Sample

def scheduledEntry (table method : String) : CatalogEntry where
  tapStreamId := "db-" ++ table
  stream := table
  table := table
  metadata := Dict.ofList
    [([], Dict.ofList [("selected", .bool true), ("replication-method", .str method)])]
  schema := Dict.ofList [("id", { PropSchema.blank with inclusion := some .automatic })]

/-- Streams of all methods, and one that is not selected. -/
def mixedCatalog : List CatalogEntry :=
  [scheduledEntry "resumed" "FULL_TABLE", scheduledEntry "fresh" "FULL_TABLE",
    scheduledEntry "replicated" "LOG_BASED", scheduledEntry "snapshot" "LOG_BASED",
    scheduledEntry "increments" "INCREMENTAL", scheduledEntry "unseen" "LOG_BASED",
    { scheduledEntry "ignored" "FULL_TABLE" with metadata := Dict.empty }]

/-- The run was stopped in `increments`. Two streams have log positions, one of them with a
snapshot under way; two streams have no bookmark. -/
def mixedState : State :=
  [("db-resumed", "last_pk_fetched", Val.dict [(.str "id", .int 3)]),
    ("db-replicated", "log_file", .str "bin.1"), ("db-replicated", "log_pos", .int 120),
    ("db-snapshot", "log_file", .str "bin.1"), ("db-snapshot", "log_pos", .int 80),
    ("db-snapshot", "last_pk_fetched", .dict [(.str "id", .int 5)]),
    ("db-increments", "replication_key_value", .int 9)].foldl
    (fun st b => st.writeBookmark b.1 b.2.1 b.2.2)
    (State.empty.setCurrentlySyncing (some "db-increments"))

theorem mixedCatalog_inclusions : InclusionsKnown mixedCatalog := by
  have h : ∀ e ∈ mixedCatalog, ∀ p ∈ e.schema.entries, p.2.inclusion.isSome := by decide
  exact h

end Sample

/-- The stream currently syncing comes first, then those without a bookmark, then those with one;
the one that only follows the binlog is in the other list. -/
theorem scheduled_once_iff_mixedCatalog :
    (∃ nonBinlog binlog,
      getNonBinlogStreams Sample.mixedCatalog Sample.mixedCatalog Sample.mixedState =
        .ok nonBinlog ∧
      getBinlogStreams Sample.mixedCatalog Sample.mixedCatalog Sample.mixedState = .ok binlog ∧
      ScheduledOnce Sample.mixedState Sample.mixedCatalog nonBinlog binlog) ∧
    idsOf (selectSchedule Sample.mixedState
        (Sample.mixedCatalog.filter CatalogEntry.streamIsSelected)) =
      ["db-increments", "db-fresh", "db-unseen", "db-resumed", "db-snapshot"] := by
  have hbookmarked : ¬∃ e ∈ Sample.mixedCatalog, e.streamIsSelected = true ∧
      isCurrentlySyncing Sample.mixedState e = true ∧ hasState Sample.mixedState e = false := by
    decide
  exact ⟨(scheduled_once_iff (by decide) Sample.mixedCatalog_inclusions
    Sample.mixedCatalog_inclusions (by decide) (by decide)).mpr hbookmarked, by decide⟩

end TapMysql
