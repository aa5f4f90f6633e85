import TapMysql.Protocol
import TapMysql.Select.Keeps

/-!
# The streams of the SELECT phase take turns

A stream that is being synced is announced first, writes rows of its own columns, and leaves the
bookmarks of the others and the name of the stream in progress as they are. A run over several
streams is a sequence of such turns.
-/

namespace TapMysql

open Binlog (Effect schemaInForce schemaInForce_append_of_silent)
open Trace

/-! ### One turn -/

theorem Ignores.keptByKeys {s : String} {I : State → Prop} (hI : Ignores s I)
    (keys : List String) : KeptByKeys s keys I :=
  fun st hst k _ => hI st hst k

/-- A sync fails before it says anything, or announces the stream first. -/
inductive Announces (e : CatalogEntry) (I : State → Prop) (Q : Message → Prop) : Outcome → Prop
  | failed {st : State} (hst : I st) (err : Err) : Announces e I Q (.failed st err)
  | announced (keys : List Val) {o : Outcome} (h : o.Keeps I Q) :
      Announces e I Q (o.after [schemaMessage e keys])

section Turn

variable {e : CatalogEntry} {autoIncrement : String → Bool} {gtidConfig : GtidConfig}
  {run : StreamRun} {st : State} {I : State → Prop} {R : Record → Prop} {Q : Message → Prop}

/-- The rows that the server delivers in this run become records with `R`. -/
def StreamRun.Renders (e : CatalogEntry) (R : Record → Prop) (run : StreamRun) : Prop :=
  ∀ n, (run.server n).Renders e run.args R

theorem doSyncIncremental_announces (hI : Ignores e.tapStreamId I)
    (hdata : ∀ config version, DataOf e config version R Q) (hstate : ∀ v, I v → Q (.state v))
    (hrun : run.Renders e R) (hst : I st) : Announces e I Q (doSyncIncremental e run st) := by
  unfold doSyncIncremental
  split_ifs
  · exact .failed hst _
  · have hstart : I (Incremental.versioned e run.now st) :=
      hI.write (Incremental.startState_keeps (hI.keptByKeys _) (hI.whitelist hst _)) _ _
    refine .announced _ (Outcome.Keeps.thenState (Incremental.syncTable_keeps (hI.keptByKeys _)
      (hdata _ _) hstate hstart hrun) fun v hv => ⟨hv, fun m hm => ?_⟩)
    rw [List.mem_singleton.mp hm]
    exact hstate v hv

theorem syncTable_ignores (hI : Ignores e.tapStreamId I)
    (hdata : ∀ config version, DataOf e config version R Q)
    (hstate : ∀ v, I v → Q (.state v)) (hrun : run.Renders e R) (hst : I st) (st' : State) :
    (FullTable.syncTable e autoIncrement run.server (versionedArgs e run st') st).Keeps I Q :=
  FullTable.syncTable_keeps (hI.keptByKeys _) (hdata _ _) hstate (hI.whitelist hst _) _ hrun

theorem doSyncFullTable_announces (hI : Ignores e.tapStreamId I)
    (hdata : ∀ config version, DataOf e config version R Q) (hstate : ∀ v, I v → Q (.state v))
    (hrun : run.Renders e R) (hst : I st) :
    Announces e I Q (doSyncFullTable e autoIncrement run st) := by
  refine .announced _ ((syncTable_ignores hI hdata hstate hrun hst st).thenState fun v hv => ?_)
  have hcomplete : I (completeFullTable e v) := hI.write (hI.clear hv _) _ _
  refine ⟨hcomplete, fun m hm => ?_⟩
  rw [List.mem_singleton.mp hm]
  exact hstate _ hcomplete

theorem writePosition_ignores (hI : Ignores e.tapStreamId I) (hst : I st) (position : Val × Val)
    (gtid : Val) : I (writePosition e position gtid st) := by
  unfold writePosition
  dsimp only
  split_ifs
  · exact hI.write (hI.write (hI.write hst _ _) _ _) _ _
  · exact hI.write (hI.write hst _ _) _ _

theorem startSnapshot_keeps (hI : Ignores e.tapStreamId I)
    (hdata : ∀ config version, DataOf e config version R Q) (hstate : ∀ v, I v → Q (.state v))
    (hrun : run.Renders e R)
    (hbegun : I (st.writeBookmark e.tapStreamId "initial_binlog_complete" (.bool false)))
    (position : Val × Val) (gtid : Val) :
    (startSnapshot e autoIncrement run st position gtid).Keeps I Q := by
  have hversion := hI.write hbegun "version" (versionedArgs e run st).streamVersion
  unfold startSnapshot
  dsimp only
  split_ifs
  · exact syncTable_ignores hI hdata hstate hrun (writePosition_ignores hI hversion _ _) st
  · exact (syncTable_ignores hI hdata hstate hrun hversion st).thenState
      fun v hv => ⟨writePosition_ignores hI hv _ _, by simp⟩

theorem doSyncHistoricalBinlog_announces (hI : Ignores e.tapStreamId I)
    (hdata : ∀ config version, DataOf e config version R Q) (hstate : ∀ v, I v → Q (.state v))
    (hrun : run.Renders e R) (hst : I st) :
    Announces e I Q (doSyncHistoricalBinlog e autoIncrement gtidConfig run st) := by
  have hbegun : I (st.writeBookmark e.tapStreamId "initial_binlog_complete" (.bool false)) :=
    hI.write hst _ _
  unfold doSyncHistoricalBinlog
  split
  · exact .failed hst _
  · split
    · exact .failed hst _
    · split
      · exact .failed hst _
      · split
        · exact .announced _ (syncTable_ignores hI hdata hstate hrun hst st)
        · dsimp only
          split
          · exact .announced _ (.failed hbegun _)
          · split
            · exact .announced _ (.failed hbegun _)
            · exact .announced _ (startSnapshot_keeps hI hdata hstate hrun hbegun _ _)

/-- A turn begins with a STATE that names the stream. -/
theorem syncStream_announces (autoIncrement : String → Bool) (gtidConfig : GtidConfig)
    (hI : Ignores e.tapStreamId I) (hdata : ∀ config version, DataOf e config version R Q)
    (hstate : ∀ v, I v → Q (.state v))
    (hrun : ({ run with args := { run.args with columns := e.schema.keys } } :
      StreamRun).Renders e R)
    (hst : I (st.setCurrentlySyncing (some e.tapStreamId))) :
    ∃ o, syncStream e autoIncrement gtidConfig run st =
        o.after [.state (st.setCurrentlySyncing (some e.tapStreamId))] ∧ Announces e I Q o := by
  refine ⟨_, rfl, ?_⟩
  split
  · exact doSyncIncremental_announces hI hdata hstate hrun hst
  · exact doSyncHistoricalBinlog_announces hI hdata hstate hrun hst
  · exact doSyncFullTable_announces hI hdata hstate hrun hst
  · exact .failed hst _

theorem Announces.state {o : Outcome} (h : Announces e I Q o) : I o.state := by
  cases h with
  | failed hst => exact hst
  | announced keys h => exact h.1

end Turn

/-! ### What a turn writes -/

section Columns

variable {e : CatalogEntry} {columns : List String} {config : Option BatchConfig}

theorem renderItems_columns {schema : Schema} {columns : List String} {row : Row}
    {items : List (String × Val)} (h : renderItems schema columns row = .ok items) :
    ∀ item ∈ items, item.1 ∈ columns := by
  induction columns generalizing row items with
  | nil =>
    cases row with
    | nil =>
      cases h
      simp
    | cons v vs => simp [renderItems] at h
  | cons c cs ih =>
    cases row with
    | nil =>
      cases h
      simp
    | cons v vs =>
      rw [renderItems] at h
      split at h
      · cases h
      · split at h
        · cases h
        · split at h
          · cases h
          · rename_i rest hrest
            cases h
            exact List.forall_mem_cons.mpr ⟨List.mem_cons_self, fun item hitem =>
              List.mem_cons_of_mem _ (ih hrest item hitem)⟩

/-- A record has columns of the statement only. -/
theorem rowRecord_columns {names : List String} {row : Row} {r : Record}
    (h : rowRecord e columns config names row = .ok r) (hnames : names = columns) :
    ∀ k ∈ r.keys, k ∈ columns := by
  unfold rowRecord at h
  intro k hk
  split_ifs at h
  · cases h
    obtain ⟨item, hitem, rfl⟩ := List.mem_map.mp (Dict.mem_keys_ofList.mp hk)
    obtain ⟨cell, hcell, rfl⟩ := List.mem_map.mp hitem
    exact hnames ▸ (List.of_mem_zip hcell).1
  · unfold rowToSingerRecord at h
    split at h
    · cases h
    · rename_i items hitems
      cases h
      obtain ⟨item, hitem, rfl⟩ := List.mem_map.mp (Dict.mem_keys_ofList.mp hk)
      exact renderItems_columns hitems item hitem

end Columns

/-- A result has the columns of its statement, as the client names them. -/
def StreamRun.NamesColumns (run : StreamRun) : Prop :=
  ∀ n sql, ((run.server n).select sql).names = sql.columns.map Mysql.columnName

/-- The row has columns of the stream only. -/
def HasColumnsOf (e : CatalogEntry) (row : Record) : Prop := ∀ k ∈ row.keys, k ∈ e.schema.keys

theorem StreamRun.NamesColumns.renders {e : CatalogEntry} {run : StreamRun}
    (h : run.NamesColumns) :
    ({ run with args := { run.args with columns := e.schema.keys } } : StreamRun).Renders e
      (HasColumnsOf e) :=
  fun n sql hsql _ _ _ hrow => rowRecord_columns hrow ((h n sql).trans (selectColumns_names hsql))

/-- A message of a turn, its SCHEMA apart, when the turn began in the state `st`. -/
def TurnMessage (e : CatalogEntry) (st : State) : Message → Prop
  | .schema _ _ _ _ => False
  | .record s row _ _ => s = e.tapStreamId ∧ HasColumnsOf e row
  | .batch s _ rows => s = e.tapStreamId ∧ ∀ row ∈ rows, HasColumnsOf e row
  | .activateVersion s _ => s = e.tapStreamId
  | .state v => SameElsewhere e.tapStreamId st v

theorem turnMessage_data {e : CatalogEntry} (he : e.stream = e.tapStreamId) (st : State)
    (config : Option BatchConfig) (version : Val) :
    DataOf e config version (HasColumnsOf e) (TurnMessage e st) :=
  ⟨fun _ _ hr => ⟨he, hr⟩, fun _ _ _ hrows => ⟨he, hrows⟩, he⟩

section Order

variable {e : CatalogEntry} {st : State} {before : List Effect} {ms : List Message}

theorem TurnMessage.announced? {m : Message} (h : TurnMessage e st m) (s : String) :
    (Effect.message m).announced? s = none := by
  cases m <;> first | rfl | exact h.elim

/-- The STATEs of a turn keep what holds of the latest one before. -/
theorem latestState_turn {I : State → Prop} {st₀ : State} (hbefore : I (latestState st₀ before))
    (hms : ∀ m ∈ ms, TurnMessage e st m) (hI : ∀ v, SameElsewhere e.tapStreamId st v → I v) :
    I (latestState st₀ (before ++ ms.map .message)) := by
  refine latestState_forall hbefore ?_
  intro x hx v hv
  obtain ⟨m, hm, rfl⟩ := List.mem_map.mp hx
  cases m with
  | state v' =>
    cases hv
    exact hI v (hms _ hm)
  | _ => cases hv

theorem inOrder_turn (hsync : syncingOf before = some e.tapStreamId)
    (hst : st.currentlySyncing = some e.tapStreamId)
    (hschema : schemaInForce e.tapStreamId before = some e.schema)
    (hms : ∀ m ∈ ms, TurnMessage e st m) :
    EachAfter (InOrder .select) before (ms.map .message) := by
  intro a x b hab
  obtain ⟨as, rest, rfl, rfl, hrest⟩ := List.map_eq_append_iff.mp hab
  obtain ⟨m, bs, rfl, rfl, rfl⟩ := List.map_eq_cons_iff.mp hrest
  have has : ∀ m ∈ as, TurnMessage e st m := fun m' hm' => hms m' (List.mem_append_left _ hm')
  have hm : TurnMessage e st m := hms m (List.mem_append_right _ List.mem_cons_self)
  have hnow : syncingOf (before ++ as.map .message) = some e.tapStreamId :=
    latestState_turn (I := fun v => v.currentlySyncing = some e.tapStreamId) hsync has
      fun v hv => hv.syncing.trans hst
  have hforce : schemaInForce e.tapStreamId (before ++ as.map .message) = some e.schema := by
    rw [schemaInForce_append_of_silent, hschema]
    intro x hx
    obtain ⟨m', hm', rfl⟩ := List.mem_map.mp hx
    exact (has m' hm').announced? _
  have hfits : ∀ row, HasColumnsOf e row →
      FitsAnnounced (before ++ as.map .message) e.tapStreamId row :=
    fun row hrow => ⟨e.schema, hforce, fun k hk => .inl (hrow k hk)⟩
  cases m with
  | schema => exact hm.elim
  | record s row version time =>
    obtain ⟨rfl, hrow⟩ := hm
    exact ⟨hnow, hfits row hrow⟩
  | activateVersion s version =>
    obtain rfl : s = e.tapStreamId := hm
    exact ⟨hnow, by rw [hforce]; rfl⟩
  | state v => trivial
  | batch s format rows =>
    obtain ⟨rfl, hrows⟩ := hm
    exact ⟨hnow, fun row hrow => hfits row (hrows row hrow)⟩

theorem continues_turn {shared : List String} {st₀ : State}
    (hst : st.currentlySyncing = some e.tapStreamId)
    (hbefore : SameElsewhere e.tapStreamId st (latestState st₀ before))
    (hms : ∀ m ∈ ms, TurnMessage e st m) :
    EachAfter (Continues shared st₀) before (ms.map .message) := by
  intro a x b hab
  obtain ⟨as, rest, rfl, rfl, hrest⟩ := List.map_eq_append_iff.mp hab
  obtain ⟨m, bs, rfl, rfl, rfl⟩ := List.map_eq_cons_iff.mp hrest
  have hlatest : SameElsewhere e.tapStreamId st
      (latestState st₀ (before ++ as.map .message)) :=
    latestState_turn hbefore (fun m' hm' => hms m' (List.mem_append_left _ hm')) fun _ hv => hv
  cases m with
  | state v =>
    have hv : SameElsewhere e.tapStreamId st v :=
      hms _ (List.mem_append_right _ List.mem_cons_self)
    intro t _ ht _
    have hne : t ≠ e.tapStreamId := by
      rintro rfl
      exact ht (hv.syncing.trans hst)
    rw [hv.others t hne, hlatest.others t hne]
  | _ => trivial

end Order

/-! ### The phase -/

section Phase

variable {autoIncrement : CatalogEntry → String → Bool} {gtidConfig : GtidConfig}
  {runs : CatalogEntry → StreamRun} {st₀ : State}

/-- The messages of a turn: the STATE that names the stream, then nothing when the sync fails
before it says anything, or the SCHEMA and what follows it. -/
theorem syncStream_turn (e : CatalogEntry) (he : e.stream = e.tapStreamId)
    (autoIncrement : String → Bool) (gtidConfig : GtidConfig) {run : StreamRun}
    (hnames : run.NamesColumns) (st : State) :
    ∃ announcement ms, (syncStream e autoIncrement gtidConfig run st).messages =
        .state (st.setCurrentlySyncing (some e.tapStreamId)) :: announcement ++ ms ∧
      (announcement = [] ∧ ms = [] ∨ ∃ keys, announcement = [schemaMessage e keys]) ∧
      (∀ m ∈ ms, TurnMessage e (st.setCurrentlySyncing (some e.tapStreamId)) m) ∧
      SameElsewhere e.tapStreamId (st.setCurrentlySyncing (some e.tapStreamId))
        (syncStream e autoIncrement gtidConfig run st).state := by
  obtain ⟨o, ho, hann⟩ := syncStream_announces autoIncrement gtidConfig
    (Q := TurnMessage e (st.setCurrentlySyncing (some e.tapStreamId)))
    (ignores_sameElsewhere e.tapStreamId (st.setCurrentlySyncing (some e.tapStreamId)))
    (turnMessage_data he _) (fun _ hv => hv) hnames.renders (SameElsewhere.refl _ _)
  rw [ho]
  cases hann with
  | failed hst err => exact ⟨[], [], rfl, .inl ⟨rfl, rfl⟩, by simp, hst⟩
  | announced keys h => exact ⟨[schemaMessage e keys], _, rfl, .inr ⟨keys, rfl⟩, h.2, h.1⟩

theorem syncStream_inOrder {e : CatalogEntry} (he : e.stream = e.tapStreamId)
    {autoIncrement : String → Bool} {run : StreamRun} (hnames : run.NamesColumns)
    (before : List Effect) (st : State) :
    EachAfter (InOrder .select) before
      ((syncStream e autoIncrement gtidConfig run st).messages.map .message) := by
  obtain ⟨announcement, ms, hmsgs, hann, hms, -⟩ :=
    syncStream_turn e he autoIncrement gtidConfig hnames st
  have hnamed : syncingOf (before ++ [.message
      (.state (st.setCurrentlySyncing (some e.tapStreamId)))]) = some e.tapStreamId :=
    syncingOf_concat _ _
  rw [hmsgs, List.cons_append, List.map_cons, eachAfter_cons]
  refine ⟨trivial, ?_⟩
  rcases hann with ⟨rfl, rfl⟩ | ⟨keys, rfl⟩
  · exact eachAfter_nil
  · rw [List.singleton_append, List.map_cons, eachAfter_cons]
    refine ⟨?_, inOrder_turn ?_ rfl ?_ hms⟩
    · exact hnamed.trans (congrArg some he.symm)
    · rw [syncingOf_append_of_silent (by simp [Effect.state?, schemaMessage]), hnamed]
    · exact Binlog.schemaInForce_concat (by simp [Effect.announced?, schemaMessage, he])

/-- The rule for a run over streams: what holds at the beginning of a turn and is found again at
its end. -/
theorem syncNonBinlogStreams_eachAfter {P : List Effect → Effect → Prop}
    {L : List Effect → State → Prop} {streams : List CatalogEntry}
    (hturn : ∀ e ∈ streams, ∀ before st, L before st →
      EachAfter P before ((syncStream e (autoIncrement e) gtidConfig (runs e) st).messages.map
        .message) ∧
      L (before ++ (syncStream e (autoIncrement e) gtidConfig (runs e) st).messages.map .message)
        (syncStream e (autoIncrement e) gtidConfig (runs e) st).state)
    (hend : ∀ before st, L before st → P before (.message (.state (st.setCurrentlySyncing none))))
    {before : List Effect} {st : State} (h : L before st) :
    EachAfter P before
      ((syncNonBinlogStreams autoIncrement gtidConfig runs streams st).messages.map .message) := by
  induction streams generalizing before st with
  | nil =>
    rw [syncNonBinlogStreams, List.map_singleton, eachAfter_cons]
    exact ⟨hend before st h, eachAfter_nil⟩
  | cons e streams ih =>
    have hrest : ∀ before st, L before st → EachAfter P before ((syncNonBinlogStreams autoIncrement
        gtidConfig runs streams st).messages.map .message) :=
      fun _ _ => ih fun e' he' => hturn e' (List.mem_cons_of_mem _ he')
    obtain ⟨hfirst, hnext⟩ := hturn e List.mem_cons_self before st h
    rw [syncNonBinlogStreams]
    split_ifs
    · exact hrest before st h
    · dsimp only
      split
      · exact hfirst
      · rw [Outcome.andThen, List.map_append, eachAfter_append]
        exact ⟨hfirst, hrest _ _ hnext⟩

theorem syncNonBinlogStreams_inOrder {streams : List CatalogEntry}
    (hres : Binlog.Resolved streams) (hnames : ∀ e ∈ streams, (runs e).NamesColumns)
    (before : List Effect) (st : State) :
    EachAfter (InOrder .select) before
      ((syncNonBinlogStreams autoIncrement gtidConfig runs streams st).messages.map .message) :=
  syncNonBinlogStreams_eachAfter (L := fun _ _ => True)
    (fun e he before st _ => ⟨syncStream_inOrder (hres e he) (hnames e he) before st, trivial⟩)
    (fun _ _ _ => trivial) trivial

theorem syncStream_continues {e : CatalogEntry} (he : e.stream = e.tapStreamId)
    {autoIncrement : String → Bool} {run : StreamRun} (hnames : run.NamesColumns)
    {shared : List String} {before : List Effect} {st : State} (h : Level st₀ before st) :
    EachAfter (Continues shared st₀) before
        ((syncStream e autoIncrement gtidConfig run st).messages.map .message) ∧
      Level st₀ (before ++
          (syncStream e autoIncrement gtidConfig run st).messages.map .message)
        (syncStream e autoIncrement gtidConfig run st).state := by
  obtain ⟨announcement, ms, hmsgs, hann, hms, hstate⟩ :=
    syncStream_turn e he autoIncrement gtidConfig hnames st
  set begun := st.setCurrentlySyncing (some e.tapStreamId) with hbegun
  have hsilent : ∀ x ∈ announcement.map Effect.message, x.state? = none := by
    rcases hann with ⟨rfl, -⟩ | ⟨keys, rfl⟩ <;> simp [Effect.state?, schemaMessage]
  have hlatest : SameElsewhere e.tapStreamId begun
      (latestState st₀ (before ++ [.message (.state begun)] ++
        announcement.map .message)) := by
    rw [latestState_append_of_silent hsilent, latestState_concat]
    exact .refl _ _
  have hall : before ++ (syncStream e autoIncrement gtidConfig run st).messages.map .message =
      before ++ [.message (.state begun)] ++ announcement.map .message ++ ms.map .message := by
    rw [hmsgs]
    simp
  constructor
  · have hsplit : (syncStream e autoIncrement gtidConfig run st).messages.map Effect.message =
        [.message (.state begun)] ++ announcement.map .message ++ ms.map .message := by
      rw [hmsgs]
      simp
    rw [hsplit, eachAfter_append, eachAfter_append, ← List.append_assoc]
    refine ⟨⟨eachAfter_cons.mpr ⟨fun t ht _ _ => ?_, eachAfter_nil⟩, ?_⟩,
      continues_turn rfl hlatest hms⟩
    · exact h t ht
    · intro a x b hab
      exact continues_of_silent (hsilent x (by rw [hab]; simp))
  · rw [hall]
    intro t ht
    have hv : SameElsewhere e.tapStreamId begun (latestState st₀
        (before ++ [.message (.state begun)] ++ announcement.map .message ++
          ms.map .message)) := latestState_turn hlatest hms fun _ hv => hv
    have hne : t ≠ e.tapStreamId := by
      rintro rfl
      exact ht hv.syncing
    rw [hstate.others t hne, hv.others t hne]

theorem syncNonBinlogStreams_continues {streams : List CatalogEntry}
    (hres : Binlog.Resolved streams) (hnames : ∀ e ∈ streams, (runs e).NamesColumns)
    (shared : List String) {before : List Effect} {st : State} (h : Level st₀ before st) :
    EachAfter (Continues shared st₀) before
      ((syncNonBinlogStreams autoIncrement gtidConfig runs streams st).messages.map .message) :=
  syncNonBinlogStreams_eachAfter (L := Level st₀)
    (fun e he _ _ h => syncStream_continues (hres e he) (hnames e he) h)
    (fun _ _ h t ht _ _ => h t ht) h

/-- A phase that returns ends with the STATE that it leaves, which names no stream. -/
theorem syncNonBinlogStreams_returns (streams : List CatalogEntry) (st : State)
    (h : (syncNonBinlogStreams autoIncrement gtidConfig runs streams st).error = none) :
    ∃ before, (syncNonBinlogStreams autoIncrement gtidConfig runs streams st).messages =
        before ++ [.state (syncNonBinlogStreams autoIncrement gtidConfig runs streams st).state] ∧
      (syncNonBinlogStreams autoIncrement gtidConfig runs streams st).state.currentlySyncing =
        none := by
  induction streams generalizing st with
  | nil => exact ⟨[], rfl, rfl⟩
  | cons e streams ih =>
    rw [syncNonBinlogStreams] at h ⊢
    split_ifs at h ⊢
    · exact ih st h
    · dsimp only at h ⊢
      split at h
      · rename_i err herr
        rw [herr] at h
        cases h
      · obtain ⟨before, hmsgs, hnone⟩ := ih _ h
        refine ⟨(syncStream e (autoIncrement e) gtidConfig (runs e) st).messages ++ before, ?_,
          hnone⟩
        rw [Outcome.andThen, hmsgs, List.append_assoc]

/-- The bookmarks of the streams that are not scheduled stay. -/
theorem syncNonBinlogStreams_others {streams : List CatalogEntry} (hres : Binlog.Resolved streams)
    (hnames : ∀ e ∈ streams, (runs e).NamesColumns) {st : State} {t : String}
    (ht : t ∉ idsOf streams) :
    (syncNonBinlogStreams autoIncrement gtidConfig runs streams st).state.bookmarks.get? t =
      st.bookmarks.get? t := by
  induction streams generalizing st with
  | nil => rfl
  | cons e streams ih =>
    have hrest : ∀ st, (syncNonBinlogStreams autoIncrement gtidConfig runs streams
        st).state.bookmarks.get? t = st.bookmarks.get? t :=
      fun st => ih (fun e' he' => hres e' (List.mem_cons_of_mem _ he'))
        (fun e' he' => hnames e' (List.mem_cons_of_mem _ he'))
        fun hmem => ht (List.mem_cons_of_mem _ hmem)
    obtain ⟨-, -, -, -, -, hstate⟩ := syncStream_turn e (hres e List.mem_cons_self)
      (autoIncrement e) gtidConfig (hnames e List.mem_cons_self) st
    have hne : t ≠ e.tapStreamId := fun h => ht (h ▸ List.mem_cons_self)
    rw [syncNonBinlogStreams]
    split_ifs
    · exact hrest st
    · dsimp only
      split
      · exact hstate.others t hne
      · exact (hrest _).trans (hstate.others t hne)

end Phase

end TapMysql
