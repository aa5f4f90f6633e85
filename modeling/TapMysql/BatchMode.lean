import TapMysql.DoSync
import TapMysql.Select.Sync

/-!
# BATCH mode against RECORD mode

In BATCH mode the rows of a JSON Lines run go to files that BATCH messages name, instead of RECORD
messages of their own. The two modes go in step: they send the same statements, keep the same
state, announce the same, and end alike. The rows that BATCH mode publishes are those of RECORD
mode, without the ones that stood in a writer when an exception came.
-/

namespace TapMysql

open Binlog (Effect)

/-! ### What is compared -/

/-- The rows of a RECORD or of the file of a BATCH, with their stream. -/
def Message.delivers : Message → List (String × Record)
  | .record s r _ _ => [(s, r)]
  | .batch s _ rows => rows.map fun r => (s, r)
  | _ => []

def delivered (ms : List Message) : List (String × Record) := ms.flatMap Message.delivers

/-- SCHEMA and ACTIVATE_VERSION. -/
def Message.isControl : Message → Bool
  | .schema .. => true
  | .activateVersion .. => true
  | _ => false

def controls (ms : List Message) : List Message := ms.filter Message.isControl

section Messages

variable {ms ms' : List Message}

theorem delivered_append : delivered (ms ++ ms') = delivered ms ++ delivered ms' :=
  List.flatMap_append

theorem controls_append : controls (ms ++ ms') = controls ms ++ controls ms' :=
  List.filter_append ..

theorem delivered_stateIf (c : Bool) (st : State) : delivered (stateIf c st) = [] := by
  cases c <;> rfl

theorem controls_stateIf (c : Bool) (st : State) : controls (stateIf c st) = [] := by
  cases c <;> rfl

theorem delivered_records (stream : String) (version : Val) (time : String)
    (records : List Record) :
    delivered (records.map fun r => .record stream r version time) =
      records.map fun r => (stream, r) := by
  rw [delivered, List.flatMap_map, List.map_eq_flatMap]
  rfl

theorem controls_records (stream : String) (version : Val) (time : String)
    (records : List Record) :
    controls (records.map fun r => .record stream r version time) = [] := by
  simp [controls, Message.isControl]

theorem length_delivered (ms : List Message) : (delivered ms).length = (published ms).length := by
  induction ms with
  | nil => rfl
  | cons m ms ih =>
    rw [delivered, published, List.flatMap_cons, List.flatMap_cons, List.length_append,
      List.length_append, ← delivered, ← published, ih]
    cases m <;> simp [Message.delivers, Message.rows]

end Messages

namespace BatchWriter

variable {w : BatchWriter}

theorem delivered_flush (w : BatchWriter) :
    delivered w.flush.1 = w.rows.map fun r => (w.stream, r) := by
  rw [flush]
  cases hw : w.rows with
  | nil => rfl
  | cons r rs => simp [delivered, Message.delivers]

theorem controls_flush (w : BatchWriter) : controls w.flush.1 = [] := by
  rw [flush]
  split_ifs <;> rfl

theorem stream_flush (w : BatchWriter) : w.flush.2.stream = w.stream := by
  rw [flush]
  split_ifs <;> rfl

/-- What a write passes on and what it keeps are the rows that it got, and those it held. -/
theorem delivered_write (w : BatchWriter) (records : List Record) :
    delivered (w.write records).1 ++ (w.write records).2.1.rows.map (fun r => (w.stream, r)) =
      (w.rows ++ records).map fun r => (w.stream, r) := by
  simp only [write]
  split_ifs
  · rw [delivered_flush, rows_flush]
    simp
  · rfl

theorem controls_write (w : BatchWriter) (records : List Record) :
    controls (w.write records).1 = [] := by
  simp only [write]
  split_ifs
  · exact controls_flush _
  · rfl

theorem stream_write (w : BatchWriter) (records : List Record) :
    (w.write records).2.1.stream = w.stream := by
  simp only [write]
  split_ifs
  · exact stream_flush _
  · rfl

end BatchWriter

/-! ### One query -/

section Query

variable {e : CatalogEntry} {version : Val} {time : String}
  {render : List Row → Except Err (List Record)} {update : State → Record → State × Option Err}
  {out out' : List Message} {s s' : QueryState}

/-- The loop heads of a query in BATCH mode and in RECORD mode: one state, and what the writer
holds is what the first still lacks. -/
structure Behind (e : CatalogEntry) (out : List Message) (s : QueryState) (out' : List Message)
    (s' : QueryState) : Prop where
  state : s.st = s'.st
  plain : s'.writer = none
  writer : ∃ w, s.writer = some w ∧ w.stream = e.stream
  rows : delivered out' = delivered out ++ (heldRows s).map fun r => (e.stream, r)
  control : controls out = controls out'

/-- The ends of a query in BATCH mode and in RECORD mode. -/
structure EndsAlike (o o' : List Message × State × Option Err) : Prop where
  result : o.2 = o'.2
  control : controls o.1 = controls o'.1
  rows : (delivered o.1).Sublist (delivered o'.1)
  whole : o.2.2 = none → delivered o.1 = delivered o'.1

/-- Writing a unit keeps the writer behind by what it holds. -/
theorem Behind.write (h : Behind e out s out' s') (version : Val) (time : String)
    (records : List Record) (st : State) :
    Behind e (out ++ (writeRecords e version time s records).1)
      ⟨st, (writeRecords e version time s records).2.1, s.rowsSaved + records.length,
        (writeRecords e version time s records).2.2⟩
      (out' ++ (writeRecords e version time s' records).1)
      ⟨st, (writeRecords e version time s' records).2.1, s'.rowsSaved + records.length,
        (writeRecords e version time s' records).2.2⟩ := by
  obtain ⟨w, hw, hstream⟩ := h.writer
  have hwrite := w.delivered_write records
  rw [hstream] at hwrite
  refine ⟨rfl, ?_, ?_, ?_, ?_⟩
  · simp [writeRecords, h.plain]
  · exact ⟨(w.write records).2.1, by simp [writeRecords, hw],
      (w.stream_write records).trans hstream⟩
  · simp only [writeRecords, h.plain, hw, delivered_append, delivered_records, heldRows, h.rows,
      List.append_assoc]
    rw [hwrite, List.map_append]
  · simp only [writeRecords, h.plain, hw, controls_append, w.controls_write, controls_records,
      h.control]

theorem Behind.stateIf (h : Behind e out s out' s') (c c' : Bool) (st st' : State) :
    Behind e (out ++ TapMysql.stateIf c st) s (out' ++ TapMysql.stateIf c' st') s' := by
  refine ⟨h.state, h.plain, h.writer, ?_, ?_⟩
  · simp only [delivered_append, delivered_stateIf, List.append_nil, h.rows]
  · simp only [controls_append, controls_stateIf, List.append_nil, h.control]

/-- A failure finds the writer behind by what it holds. -/
theorem Behind.endsAlike (h : Behind e out s out' s') {t : State × Option Err} (ht : t.2 ≠ none) :
    EndsAlike (out, t) (out', t) := by
  refine ⟨rfl, h.control, ?_, fun hnone => absurd hnone ht⟩
  rw [h.rows]
  exact List.sublist_append_left _ _

theorem Behind.ends (h : Behind e out s out' s') (error : Option Err) :
    EndsAlike (out ++ (queryEnd error s).1, (queryEnd error s).2)
      (out' ++ (queryEnd error s').1, (queryEnd error s').2) := by
  cases error with
  | some err =>
    simp only [queryEnd, List.append_nil, h.state]
    exact h.endsAlike (Option.some_ne_none err)
  | none =>
    obtain ⟨w, hw, hstream⟩ := h.writer
    have hrows : delivered (out ++ (queryEnd none s).1) =
        delivered (out' ++ (queryEnd none s').1) := by
      simp only [queryEnd, lastFlush, h.plain, hw, delivered_append, delivered_stateIf,
        w.delivered_flush, hstream, List.nil_append, List.append_nil, h.rows, heldRows]
    have hcontrol : controls (out ++ (queryEnd none s).1) =
        controls (out' ++ (queryEnd none s').1) := by
      simp only [queryEnd, lastFlush, h.plain, hw, controls_append, controls_stateIf,
        w.controls_flush, List.nil_append, List.append_nil, h.control]
    exact ⟨by simp only [queryEnd, h.state], hcontrol, hrows ▸ List.Sublist.refl _, fun _ => hrows⟩

theorem behind_step (h : Behind e out s out' s') (unit : List Row) :
    (∃ em u em' u', queryStep e version time render update s unit = .next em u ∧
      queryStep e version time render update s' unit = .next em' u' ∧
      Behind e (out ++ em) u (out' ++ em') u') ∨
    (∃ em t em' t', queryStep e version time render update s unit = .halt em t ∧
      queryStep e version time render update s' unit = .halt em' t' ∧
      EndsAlike (out ++ em, t) (out' ++ em', t')) := by
  unfold queryStep
  cases render unit with
  | error err =>
    right
    refine ⟨_, _, _, _, rfl, rfl, ?_⟩
    rw [List.append_nil, List.append_nil, h.state]
    exact h.endsAlike (Option.some_ne_none err)
  | ok records =>
    cases hlast : records.getLast? with
    | none =>
      left
      refine ⟨_, _, _, _, by simp only [hlast]; rfl, by simp only [hlast]; rfl, ?_⟩
      rw [List.append_nil, List.append_nil]
      exact h
    | some last =>
      rcases hupdate : update s'.st last with ⟨st, _ | err⟩
      · left
        refine ⟨_, _, _, _, by simp only [hlast, h.state, hupdate]; rfl,
          by simp only [hlast, hupdate]; rfl, ?_⟩
        rw [← List.append_assoc, ← List.append_assoc]
        exact (h.write version time records st).stateIf _ _ _ _
      · right
        refine ⟨_, _, _, _, by simp only [hlast, h.state, hupdate]; rfl,
          by simp only [hlast, hupdate]; rfl, ?_⟩
        -- the unit is written before its bookmark fails
        exact (h.write version time records st).endsAlike (Option.some_ne_none err)

end Query

/-- `sync_query` with a writer of JSON Lines files goes in step with `sync_query` without one. -/
theorem syncQuery_endsAlike {c : BatchConfig} (hc : isArrow (some c) = false) (e : CatalogEntry)
    (st : State) (columns : List String) (version : Val) (time : String) (f : Fetch) :
    EndsAlike (syncQuery e st columns version time (some c) f)
      (syncQuery e st columns version time none f) := by
  have hstart : Behind e [] ⟨st, some (.new e.stream c), 0, false⟩ [] ⟨st, none, 0, false⟩ :=
    ⟨rfl, rfl, ⟨_, rfl, rfl⟩, rfl, rfl⟩
  have hsame : syncQuery e st columns version time (some c) f =
      Loop.run
        (queryStep e version time (renderUnit e columns none f.names)
          (bookmarkUpdate e none (st.getBookmark e.tapStreamId "replication_key")))
        (queryEnd f.error) (fetchUnits none f.chunks) ⟨st, some (.new e.stream c), 0, false⟩ := by
    have hplain : isArrow none = false := rfl
    have hrender : renderUnit e columns (some c) f.names = renderUnit e columns none f.names := by
      funext unit
      rw [renderUnit, renderUnit, hc, hplain]
    have hupdate : ∀ key, bookmarkUpdate e (some c) key = bookmarkUpdate e none key := by
      intro key
      rw [bookmarkUpdate, bookmarkUpdate, hc, hplain]
    have hunits : fetchUnits (some c) f.chunks = fetchUnits none f.chunks := by
      rw [fetchUnits, fetchUnits, hc, hplain]
    rw [syncQuery_eq, hrender, hupdate, hunits]
    rfl
  rw [hsame, syncQuery_eq]
  exact Loop.run_related (R := Behind e) (T := EndsAlike)
    (fun unit _ _ _ _ h => behind_step h unit) (fun _ _ _ _ h => h.ends f.error) _ hstart

/-! ### One sync -/

/-- The fetches that raised left nothing in a writer. -/
def NothingHeld (config : Option BatchConfig) (executed : List (SelectSql × Fetch)) : Prop :=
  ∀ x ∈ executed, x.2.error.isSome → heldBack config x.2.chunks = []

/-- A sync in BATCH mode against the same sync in RECORD mode. -/
structure Outcome.Agrees (config : Option BatchConfig) (o o' : Outcome) : Prop where
  state : o.state = o'.state
  error : o.error = o'.error
  executed : o.executed = o'.executed
  control : controls o.messages = controls o'.messages
  rows : (delivered o.messages).Sublist (delivered o'.messages)
  whole : (∀ err, o.error = some err → err.isOperational = true) →
    (delivered o.messages = delivered o'.messages ↔ NothingHeld config o.executed)

theorem append_eq_append_of_sublist {α : Type*} {a a' b b' : List α} (ha : a.Sublist a')
    (hb : b.Sublist b') : a ++ b = a' ++ b' ↔ a = a' ∧ b = b' := by
  constructor
  · intro h
    have hlength := congrArg List.length h
    rw [List.length_append, List.length_append] at hlength
    have hla := ha.length_le
    have hlb := hb.length_le
    exact ⟨ha.eq_of_length (by omega), hb.eq_of_length (by omega)⟩
  · rintro ⟨rfl, rfl⟩
    rfl

namespace Outcome.Agrees

variable {config : Option BatchConfig} {o o' next next' : Outcome}

theorem of_nothing {st : State} {err : Option Err} {ms : List Message} :
    Outcome.Agrees config ⟨ms, st, err, []⟩ ⟨ms, st, err, []⟩ :=
  ⟨rfl, rfl, rfl, rfl, .refl _, fun _ => iff_of_true rfl (by simp [NothingHeld])⟩

theorem after (h : o.Agrees config o') (before : List Message) :
    (o.after before).Agrees config (o'.after before) := by
  refine ⟨h.state, h.error, h.executed, ?_, ?_, fun herr => ?_⟩
  · rw [messages_after, messages_after, controls_append, controls_append, h.control]
  · rw [messages_after, messages_after, delivered_append, delivered_append]
    exact h.rows.append_left _
  · rw [messages_after, messages_after, delivered_append, delivered_append,
      List.append_cancel_left_eq]
    exact h.whole herr

/-- Both end, or both go on from one state with the same messages. -/
theorem thenState (h : o.Agrees config o') (f : State → List Message × State) :
    (o.thenState f).Agrees config (o'.thenState f) := by
  obtain ⟨hstate, herror, hexecuted, hcontrol, hrows, hwhole⟩ := h
  unfold Outcome.thenState
  rw [← herror]
  cases herr : o.error with
  | some err => exact ⟨hstate, herror, hexecuted, hcontrol, hrows, hwhole⟩
  | none =>
    refine ⟨by simp only [hstate], rfl, hexecuted, ?_, ?_, fun _ => ?_⟩
    · simp only [controls_append, hcontrol, hstate]
    · simp only [delivered_append, hstate]
      exact hrows.append_right _
    · simp only [delivered_append, hstate, List.append_cancel_right_eq]
      exact hwhole (by simp [herr])

theorem andThen (h : o.Agrees config o') (hnext : next.Agrees config next')
    (herr : ∀ err, o.error = some err → err.isOperational = true) :
    (o.andThen next).Agrees config (o'.andThen next') := by
  refine ⟨hnext.state, hnext.error, ?_, ?_, ?_, fun herr' => ?_⟩
  · simp only [Outcome.andThen, h.executed, hnext.executed]
  · simp only [Outcome.andThen, controls_append, h.control, hnext.control]
  · simp only [Outcome.andThen, delivered_append]
    exact h.rows.append hnext.rows
  · simp only [Outcome.andThen, delivered_append]
    rw [append_eq_append_of_sublist h.rows hnext.rows, h.whole herr, hnext.whole herr']
    exact List.forall_mem_append.symm

end Outcome.Agrees

/-- The arguments of a sync, in RECORD mode. -/
def SyncArgs.plain (args : SyncArgs) : SyncArgs := { args with config := none }

section Sync

variable {c : BatchConfig} {e : CatalogEntry} {args : SyncArgs} {st : State}

theorem runSelect_agrees (hc : isArrow (some c) = false) (hargs : args.config = some c)
    (a : Attempt) (st : State) (sql : SelectSql) :
    (runSelect e args a st sql).Agrees (some c) (runSelect e args.plain a st sql) := by
  obtain ⟨hresult, hcontrol, hrows, hwhole⟩ := syncQuery_endsAlike hc e st args.columns
    args.streamVersion args.timeExtracted (a.select sql)
  unfold runSelect SyncArgs.plain
  dsimp only
  rw [hargs]
  refine ⟨congrArg Prod.fst hresult, congrArg Prod.snd hresult, rfl, hcontrol, hrows, ?_⟩
  intro herr
  have hheld : ∀ x, NothingHeld (some c) [(sql, x)] ↔
      (x.error.isSome → heldBack (some c) x.chunks = []) := by simp [NothingHeld]
  dsimp only at herr ⊢
  rw [hheld]
  cases herror : (syncQuery e st args.columns args.streamVersion args.timeExtracted (some c)
      (a.select sql)).2.2 with
  | none =>
    have hfetch := (syncQuery_returns herror).1
    exact iff_of_true (hwhole herror) fun hsome => by simp [hfetch] at hsome
  | some err =>
    -- both published the rows that had left the writer
    have hop := herr err herror
    obtain ⟨hfetch, hpublished, -⟩ := syncQuery_raises herror hop
    obtain ⟨-, hpublished', -⟩ := syncQuery_raises (hresult ▸ herror) hop
    have hlength := congrArg List.length hpublished
    have hlength' := congrArg List.length hpublished'
    have hchunks := congrArg List.length
      (announcedRows_append_heldBack (some c) (a.select sql).chunks)
    rw [List.length_map, List.length_map, ← length_delivered] at hlength hlength'
    rw [announcedRows_none, ← hchunks, List.length_append] at hlength'
    constructor
    · intro hsame _
      rw [hsame, hlength'] at hlength
      exact List.length_eq_zero_iff.mp (by omega)
    · intro hnone
      have hnil := hnone (by rw [hfetch]; rfl)
      rw [hnil, List.length_nil] at hlength'
      exact hrows.eq_of_length (by omega)

theorem attempts_agrees (hc : isArrow (some c) = false) {config : Option BatchConfig}
    (hconfig : config = some c) {body body' : Nat → State → Outcome}
    (hbody : ∀ n st, (body n st).Agrees (some c) (body' n st)) (left n : Nat) (st : State) :
    (attempts config body left n st).Agrees (some c) (attempts none body' left n st) := by
  subst hconfig
  have hretry : ∀ err, retryable (some c) err = retryable none err := by
    intro err
    have hplain : isArrow none = false := rfl
    rw [retryable, retryable, hc, hplain]
  induction left generalizing n st with
  | zero => exact .of_nothing
  | succ left ih =>
    have h := hbody n st
    unfold attempts
    rw [← h.error, ← h.state]
    cases herr : (body n st).error with
    | none => exact h
    | some err =>
      simp only [← hretry]
      split_ifs with hagain
      · refine h.andThen (ih (n + 1) (body n st).state) fun err' herr' => ?_
        obtain rfl : err = err' := Option.some.inj (herr.symm.trans herr')
        simp only [Bool.and_eq_true] at hagain
        exact retryable_isOperational hagain.1
      · exact h

theorem FullTable.attempt_agrees (hc : isArrow (some c) = false) (hargs : args.config = some c)
    (autoIncrementing : Bool) (a : Attempt) (st : State) :
    (attempt e autoIncrementing args a st).Agrees (some c)
      (attempt e autoIncrementing args.plain a st) := by
  have hselect := fun st sql => runSelect_agrees (e := e) hc hargs a st sql
  have hcolumns : args.plain.columns = args.columns := rfl
  unfold attempt
  rw [hcolumns]
  cases generateSelectSql e args.columns with
  | error err => exact .of_nothing
  | ok sql =>
    dsimp only
    split_ifs
    · cases passMaximum e a st with
      | error err => exact .of_nothing
      | ok maximum =>
        dsimp only
        split_ifs
        · cases generatePkClause e (st.writeBookmark e.tapStreamId "max_pk_values" maximum) sql with
          | error err => exact .of_nothing
          | ok sql => exact hselect _ sql
        · exact hselect st sql
    · exact hselect st sql

/-- ACTIVATE_VERSION may come before the loop, and comes behind it when it returns. -/
theorem FullTable.syncTable_eq (e : CatalogEntry) (autoIncrement : String → Bool)
    (server : Nat → Attempt) (args : SyncArgs) (st : State) :
    syncTable e autoIncrement server args st =
      ((loop e autoIncrement server args st).after (firstActivation e args
        (whitelistBookmarkKeys (generateBookmarkKeys e) e.tapStreamId st))).thenState
          fun st => ([activateVersion e args], clearPass e st) := by
  unfold syncTable loop Outcome.thenState
  rw [Outcome.error_after]
  dsimp only
  split <;> rename_i herr <;> simp [Outcome.after, herr]

theorem FullTable.syncTable_agrees (hc : isArrow (some c) = false) (hargs : args.config = some c)
    (autoIncrement : String → Bool) (server : Nat → Attempt) (st : State) :
    (syncTable e autoIncrement server args st).Agrees (some c)
      (syncTable e autoIncrement server args.plain st) := by
  have hloop : (loop e autoIncrement server args st).Agrees (some c)
      (loop e autoIncrement server args.plain st) :=
    attempts_agrees hc hargs
      (fun n st => attempt_agrees hc hargs (pksAreAutoIncrementing autoIncrement e) (server n) st)
      maxSyncRetries 0 _
  rw [syncTable_eq, syncTable_eq]
  exact (hloop.after _).thenState _

theorem Incremental.attempt_agrees (hc : isArrow (some c) = false) (hargs : args.config = some c)
    (a : Attempt) (value : Val) (st : State) :
    (attempt e args a value st).Agrees (some c) (attempt e args.plain a value st) := by
  have hcolumns : args.plain.columns = args.columns := rfl
  unfold attempt
  rw [hcolumns]
  cases generateSelectSql e args.columns with
  | error err => exact .of_nothing
  | ok sql =>
    dsimp only
    cases whereClause e (e.streamMetadata "replication-key") value sql with
    | error err => exact .of_nothing
    | ok sql => exact runSelect_agrees hc hargs a st sql

theorem Incremental.syncTable_agrees (hc : isArrow (some c) = false)
    (hargs : args.config = some c) (server : Nat → Attempt) (now : Int) (st : State) :
    (syncTable e server args now st).Agrees (some c) (syncTable e server args.plain now st) := by
  have hargs' : (versionedArgs e args now st).config = some c := hargs
  have hloop := attempts_agrees hc hargs' (fun n st' => attempt_agrees (e := e) hc hargs'
    (server n) (if n = 0 then (startState e st).2 else
      st'.getBookmark e.tapStreamId "replication_key_value") st') maxSyncRetries 0
    (versioned e now st)
  exact hloop.after [.activateVersion e.stream (versionedArgs e args now st).streamVersion]

end Sync

/-! ### The SELECT phase -/

/-- The inputs of the sync of a stream, in RECORD mode. -/
def StreamRun.plain (run : StreamRun) : StreamRun := { run with args := run.args.plain }

section Phase

variable {c : BatchConfig} {e : CatalogEntry} {run : StreamRun} {autoIncrement : String → Bool}
  {gtidConfig : GtidConfig}

theorem doSyncIncremental_agrees (hc : isArrow (some c) = false)
    (hrun : run.args.config = some c) (st : State) :
    (doSyncIncremental e run st).Agrees (some c) (doSyncIncremental e run.plain st) := by
  have hsync := Incremental.syncTable_agrees (e := e) hc hrun run.server run.now st
  unfold doSyncIncremental
  split_ifs
  · exact .of_nothing
  · exact (hsync.thenState _).after _

theorem doSyncFullTable_agrees (hc : isArrow (some c) = false) (hrun : run.args.config = some c)
    (st : State) :
    (doSyncFullTable e autoIncrement run st).Agrees (some c)
      (doSyncFullTable e autoIncrement run.plain st) := by
  have hargs : (versionedArgs e run st).config = some c := hrun
  have hsync := FullTable.syncTable_agrees (e := e) hc hargs autoIncrement run.server st
  exact (hsync.thenState _).after _

theorem startSnapshot_agrees (hc : isArrow (some c) = false) (hrun : run.args.config = some c)
    (st : State) (position : Val × Val) (gtid : Val) :
    (startSnapshot e autoIncrement run st position gtid).Agrees (some c)
      (startSnapshot e autoIncrement run.plain st position gtid) := by
  have hargs : (versionedArgs e run st).config = some c := hrun
  have hsync := fun st' => FullTable.syncTable_agrees (e := e) hc hargs autoIncrement run.server st'
  unfold startSnapshot
  dsimp only
  split_ifs
  · exact hsync _
  · exact (hsync _).thenState _

theorem doSyncHistoricalBinlog_agrees (hc : isArrow (some c) = false)
    (hrun : run.args.config = some c) (st : State) :
    (doSyncHistoricalBinlog e autoIncrement gtidConfig run st).Agrees (some c)
      (doSyncHistoricalBinlog e autoIncrement gtidConfig run.plain st) := by
  have hargs : (versionedArgs e run st).config = some c := hrun
  have hmaster : run.plain.master = run.master := rfl
  unfold doSyncHistoricalBinlog
  rw [hmaster]
  split
  · exact .of_nothing
  · split
    · exact .of_nothing
    · by_cases hview : e.getIsView = true
      · rw [if_pos hview, if_pos hview]
        exact .of_nothing
      · rw [if_neg hview, if_neg hview]
        cases resumesSnapshot e gtidConfig.useGtid st with
        | true => exact (FullTable.syncTable_agrees hc hargs autoIncrement run.server st).after _
        | false =>
          rw [if_neg Bool.false_ne_true, if_neg Bool.false_ne_true]
          dsimp only
          split
          · exact Outcome.Agrees.of_nothing.after _
          · split
            · exact Outcome.Agrees.of_nothing.after _
            · exact (startSnapshot_agrees hc hrun st _ _).after _

theorem syncStream_agrees (hc : isArrow (some c) = false) (hrun : run.args.config = some c)
    (st : State) :
    (syncStream e autoIncrement gtidConfig run st).Agrees (some c)
      (syncStream e autoIncrement gtidConfig run.plain st) := by
  set run' : StreamRun := { run with args := { run.args with columns := e.schema.keys } }
  have hrun' : run'.args.config = some c := hrun
  unfold syncStream
  apply Outcome.Agrees.after
  cases e.replicationMethod with
  | incremental => exact doSyncIncremental_agrees hc hrun' _
  | logBased => exact doSyncHistoricalBinlog_agrees hc hrun' _
  | fullTable => exact doSyncFullTable_agrees hc hrun' _
  | other => exact .of_nothing

/-- The SELECT phases of the two modes go in step, stream by stream. -/
theorem syncNonBinlogStreams_agrees (hc : isArrow (some c) = false)
    {autoIncrement : CatalogEntry → String → Bool} {runs : CatalogEntry → StreamRun}
    (hruns : ∀ e, (runs e).args.config = some c) (streams : List CatalogEntry) (st : State) :
    (syncNonBinlogStreams autoIncrement gtidConfig runs streams st).Agrees (some c)
      (syncNonBinlogStreams autoIncrement gtidConfig (fun e => (runs e).plain) streams st) := by
  induction streams generalizing st with
  | nil => exact .of_nothing
  | cons e streams ih =>
    have hstream : (syncStream e (autoIncrement e) gtidConfig (runs e) st).Agrees (some c)
      (syncStream e (autoIncrement e) gtidConfig (runs e).plain st) :=
        syncStream_agrees hc (hruns e) st
    unfold syncNonBinlogStreams
    split_ifs
    · exact ih st
    · dsimp only
      rw [← hstream.error, ← hstream.state]
      cases herr : (syncStream e (autoIncrement e) gtidConfig (runs e) st).error with
      | some err => exact hstream
      | none => exact hstream.andThen (ih _) (by simp [herr])

end Phase

/-! ### The run -/

def Binlog.Effect.delivers : Effect → List (String × Record)
  | .message m => m.delivers
  | .autoPosition _ => []

/-- The rows that a run publishes, with their streams. -/
def deliveredBy (out : List Effect) : List (String × Record) := out.flatMap Effect.delivers

def Binlog.Effect.isControl : Effect → Bool
  | .message m => m.isControl
  | .autoPosition _ => true

def controlsOf (out : List Effect) : List Effect := out.filter Effect.isControl

theorem deliveredBy_append (out out' : List Effect) :
    deliveredBy (out ++ out') = deliveredBy out ++ deliveredBy out' :=
  List.flatMap_append

theorem controlsOf_append (out out' : List Effect) :
    controlsOf (out ++ out') = controlsOf out ++ controlsOf out' :=
  List.filter_append ..

theorem deliveredBy_messages (ms : List Message) :
    deliveredBy (ms.map .message) = delivered ms := by
  rw [deliveredBy, List.flatMap_map]
  rfl

theorem controlsOf_messages (ms : List Message) :
    controlsOf (ms.map .message) = (controls ms).map .message := by
  rw [controlsOf, List.filter_map]
  rfl

/-- The settings of the run, without `batch_config`. -/
def SyncConfig.plain (config : SyncConfig) : SyncConfig := { config with batchConfig := .null }

section Run

variable {S : SyncSource} {config : SyncConfig} {catalog : List CatalogEntry} {st : State}
  {plan : SyncPlan} {settings : BatchSettings}

theorem planSync_plain (h : planSync S config catalog st = .ok plan) :
    planSync S config.plain catalog st = .ok { plan with settings := none } := by
  obtain ⟨discovered₁, discovered₂, h₁, h₂, h₃, h₄, -⟩ := planSync_ok h
  simp only [planSync, h₁, h₂, Except.bind, h₃, h₄]
  rfl

theorem SyncPlan.select_agrees (S : SyncSource) (config : SyncConfig) (st : State)
    (hsettings : plan.settings = some settings) (hjsonl : settings.config.format = .jsonl) :
    (plan.select S config st).Agrees (some settings.config)
      ({ plan with settings := none }.select S config.plain st) := by
  have hc : isArrow (some settings.config) = false := by
    rw [isArrow, Option.filter_some, hjsonl]
    rfl
  have hruns : ∀ e, (S.runOf plan.settings e).args.config = some settings.config := by
    intro e
    rw [hsettings]
    rfl
  exact syncNonBinlogStreams_agrees hc hruns plan.nonBinlog st

/-- A run in BATCH mode with JSON Lines files ends like the run in RECORD mode, in the same state,
and announces the same. It publishes the same rows in the same order, without some; none is
missing exactly when no fetch that raised left rows in a writer. -/
theorem batch_mode_agrees (hplan : planSync S config catalog st = .ok plan)
    (hsettings : plan.settings = some settings) (hjsonl : settings.config.format = .jsonl) :
    (doSync S config catalog st).2 = (doSync S config.plain catalog st).2 ∧
    controlsOf (doSync S config catalog st).1 = controlsOf (doSync S config.plain catalog st).1 ∧
    (deliveredBy (doSync S config catalog st).1).Sublist
      (deliveredBy (doSync S config.plain catalog st).1) ∧
    ((∀ err, (plan.select S config st).error = some err → err.isOperational = true) →
      (deliveredBy (doSync S config catalog st).1 =
          deliveredBy (doSync S config.plain catalog st).1 ↔
        NothingHeld (some settings.config) (plan.select S config st).executed)) := by
  obtain ⟨hstate, herror, -, hcontrol, hrows, hwhole⟩ :=
    SyncPlan.select_agrees S config st hsettings hjsonl
  have hbinlog : config.plain.binlogConfig = config.binlogConfig := rfl
  unfold doSync
  rw [hplan, planSync_plain hplan]
  dsimp only
  rw [← herror, ← hstate, hbinlog]
  cases herr : (plan.select S config st).error with
  | some err =>
    dsimp only
    simp only [controlsOf_messages, deliveredBy_messages, hcontrol]
    exact ⟨trivial, trivial, hrows, fun hop => hwhole fun err' herr' => hop err' (herr ▸ herr')⟩
  | none =>
    -- the binlog phase starts from one state, and does the same
    dsimp only
    simp only [controlsOf_append, controlsOf_messages, deliveredBy_append, deliveredBy_messages,
      hcontrol]
    exact ⟨trivial, trivial, hrows.append_right _,
      fun _ => (List.append_left_inj _).trans (hwhole (by simp [herr]))⟩

end Run

/-! ### A row that waits when the connection is lost -/

namespace Sample

/-- The connection is lost behind the one row of the first attempt. -/
def lossyServer : SyncSource :=
  { server [] with
    runs := fun _ =>
      { oneRowRun with
        server := fun n => ⟨.ok none, fun sql => ⟨sql.columns.map Mysql.columnName, [[[.int 1]]],
          if n = 0 then some connectionLost else none⟩⟩ } }

def lossySettings : SyncConfig :=
  { settings with batchConfig := .dict [(.str "batch_size", .int 10)] }

def lossyBatches : BatchSettings := ⟨⟨10, .jsonl, by decide⟩, .str "/tmp", .str "gzip"⟩

def lossyPlan : SyncPlan := { firstPlan with settings := some lossyBatches }

theorem lossyPlan_eq :
    planSync lossyServer lossySettings [Binlog.Sample.entry] State.empty = .ok lossyPlan := by
  rfl

end Sample

/-- RECORD mode writes the row twice, BATCH mode once. -/
theorem batch_mode_agrees_lossy :
    (doSync Sample.lossyServer Sample.lossySettings [Binlog.Sample.entry] State.empty).2 =
      (doSync Sample.lossyServer Sample.lossySettings.plain [Binlog.Sample.entry]
        State.empty).2 ∧
    deliveredBy (doSync Sample.lossyServer Sample.lossySettings [Binlog.Sample.entry]
        State.empty).1 ≠
      deliveredBy (doSync Sample.lossyServer Sample.lossySettings.plain [Binlog.Sample.entry]
        State.empty).1 := by
  obtain ⟨hresult, -, -, hwhole⟩ :=
    batch_mode_agrees Sample.lossyPlan_eq
      (rfl : Sample.lossyPlan.settings = some Sample.lossyBatches) rfl
  refine ⟨hresult, fun hsame => ?_⟩
  have hheld := (hwhole (by decide)).mp hsame _ List.mem_cons_self rfl
  cases hheld

end TapMysql
