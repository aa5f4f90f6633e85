import TapMysql.Binlog.NoSkip
import TapMysql.Lib.Segments

/-!
# Consecutive runs

Runs in log file and position mode, each of which starts at the position that the one before
stored. When the columns of the catalog match every event, a run writes the records of one
segment of the binlog, and the segments of consecutive runs join to that of a single run.
-/

namespace TapMysql.Binlog

open Loop (Reaches)
open Segment

/-! ### The reader of a run -/

/-- A position that a bookmark can hold: events end behind the first bytes of a file. -/
def Storable (p : Position) : Prop := (ofLex p).1 ≠ "" ∧ (ofLex p).2 ≠ 0

instance (p : Position) : Decidable (Storable p) := inferInstanceAs (Decidable (_ ∧ _))

/-- The artificial event with which the server opens a file; it names the position asked for. -/
def openingRotate (p : Position) : LogEntry :=
  ⟨(ofLex p).1, (ofLex p).2, .rotate (ofLex p).1 (ofLex p).2, "", 0⟩

/-- What a reader created at `p` goes through. -/
def readerLog (opened : Bool) (p : Position) (log : List LogEntry) : List LogEntry :=
  (if opened then [openingRotate p] else []) ++
    log.filter fun e => decide (p < e.readerPosition)

def Env.upTo (env : Env) (p : Position) : Env :=
  { env with endLogFile := (ofLex p).1, endLogPos := (ofLex p).2 }

@[simp] theorem Env.upTo_endPosition (env : Env) (p : Position) :
    (env.upTo p).endPosition = p := rfl

@[simp] theorem Env.upTo_lib (env : Env) (p : Position) : (env.upTo p).lib = env.lib := rfl

@[simp] theorem openingRotate_position (p : Position) : (openingRotate p).readerPosition = p := rfl

theorem mem_readerLog {opened : Bool} {p : Position} {log : List LogEntry} {e : LogEntry}
    (h : e ∈ readerLog opened p log) :
    e = openingRotate p ∨ e ∈ log ∧ p < e.readerPosition := by
  rcases List.mem_append.mp h with h | h
  · split_ifs at h
    · exact .inl (List.mem_singleton.mp h)
    · cases h
  · exact .inr (by simpa using h)

theorem readerLog_ordered (opened : Bool) (p : Position) {log : List LogEntry}
    (h : log.Pairwise fun e e' => e'.After e.readerPosition) :
    Ordered p (readerLog opened p log) := by
  constructor
  · intro e he
    rcases mem_readerLog he with rfl | ⟨-, hlt⟩
    · exact ⟨le_rfl, fun hr => absurd hr (by simp [LogEntry.isRotate, openingRotate])⟩
    · exact ⟨hlt.le, fun _ => hlt⟩
  · apply List.pairwise_append.mpr
    refine ⟨?_, h.filter _, ?_⟩
    · split_ifs
      · exact List.pairwise_singleton _ _
      · exact .nil
    · intro e he e' he'
      have hlt : p < e'.readerPosition := by simpa using (List.mem_filter.mp he').2
      split_ifs at he
      · rw [List.mem_singleton.mp he, openingRotate_position]
        exact ⟨hlt.le, fun _ => hlt⟩
      · cases he

theorem readerLog_rows (opened : Bool) (p : Position) (log : List LogEntry) :
    (readerLog opened p log).filter LogEntry.isRows =
      (log.filter fun e => decide (p < e.readerPosition)).filter LogEntry.isRows := by
  rw [readerLog, List.filter_append]
  cases opened with
  | true => simp [openingRotate, LogEntry.isRows]
  | false => rfl

theorem between_rows (opened : Bool) (p q : Position) (log : List LogEntry) :
    (between LogEntry.readerPosition p q log).filter LogEntry.isRows =
      ((readerLog opened p log).filter LogEntry.isRows).filter
        fun e => decide (e.readerPosition ≤ q) := by
  rw [readerLog_rows, between, List.filter_filter, List.filter_filter, List.filter_filter]
  apply List.filter_congr
  intro e _
  by_cases hlt : p < e.readerPosition <;> by_cases hle : e.readerPosition ≤ q <;>
    cases e.isRows <;> simp [hlt, hle]

/-! ### Records under a matching catalog -/

/-- The event has no column that the schema of its stream lacks. -/
def ColumnsMatch (m : StreamsMap) (ev : RowsEvent) : Prop :=
  ∀ entry, m.get? ev.tapStreamId = some entry →
    getDiffInColumnsList ev entry.catalogEntry.schema.keys [] = []

/-- The RECORD messages of a delivery under the entries of `m`, and the error that ends them. -/
def Delivery.answer (lib : RenderLib) (m : StreamsMap) (st : State) (d : Delivery) :
    List Message × Option Err :=
  match d.event with
  | .rows ev =>
    match m.get? ev.tapStreamId with
    | none => ([], none)
    | some entry =>
      match verifyEventColumnNames ev ev.tapStreamId d.logFile d.logPos with
      | .error e => ([], some e)
      | .ok () =>
        handleRowsEvent
          ⟨lib, entry.catalogEntry, st, entry.desiredColumns, d.now, d.millis⟩ ev
  | _ => ([], none)

def LogEntry.answer (lib : RenderLib) (m : StreamsMap) (st : State) (e : LogEntry) :
    List Message × Option Err :=
  match e.delivery false with
  | none => ([], none)
  | some d => d.answer lib m st

/-- The records of the entries in the segment from `p` to `q`. -/
def recordsBetween (lib : RenderLib) (m : StreamsMap) (st : State) (log : List LogEntry)
    (p q : Position) : List Message :=
  (between LogEntry.readerPosition p q log).flatMap fun e => (e.answer lib m st).1

/-- States that give every stream the same version. -/
def SameVersions (st st' : State) : Prop :=
  ∀ s, st.getBookmark s "version" = st'.getBookmark s "version"

theorem answer_congr {lib : RenderLib} {m : StreamsMap} {st st' : State}
    (h : SameVersions st st') (d : Delivery) : d.answer lib m st = d.answer lib m st' := by
  have hrows : ∀ entry columns ev,
      handleRowsEvent ⟨lib, entry, st, columns, d.now, d.millis⟩ ev =
        handleRowsEvent ⟨lib, entry, st', columns, d.now, d.millis⟩ ev := by
    intro entry columns ev
    rw [handleRowsEvent_eq, handleRowsEvent_eq, handleRows, handleRows, getStreamVersion,
      getStreamVersion, h]
  simp only [Delivery.answer, hrows]

theorem LogEntry.answer_congr {lib : RenderLib} {m : StreamsMap} {st st' : State}
    (h : SameVersions st st') (e : LogEntry) : e.answer lib m st = e.answer lib m st' := by
  rw [LogEntry.answer, LogEntry.answer]
  cases e.delivery false with
  | none => rfl
  | some d => exact Binlog.answer_congr h d

theorem recordsBetween_congr {lib : RenderLib} {m : StreamsMap} {st st' : State}
    (h : SameVersions st st') (log : List LogEntry) (p q : Position) :
    recordsBetween lib m st log p q = recordsBetween lib m st' log p q := by
  simp only [recordsBetween, LogEntry.answer_congr h]

theorem answer_of_not_rows {lib : RenderLib} {m : StreamsMap} {st : State} {e : LogEntry}
    (h : e.isRows = false) : e.answer lib m st = ([], none) := by
  rw [LogEntry.answer]
  cases hd : e.delivery false with
  | none => rfl
  | some d =>
    rw [LogEntry.delivery, Option.map_eq_some_iff] at hd
    obtain ⟨event, hs, rfl⟩ := hd
    rw [LogEntry.surfaced] at hs
    rw [LogEntry.isRows] at h
    cases hb : e.body with
    | rows ev => simp [hb] at h
    | rotate next position =>
      simp only [hb, Bool.false_eq_true, if_false, Option.some.injEq] at hs
      rw [← hs]
      rfl
    | gtid g => simp [hb] at hs
    | tableMap schema table => simp [hb] at hs
    | filtered => simp [hb] at hs

theorem flatMap_answer_rows (lib : RenderLib) (m : StreamsMap) (st : State) (l : List LogEntry) :
    (l.filter LogEntry.isRows).flatMap (fun e => (e.answer lib m st).1) =
      l.flatMap fun e => (e.answer lib m st).1 := by
  induction l with
  | nil => rfl
  | cons e l ih =>
    cases hrows : e.isRows with
    | true => rw [List.filter_cons_of_pos hrows, List.flatMap_cons, List.flatMap_cons, ih]
    | false =>
      rw [List.filter_cons_of_neg (by simp [hrows]), List.flatMap_cons, answer_of_not_rows hrows,
        ih, List.nil_append]

theorem flatMap_answer_deliveries (lib : RenderLib) (m : StreamsMap) (st : State)
    (l : List LogEntry) :
    (deliveries false l).flatMap (fun d => (d.answer lib m st).1) =
      l.flatMap fun e => (e.answer lib m st).1 := by
  induction l with
  | nil => rfl
  | cons e l ih =>
    rw [List.flatMap_cons, ← ih, LogEntry.answer, deliveries, List.filterMap_cons]
    cases e.delivery false with
    | none => rfl
    | some d => rfl

/-! ### One iteration -/

/-- The positions that the STATE messages of an output store for a stream. -/
def storedIn (s : String) (out : List Effect) : List Position :=
  out.filterMap fun
    | .message (.state st) => storedPosition st s
    | _ => none

@[simp] theorem storedIn_append (s : String) (out em : List Effect) :
    storedIn s (out ++ em) = storedIn s out ++ storedIn s em :=
  List.filterMap_append

theorem storedIn_eq_nil {s : String} {out : List Effect}
    (h : ∀ st, Effect.message (.state st) ∉ out) : storedIn s out = [] := by
  rw [storedIn, List.filterMap_eq_nil_iff]
  intro x hx
  cases x with
  | autoPosition g => rfl
  | message m =>
    cases m with
    | state st => exact absurd hx (h st)
    | _ => rfl

/-- A delivery that the loop can store and whose columns match. -/
structure Delivery.Fits (m : StreamsMap) (d : Delivery) : Prop where
  storable : Storable d.position
  rotate : ∀ f p, d.event = .rotate f p → toLex (f, p) = d.position
  gtid : ∀ g, d.event ≠ .gtid g
  columns : ∀ ev, d.event = .rows ev → ColumnsMatch m ev

theorem updateBookmarks_of_storable {p : Position} (hp : Storable p) (st : State) (m : StreamsMap)
    (g : Option String) :
    ∃ st', updateBookmarks st m (ofLex p).1 (ofLex p).2 g = .ok st' := by
  refine ⟨_, if_neg ?_⟩
  intro h
  exact hp.2 h.2

theorem sameVersions_updateBookmarks {st st' st'' : State} {m : StreamsMap} {f : String} {p : ℕ}
    {g : Option String} (h : updateBookmarks st' m f p g = .ok st'') (hv : SameVersions st st') :
    SameVersions st st'' := by
  intro s
  rw [hv s, getBookmark_updateBookmarks h s "version"]
  split_ifs <;> rfl

/-- What a loop head keeps while the columns of all events match. -/
structure Following (m : StreamsMap) (st : State) (v : Vars) : Prop where
  map : v.streamsMap = m
  ignored : v.ignoredColumns = []
  versions : SameVersions st v.state

theorem Following.start (m : StreamsMap) (st : State) : Following m st (initialVars m st none) :=
  ⟨rfl, rfl, fun _ => rfl⟩

section Iteration

variable {env : Env} {m : StreamsMap} {st : State} {v v' : Vars} {d : Delivery} {em : List Effect}

theorem Following.place (h : Following m st v) {ev : RowsEvent} {entry : StreamsMapEntry}
    (hmatch : ColumnsMatch m ev) (hs : m.get? ev.tapStreamId = some entry) :
    placeColumns env v ev.tapStreamId entry ev = .ok ⟨[], entry, v⟩ := by
  have hnil := hmatch entry hs
  rw [placeColumns]
  simp only [h.ignored, hnil, List.isEmpty_nil, if_true]

/-- The branch of the loop for the event does what `Delivery.answer` says. -/
def Answers (env : Env) (m : StreamsMap) (st : State) (v : Vars) (d : Delivery) : Prop :=
  (∃ em err, handleEvent env v d = (em, .error err) ∧ (d.answer env.lib m st).2 = some err) ∨
  ∃ em v', handleEvent env v d = (em, .ok v') ∧ d.answer env.lib m st = (recordsOf em, none) ∧
    Following m st v' ∧ v'.logFile = v.logFile ∧ v'.logPos = v.logPos

theorem Following.rotate (h : Following m st v) (hfits : d.Fits m) {f : String} {p : ℕ}
    (hd : d.event = .rotate f p) : Answers env m st v d := by
  have hstorable : Storable (toLex (f, p)) := hfits.rotate f p hd ▸ hfits.storable
  obtain ⟨st', hu⟩ : ∃ st', updateBookmarks v.state v.streamsMap f p v.gtidPos = .ok st' :=
    updateBookmarks_of_storable hstorable v.state v.streamsMap v.gtidPos
  refine .inr ⟨[], { v with state := st' }, ?_, ?_,
    ⟨h.map, h.ignored, sameVersions_updateBookmarks hu h.versions⟩, rfl, rfl⟩
  · simp [handleEvent, hd, hu]
  · simp [Delivery.answer, hd, recordsOf]

theorem Following.unselected (h : Following m st v) {ev : RowsEvent} (hd : d.event = .rows ev)
    (hs : m.get? ev.tapStreamId = none) : Answers env m st v d := by
  have hmap : v.streamsMap.get? ev.tapStreamId = none := h.map ▸ hs
  refine .inr ⟨[], { v with eventsSkipped := v.eventsSkipped + 1 }, ?_, ?_,
    ⟨h.map, h.ignored, h.versions⟩, rfl, rfl⟩
  · simp [handleEvent, hd, handleEventOfRows, hmap]
  · simp [Delivery.answer, hd, hs, recordsOf]

theorem Following.selected (h : Following m st v) (hfits : d.Fits m) {ev : RowsEvent}
    {entry : StreamsMapEntry} (hd : d.event = .rows ev)
    (hs : m.get? ev.tapStreamId = some entry) : Answers env m st v d := by
  have hmap : v.streamsMap.get? ev.tapStreamId = some entry := h.map ▸ hs
  have hplace : placeColumns env v ev.tapStreamId entry ev = .ok ⟨[], entry, v⟩ :=
    h.place (hfits.columns ev hd) hs
  rw [Answers, answer_congr h.versions, Delivery.answer, hd]
  cases hnames : verifyEventColumnNames ev ev.tapStreamId d.logFile d.logPos with
  | error e =>
    refine .inl ⟨[], e, ?_, by simp [hs, hnames]⟩
    simp [handleEvent, hd, handleEventOfRows, hmap, hnames]
  | ok u =>
    have hrecords := recordsOf_handleRowsEvent ⟨env.lib, entry.catalogEntry, v.state,
      entry.desiredColumns, d.now, d.millis⟩ ev
    cases hr : handleRowsEvent ⟨env.lib, entry.catalogEntry, v.state, entry.desiredColumns,
        d.now, d.millis⟩ ev with
    | mk ms err? =>
      rw [hr] at hrecords
      cases err? with
      | some e =>
        refine .inl ⟨ms.map .message, e, ?_, by simp [hs, hnames, hr]⟩
        simp [handleEvent, hd, handleEventOfRows, hmap, hnames, hplace, hr]
      | none =>
        refine .inr ⟨ms.map .message,
          { v with processedRowsEvents := v.processedRowsEvents + ev.change.rowCount }, ?_, ?_,
          ⟨h.map, h.ignored, h.versions⟩, rfl, rfl⟩
        · simp [handleEvent, hd, handleEventOfRows, hmap, hnames, hplace, hr]
        · simp only [hs, hnames, hr]
          rw [hrecords]

theorem Following.handle (h : Following m st v) (hfits : d.Fits m) : Answers env m st v d := by
  cases hd : d.event with
  | gtid g => exact absurd hd (hfits.gtid g)
  | rotate f p => exact h.rotate hfits hd
  | rows ev =>
    cases hs : m.get? ev.tapStreamId with
    | none => exact h.unselected hd hs
    | some entry => exact h.selected hfits hd hs

theorem Following.takePosition (h : Following m st v) (d : Delivery) :
    Following m st (takePosition v d) := ⟨h.map, h.ignored, h.versions⟩

theorem Following.next (h : Following m st v) (hfits : d.Fits m)
    (hend : reachedEnd env d = false) (hnone : (d.answer env.lib m st).2 = none) :
    ∃ em v', iteration env v d = .next em v' := by
  have hhandle : Answers env m st (Binlog.takePosition v d) d := (h.takePosition d).handle hfits
  rcases hhandle with ⟨em, err, -, herr⟩ | ⟨em, v', he, -⟩
  · rw [hnone] at herr
    cases herr
  · exact iteration_of_handleEvent hend he hfits.storable.2

/-- What an iteration that goes on writes and keeps. -/
theorem Following.step (h : Following m st v) (hfits : d.Fits m)
    (hs : iteration env v d = .next em v') :
    d.answer env.lib m st = (recordsOf em, none) ∧ Following m st v' ∧
      v'.logFile = some d.logFile ∧ v'.logPos = some d.logPos := by
  obtain ⟨-, em₁, v₁, he, hcase⟩ := iteration_next hs
  have hhandle : Answers env m st (Binlog.takePosition v d) d := (h.takePosition d).handle hfits
  rcases hhandle with ⟨em₂, err, he', -⟩ | ⟨em₂, v₂, he', hanswer, hfollow, hfile, hpos⟩
  · rw [he] at he'
    cases he'
  · rw [he] at he'
    cases he'
    rcases hcase with ⟨-, rfl, rfl⟩ | ⟨-, st', hu, rfl, rfl⟩
    · exact ⟨hanswer, hfollow, hfile, hpos⟩
    · refine ⟨?_, ⟨hfollow.map, hfollow.ignored,
        sameVersions_updateBookmarks hu hfollow.versions⟩, hfile, hpos⟩
      rw [recordsOf_append, hanswer]
      simp [recordsOf, Effect.record?]

end Iteration

/-! ### Loop heads -/

/-- What holds after some deliveries that all fit. -/
structure Followed (env : Env) (m : StreamsMap) (st : State) (ds : List Delivery)
    (out : List Effect) (v : Vars) : Prop where
  following : Following m st v
  records : recordsOf out = ds.flatMap fun d => (d.answer env.lib m st).1
  taken : ∀ d ∈ ds, reachedEnd env d = false ∧ (d.answer env.lib m st).2 = none
  logFile : v.logFile = ds.getLast?.map Delivery.logFile
  logPos : v.logPos = ds.getLast?.map Delivery.logPos
  untouched : ds = [] → v.state = st

theorem reaches_followed {env : Env} {m : StreamsMap} {st : State} {ds : List Delivery}
    {out : List Effect} {v : Vars} (hfits : ∀ d ∈ ds, d.Fits m)
    (hr : Reaches (iteration env) (initialVars m st none) ds out v) :
    Followed env m st ds out v := by
  induction hr with
  | start => exact ⟨.start m st, rfl, by simp, rfl, rfl, fun _ => rfl⟩
  | @step ds out v d em v' hr hs ih =>
    have hv := ih fun d' hd' => hfits d' (List.mem_append_left _ hd')
    obtain ⟨hanswer, hfollow, hfile, hpos⟩ := hv.following.step (hfits d (by simp)) hs
    refine ⟨hfollow, ?_, ?_, by simpa using hfile, by simpa using hpos, by simp⟩
    · rw [recordsOf_append, hv.records, List.flatMap_append]
      simp [hanswer]
    · intro d' hd'
      rcases List.mem_append.mp hd' with hd' | hd'
      · exact hv.taken d' hd'
      · rw [List.mem_singleton.mp hd', hanswer]
        exact ⟨(iteration_next hs).1, rfl⟩

theorem reaches_storedIn {env : Env} {v₀ v : Vars} {ds : List Delivery} {out : List Effect}
    (hr : Reaches (iteration env) v₀ ds out v) {s : String} (hs : s ∈ v₀.streamsMap.keys) :
    (storedIn s out).Sublist (ds.map Delivery.position) := by
  induction hr with
  | start => exact .refl _
  | @step ds out v d em v' hr hstep ih =>
    obtain ⟨-, em₁, v₁, he, hcase⟩ := iteration_next hstep
    have hnone : storedIn s em₁ = [] := by
      apply storedIn_eq_nil
      intro st hst
      refine handleEvent_no_state env (takePosition v d) d st ?_
      rw [he]
      exact hst
    rw [storedIn_append, List.map_append]
    rcases hcase with ⟨-, rfl, -⟩ | ⟨-, st, hu, rfl, rfl⟩
    · rw [hnone, List.append_nil]
      exact ih.trans (List.sublist_append_left _ _)
    · apply ih.append
      have hkeys : v₁.streamsMap.keys = v₀.streamsMap.keys := (reaches_marked (hr.step hstep)).keys
      have hstored := storedPosition_updateBookmarks hu s
      rw [if_pos (hkeys ▸ hs)] at hstored
      rw [storedIn_append, hnone, List.nil_append]
      simp [storedIn, hstored, Delivery.position]

/-! ### One run -/

theorem finish_none {env : Env} {v : Vars} (h : v.logFile = none) : finish env v = .ok v.state := by
  rw [finish, positionOf, h]

theorem finish_at {env : Env} {v : Vars} {f : String} {k : ℕ} (hf : v.logFile = some f)
    (hk : v.logPos = some k) (hs : Storable (toLex (f, k))) :
    finish env v = updateBookmarks v.state v.streamsMap f (finalPosition env f k) v.gtidPos := by
  have hno : ¬ (f = "" ∨ k = 0) := not_or.mpr hs
  rw [finish, positionOf, hf, hk]
  simp only [hno, if_false]

theorem finalPosition_ne_zero {env : Env} {f : String} {k : ℕ} (hk : k ≠ 0) :
    finalPosition env f k ≠ 0 := by
  rw [finalPosition]
  split_ifs <;> omega

theorem finalPosition_between {env : Env} {f : String} {k : ℕ}
    (h : toLex (f, k) < env.endPosition) :
    toLex (f, k) ≤ toLex (f, finalPosition env f k) ∧
      toLex (f, finalPosition env f k) ≤ env.endPosition := by
  rw [finalPosition]
  split_ifs with hend
  · obtain ⟨rfl, hlt⟩ := hend
    refine ⟨Prod.Lex.toLex_le_toLex.mpr (.inr ⟨rfl, ?_⟩), le_rfl⟩
    exact hlt.le
  · exact ⟨le_rfl, h.le⟩

/-- A binlog whose positions can be stored and whose columns match the catalog. -/
structure Suits (m : StreamsMap) (log : List LogEntry) : Prop where
  ordered : log.Pairwise fun e e' => e'.After e.readerPosition
  storable : ∀ e ∈ log, Storable e.readerPosition
  columns : ∀ e ∈ log, ∀ ev, e.body = .rows ev → ColumnsMatch m ev

theorem delivery_fits {m : StreamsMap} {e : LogEntry} {d : Delivery}
    (hs : Storable e.readerPosition) (hc : ∀ ev, e.body = .rows ev → ColumnsMatch m ev)
    (h : e.delivery false = some d) : d.Fits m := by
  refine ⟨delivery_position h ▸ hs, fun f p hd => ?_, fun g hd => ?_, fun ev hd => hc ev ?_⟩
  · rw [← delivery_rotate h hd, delivery_position h]
  all_goals
    rw [LogEntry.delivery, Option.map_eq_some_iff] at h
    obtain ⟨event, hsurfaced, rfl⟩ := h
    subst hd
    rw [LogEntry.surfaced] at hsurfaced
    cases hb : e.body <;> simp_all

theorem readerLog_fits {m : StreamsMap} {log : List LogEntry} (h : Suits m log) {opened : Bool}
    {p : Position} (hp : Storable p) :
    ∀ d ∈ deliveries false (readerLog opened p log), d.Fits m := by
  intro d hd
  obtain ⟨e, he, hde⟩ := mem_of_delivery hd
  rcases mem_readerLog he with rfl | ⟨hmem, -⟩
  · exact delivery_fits (e := openingRotate p) hp (fun ev hb => by simp [openingRotate] at hb) hde
  · exact delivery_fits (h.storable e hmem) (h.columns e hmem) hde

/-- One run of `_run_binlog_sync`: whether the server names the file first, how many events the
reader goes through, and the captured end. -/
structure RunOver where
  opened : Bool
  read : ℕ
  captured : Position

def runFrom (env : Env) (m : StreamsMap) (log : List LogEntry) (st : State) (p : Position)
    (r : RunOver) : List Effect × Except Err State :=
  runBinlogSync (env.upTo r.captured) m st none
    (deliveries false ((readerLog r.opened p log).take r.read)) none

/-- What a run from `p` with captured end `r.captured` comes to. -/
structure SegmentWritten (env : Env) (m : StreamsMap) (log : List LogEntry) (st : State)
    (p : Position) (captured : Position) (out : List Effect) (st' : State) (q : Position) :
    Prop where
  storable : Storable q
  stored : ∀ s ∈ m.keys, storedPosition st' s = some q
  start_le : p ≤ q
  le_captured : q ≤ captured
  versions : SameVersions st st'
  records : recordsOf out = recordsBetween env.lib m st log p q
  rest : recordsBetween env.lib m st log q captured = []
  accepted : ∀ e ∈ between LogEntry.readerPosition p captured log,
    (e.answer env.lib m st).2 = none
  bookmarks : ∀ s ∈ m.keys, (p :: (storedIn s out ++ [q])).Pairwise (· ≤ ·)

section Segments

variable {env : Env} {m : StreamsMap} {st st' : State} {p : Position} {log : List LogEntry}
  {out : List Effect} {r : RunOver}

/-- Where the run leaves the bookmarks: behind all deliveries, and not behind the captured end. -/
theorem finish_position {ds : List Delivery} {v : Vars} (hfits : ∀ d ∈ ds, d.Fits m)
    (h : Followed env m st ds out v) (hsorted : (p :: ds.map Delivery.position).Pairwise (· ≤ ·))
    (hst : ∀ s ∈ m.keys, storedPosition st s = some p) (hstart : Storable p)
    (hp : p ≤ env.endPosition) (hend : Storable env.endPosition)
    (hf : finish env v = .ok st' ∨ finish env
      { v with logFile := some env.endLogFile, logPos := some env.endLogPos } = .ok st') :
    ∃ q, Storable q ∧ p ≤ q ∧ q ≤ env.endPosition ∧ (∀ d ∈ ds, d.position ≤ q) ∧
      (∀ s ∈ m.keys, storedPosition st' s = some q) ∧ SameVersions st st' := by
  obtain ⟨hfirst, hpair⟩ := List.pairwise_cons.mp hsorted
  have hbefore : ∀ d ∈ ds, d.position < env.endPosition := by
    intro d hd
    apply lt_of_not_ge
    intro hge
    have hreach := reachedEnd_iff.mpr hge
    rw [(h.taken d hd).1] at hreach
    cases hreach
  have hstores : ∀ {f k}, updateBookmarks v.state v.streamsMap f k v.gtidPos = .ok st' →
      (∀ s ∈ m.keys, storedPosition st' s = some (toLex (f, k))) ∧ SameVersions st st' := by
    intro f k hu
    refine ⟨fun s hs => ?_, sameVersions_updateBookmarks hu h.following.versions⟩
    rw [storedPosition_updateBookmarks hu, if_pos (h.following.map ▸ hs)]
  rcases hf with hf | hf
  · rcases List.eq_nil_or_concat ds with rfl | ⟨ds', d, rfl⟩
    · -- nothing was delivered
      rw [finish_none (by rw [h.logFile]; rfl), Except.ok.injEq] at hf
      rw [← hf, h.untouched rfl]
      exact ⟨p, hstart, le_rfl, hp, by simp, hst, fun _ => rfl⟩
    · rw [List.concat_eq_append] at *
      have hmem : d ∈ ds' ++ [d] := by simp
      rw [finish_at (by simp [h.logFile]) (by simp [h.logPos])
        (hfits d hmem).storable] at hf
      obtain ⟨hle, hcaptured⟩ := finalPosition_between (hbefore d hmem)
      refine ⟨toLex (d.logFile, finalPosition env d.logFile d.logPos),
        ⟨(hfits d hmem).storable.1, ?_⟩,
        (hfirst d.position (List.mem_map_of_mem hmem)).trans hle, hcaptured, ?_, hstores hf⟩
      · exact finalPosition_ne_zero (hfits d hmem).storable.2
      intro d' hd'
      rcases List.mem_append.mp hd' with hd' | hd'
      · rw [List.map_append] at hpair
        have hlast := (List.pairwise_append.mp hpair).2.2 d'.position
          (List.mem_map_of_mem hd') d.position (by simp)
        exact hlast.trans hle
      · rw [List.mem_singleton.mp hd']
        exact hle
  · rw [finish_at rfl rfl hend] at hf
    have hfinal : finalPosition env env.endLogFile env.endLogPos = env.endLogPos := by
      rw [finalPosition, if_neg (fun h => lt_irrefl _ h.2)]
    rw [hfinal] at hf
    exact ⟨_, hend, hp, le_rfl, fun d hd => (hbefore d hd).le, hstores hf⟩

theorem recordsBetween_of_rows {lib : RenderLib} {q : Position} {l : List LogEntry}
    (h : (between LogEntry.readerPosition p q log).filter LogEntry.isRows =
      l.filter LogEntry.isRows) :
    recordsBetween lib m st log p q = l.flatMap fun e => (e.answer lib m st).1 := by
  rw [recordsBetween, ← flatMap_answer_rows, h, flatMap_answer_rows]

theorem recordsBetween_append {lib : RenderLib} {q x : Position} (hlog : Suits m log)
    (hpq : p ≤ q) (hqx : q ≤ x) :
    recordsBetween lib m st log p q ++ recordsBetween lib m st log q x =
      recordsBetween lib m st log p x := by
  have hsorted : log.Pairwise fun e e' => e.readerPosition ≤ e'.readerPosition :=
    hlog.ordered.imp fun h => h.1
  rw [recordsBetween, recordsBetween, recordsBetween, ← List.flatMap_append,
    between_append_between hsorted hpq hqx]

theorem deliveries_sorted {l₁ l₂ : List LogEntry} (h : Ordered p (l₁ ++ l₂)) :
    (p :: (deliveries false l₁).map Delivery.position).Pairwise (· ≤ ·) := by
  have hsub : ∀ l, ((deliveries false l).map Delivery.position).Sublist
      (l.map LogEntry.readerPosition) := by
    intro l
    induction l with
    | nil => exact .refl _
    | cons e l ih =>
      rw [deliveries, List.filterMap_cons]
      cases hd : e.delivery false with
      | none => exact ih.cons _
      | some d =>
        rw [List.map_cons, List.map_cons, delivery_position hd]
        exact ih.cons_cons _
  apply List.Pairwise.sublist ((hsub l₁).cons_cons p)
  apply List.pairwise_cons.mpr
  constructor
  · intro x hx
    obtain ⟨e, he, rfl⟩ := List.mem_map.mp hx
    exact (h.after_start e (List.mem_append_left _ he)).1
  · exact List.pairwise_map.mpr (h.left.imp fun hafter => hafter.1)

theorem row_delivered {l : List LogEntry} {e : LogEntry} (he : e ∈ l) (hrows : e.isRows = true) :
    ∃ d ∈ deliveries false l, e.delivery false = some d := by
  obtain ⟨d, hd⟩ : ∃ d, e.delivery false = some d := by
    rw [LogEntry.isRows] at hrows
    cases hb : e.body with
    | rows ev => exact ⟨_, by rw [LogEntry.delivery, LogEntry.surfaced, hb]; rfl⟩
    | _ => simp [hb] at hrows
  exact ⟨d, List.mem_filterMap.mpr ⟨e, he, hd⟩, hd⟩

/-- The row events of the segment up to `x` are those of the part of the log that was taken. -/
theorem segment_rows {opened : Bool} {l₁ l₂ : List LogEntry} {x : Position}
    (hsplit : readerLog opened p log = l₁ ++ l₂)
    (h₁ : ∀ e ∈ l₁, e.isRows = true → e.readerPosition ≤ x)
    (h₂ : ∀ e ∈ l₂, e.isRows = true → x < e.readerPosition) :
    (between LogEntry.readerPosition p x log).filter LogEntry.isRows =
      l₁.filter LogEntry.isRows := by
  rw [between_rows opened, hsplit, List.filter_append, List.filter_append]
  have htaken : (l₁.filter LogEntry.isRows).filter (fun e => decide (e.readerPosition ≤ x)) =
      l₁.filter LogEntry.isRows := by
    apply List.filter_eq_self.mpr
    intro e he
    obtain ⟨hmem, hrows⟩ := List.mem_filter.mp he
    exact decide_eq_true (h₁ e hmem hrows)
  have hleft : (l₂.filter LogEntry.isRows).filter (fun e => decide (e.readerPosition ≤ x)) =
      [] := by
    apply List.filter_eq_nil_iff.mpr
    intro e he
    obtain ⟨hmem, hrows⟩ := List.mem_filter.mp he
    simpa using h₂ e hmem hrows
  rw [htaken, hleft, List.append_nil]

theorem run_segment (hlog : Suits m log) (hst : ∀ s ∈ m.keys, storedPosition st s = some p)
    (hp : Storable p) (hle : p ≤ r.captured) (hend : Storable r.captured)
    (hcommit : EndClosesCommit (env.upTo r.captured) log)
    (hread : ReadsToEnd (env.upTo r.captured) none ((readerLog r.opened p log).drop r.read))
    (hrun : runFrom env m log st p r = (out, .ok st')) :
    ∃ q, SegmentWritten env m log st p r.captured out st' q := by
  have hord := readerLog_ordered r.opened p hlog.ordered
  have hcommit' : EndClosesCommit (env.upTo r.captured) (readerLog r.opened p log) := by
    intro e he hrows
    rcases mem_readerLog he with rfl | ⟨hmem, -⟩
    · cases hrows
    · exact hcommit e hmem hrows
  obtain ⟨l₁, l₂, v, hsplit, hr, hbehind, hfinish⟩ := run_returns hord hcommit' hread hrun
  have hfits : ∀ d ∈ deliveries false l₁, d.Fits m := by
    intro d hd
    have hmem : d ∈ deliveries false (readerLog r.opened p log) := by
      rw [hsplit, deliveries_append]
      exact List.mem_append_left _ hd
    exact readerLog_fits hlog hp d hmem
  have hv := reaches_followed hfits hr
  have hsorted := deliveries_sorted (hsplit ▸ hord)
  obtain ⟨q, hq, hpq, hqe, hreached, hstored, hversions⟩ :=
    finish_position hfits hv hsorted hst hp hle hend hfinish
  have hsegment : ∀ x, q ≤ x → x ≤ r.captured →
      (between LogEntry.readerPosition p x log).filter LogEntry.isRows =
        l₁.filter LogEntry.isRows := by
    intro x hqx hxe
    apply segment_rows hsplit
    · intro e he hrows
      obtain ⟨d, hd, hde⟩ := row_delivered he hrows
      rw [← delivery_position hde]
      exact (hreached d hd).trans hqx
    · intro e he hrows
      exact lt_of_le_of_lt hxe (hbehind e he hrows)
  have hrecords : recordsOf out = recordsBetween env.lib m st log p q := by
    rw [recordsBetween_of_rows (hsegment q le_rfl hqe), hv.records, flatMap_answer_deliveries]
    rfl
  refine ⟨q, hq, hstored, hpq, hqe, hversions, hrecords, ?_, ?_, ?_⟩
  · have happend : recordsBetween env.lib m st log p q ++
        recordsBetween env.lib m st log q r.captured =
          recordsBetween env.lib m st log p r.captured := recordsBetween_append hlog hpq hqe
    rw [recordsBetween_of_rows (hsegment q le_rfl hqe),
      recordsBetween_of_rows (hsegment r.captured hqe le_rfl)] at happend
    exact List.append_right_eq_self.mp happend
  · intro e he
    cases hrows : e.isRows with
    | false => rw [answer_of_not_rows hrows]
    | true =>
      have hmem : e ∈ l₁.filter LogEntry.isRows := by
        rw [← hsegment r.captured hqe le_rfl]
        exact List.mem_filter.mpr ⟨he, hrows⟩
      obtain ⟨d, hd, hde⟩ := row_delivered (List.mem_filter.mp hmem).1 hrows
      rw [LogEntry.answer, hde]
      exact (hv.taken d hd).2
  · intro s hs
    have hstates := reaches_storedIn hr hs
    rw [← List.cons_append]
    apply List.pairwise_append.mpr
    refine ⟨hsorted.sublist (hstates.cons_cons p), List.pairwise_singleton _ _, ?_⟩
    intro x hx y hy
    rw [List.mem_singleton.mp hy]
    rcases List.mem_cons.mp hx with rfl | hx
    · exact hpq
    · obtain ⟨d, hd, rfl⟩ := List.mem_map.mp (hstates.subset hx)
      exact hreached d hd

theorem finish_ok (env : Env) (v : Vars) : ∃ st, finish env v = .ok st := by
  rw [finish]
  cases hp : positionOf v with
  | none => exact ⟨_, rfl⟩
  | some fp =>
    obtain ⟨f, k⟩ := fp
    have hk : k ≠ 0 := by
      rw [positionOf] at hp
      split at hp
      · split at hp
        · cases hp
        · rename_i hno
          cases hp
          exact (not_or.mp hno).2
      · cases hp
    refine ⟨_, if_neg ?_⟩
    intro h
    exact finalPosition_ne_zero hk h.2

theorem run_succeeds (hlog : Suits m log) (hp : Storable p)
    (haccepted : ∀ e ∈ between LogEntry.readerPosition p r.captured log,
      (e.answer env.lib m st).2 = none) :
    ∃ st', (runFrom env m log st p r).2 = .ok st' := by
  rw [runFrom, runBinlogSync]
  rcases Loop.run_cases (iteration (env.upTo r.captured)) (readerEnd none)
      (deliveries false ((readerLog r.opened p log).take r.read)) (initialVars m st none) with
    ⟨out, v, hr, hrun⟩ | ⟨a, d, b, out, v, em, t, hds, hr, hs, hrun⟩
  · rw [hrun]
    exact finish_ok _ v
  · rw [hrun]
    rcases iteration_halt hs with ⟨-, -, rfl⟩ | ⟨hend, -, e, rfl⟩
    · exact finish_ok _ _
    · -- the event before the captured end was refused
      exfalso
      have hfits : ∀ d' ∈ a ++ d :: b, d'.Fits m := by
        intro d' hd'
        have hmem : d' ∈ deliveries false (readerLog r.opened p log) := by
          rw [← hds] at hd'
          exact (List.Sublist.filterMap _ (List.take_sublist _ _)).subset hd'
        exact readerLog_fits hlog hp d' hmem
      have hv := reaches_followed (fun d' hd' => hfits d' (List.mem_append_left _ hd')) hr
      obtain ⟨l₁, c, l₂, htake, -, hdc, -⟩ := deliveries_split hds
      have hc : c ∈ readerLog r.opened p log := by
        apply List.mem_of_mem_take (i := r.read)
        rw [htake]
        simp
      have hlt : c.readerPosition < r.captured := by
        rw [← delivery_position hdc]
        apply lt_of_not_ge
        intro hge
        have hreach : reachedEnd (env.upTo r.captured) d = true := reachedEnd_iff.mpr hge
        rw [hend] at hreach
        cases hreach
      have hnone : (c.answer env.lib m st).2 = none := by
        rcases mem_readerLog hc with rfl | ⟨hmem, hpc⟩
        · rw [answer_of_not_rows rfl]
        · exact haccepted c (mem_between.mpr ⟨hmem, hpc, hlt.le⟩)
      rw [LogEntry.answer, hdc] at hnone
      obtain ⟨em', v', hnext⟩ := hv.following.next (hfits d (by simp)) hend hnone
      rw [hs] at hnext
      cases hnext

theorem recordsBetween_of_empty (hm : m.keys = []) (lib : RenderLib) (st : State)
    (log : List LogEntry) (p q : Position) : recordsBetween lib m st log p q = [] := by
  have hget : ∀ s, m.get? s = none := by
    intro s
    cases hs : m.get? s with
    | none => rfl
    | some entry =>
      have hmem := Dict.mem_keys_iff.mpr ⟨entry, hs⟩
      rw [hm] at hmem
      cases hmem
  rw [recordsBetween, List.flatMap_eq_nil_iff]
  intro e _
  rw [LogEntry.answer]
  cases e.delivery false with
  | none => rfl
  | some d =>
    dsimp only
    rw [Delivery.answer]
    cases d.event with
    | rows ev => simp [hget]
    | rotate f k => rfl
    | gtid g => rfl

end Segments

/-! ### Consecutive runs -/

/-- The position at which the next run starts: the one that the streams have stored. -/
def nextPosition (m : StreamsMap) (st : State) (p : Position) : Position :=
  match m.keys with
  | [] => p
  | s :: _ => (storedPosition st s).getD p

/-- A run with the messages it wrote and the state it returned. -/
structure FinishedRun where
  run : RunOver
  out : List Effect
  state : State

/-- The positions that a run stores for a stream, in order. -/
def FinishedRun.stored (s : String) (f : FinishedRun) : List Position :=
  storedIn s f.out ++ (storedPosition f.state s).toList

/-- Runs without an exception, each of which starts where the one before left the bookmarks and
reads up to the end captured for it. -/
inductive ConsecutiveRuns (env : Env) (m : StreamsMap) (log : List LogEntry) :
    State → Position → List FinishedRun → Prop
  | done {st : State} {p : Position} : ConsecutiveRuns env m log st p []
  | run {st : State} {p : Position} {f : FinishedRun} {fs : List FinishedRun} :
      runFrom env m log st p f.run = (f.out, .ok f.state) →
      ReadsToEnd (env.upTo f.run.captured) none
        ((readerLog f.run.opened p log).drop f.run.read) →
      ConsecutiveRuns env m log f.state (nextPosition m f.state p) fs →
      ConsecutiveRuns env m log st p (f :: fs)

section Join

variable {env : Env} {m : StreamsMap} {st : State} {p c : Position} {log : List LogEntry}
  {f : FinishedRun} {fs : List FinishedRun}

/-- A run leaves the bookmarks where the next one starts. -/
theorem run_segment_next (hlog : Suits m log)
    (hst : ∀ s ∈ m.keys, storedPosition st s = some p) (hp : Storable p)
    (hle : p ≤ f.run.captured) (hend : Storable f.run.captured)
    (hcommit : EndClosesCommit (env.upTo f.run.captured) log)
    (hread : ReadsToEnd (env.upTo f.run.captured) none
      ((readerLog f.run.opened p log).drop f.run.read))
    (hrun : runFrom env m log st p f.run = (f.out, .ok f.state)) :
    SegmentWritten env m log st p f.run.captured f.out f.state (nextPosition m f.state p) := by
  obtain ⟨q, h⟩ := run_segment hlog hst hp hle hend hcommit hread hrun
  rw [nextPosition]
  cases hm : m.keys with
  | nil =>
    have hnil := recordsBetween_of_empty hm env.lib st log
    refine ⟨hp, by simp [hm], le_rfl, hle, h.versions, ?_, hnil _ _, h.accepted, by simp [hm]⟩
    rw [h.records, hnil, hnil]
  | cons s keys =>
    have hs : storedPosition f.state s = some q := h.stored s (by simp [hm])
    dsimp only
    rw [hs]
    exact h

/-- The last captured end, or `c` when there is no run. -/
def lastCaptured (c : Position) (fs : List FinishedRun) : Position :=
  (fs.map fun f => f.run.captured).getLastD c

theorem le_lastCaptured (h : (c :: fs.map fun f => f.run.captured).Pairwise (· ≤ ·)) :
    c ≤ lastCaptured c fs := by
  have hmem : lastCaptured c fs ∈ c :: fs.map fun f => f.run.captured := List.getLastD_mem_cons
  rcases List.mem_cons.mp hmem with hlast | hlast
  · exact hlast.ge
  · exact (List.pairwise_cons.mp h).1 _ hlast

/-- The runs that start at `p` wrote the segment up to the last captured end. -/
structure SegmentsJoined (env : Env) (m : StreamsMap) (log : List LogEntry) (st : State)
    (p c : Position) (fs : List FinishedRun) : Prop where
  records : (fs.flatMap fun f => recordsOf f.out) =
    recordsBetween env.lib m st log p (lastCaptured c fs)
  accepted : ∀ e ∈ between LogEntry.readerPosition c (lastCaptured c fs) log,
    (e.answer env.lib m st).2 = none
  forward : ∀ s ∈ m.keys, (p :: fs.flatMap (FinishedRun.stored s)).Pairwise (· ≤ ·)
  captured : ∀ f ∈ fs, ∀ s ∈ m.keys, ∀ x ∈ f.stored s, x ≤ f.run.captured

theorem pairwise_le_join {κ : Type*} [Preorder κ] {a b : κ} {l l' : List κ}
    (h : (a :: (l ++ [b])).Pairwise (· ≤ ·)) (h' : (b :: l').Pairwise (· ≤ ·)) :
    (a :: (l ++ [b] ++ l')).Pairwise (· ≤ ·) := by
  obtain ⟨hb, hl'⟩ := List.pairwise_cons.mp h'
  rw [← List.cons_append]
  apply List.pairwise_append.mpr
  refine ⟨h, hl', ?_⟩
  intro x hx y hy
  rw [← List.cons_append] at h hx
  have hxb : x ≤ b := by
    rcases List.mem_append.mp hx with hx | hx
    · exact (List.pairwise_append.mp h).2.2 x hx b (by simp)
    · rw [List.mem_singleton.mp hx]
  exact hxb.trans (hb y hy)

theorem ConsecutiveRuns.joined (hlog : Suits m log) (hruns : ConsecutiveRuns env m log st p fs)
    (hst : ∀ s ∈ m.keys, storedPosition st s = some p) (hp : Storable p) (hpc : p ≤ c)
    (hrest : recordsBetween env.lib m st log p c = [])
    (hsorted : (c :: fs.map fun f => f.run.captured).Pairwise (· ≤ ·))
    (hends : ∀ f ∈ fs, Storable f.run.captured ∧ EndClosesCommit (env.upTo f.run.captured) log) :
    SegmentsJoined env m log st p c fs := by
  induction hruns generalizing c with
  | done =>
    refine ⟨hrest.symm, ?_, fun _ _ => List.pairwise_singleton _ _, by simp⟩
    intro e he
    obtain ⟨-, hlt, hle⟩ := mem_between.mp he
    exact absurd hlt (not_lt_of_ge hle)
  | @run st p f fs hrun hread _ ih =>
    obtain ⟨hfirst, hsorted'⟩ := List.pairwise_cons.mp hsorted
    obtain ⟨hend, hcommit⟩ := hends f List.mem_cons_self
    have hcf : c ≤ f.run.captured := hfirst _ List.mem_cons_self
    have hseg := run_segment_next hlog hst hp (hpc.trans hcf) hend hcommit hread hrun
    generalize nextPosition m f.state p = q at hseg ih
    have hnext := ih hseg.stored hseg.storable hseg.le_captured
      ((recordsBetween_congr hseg.versions log q _).symm.trans hseg.rest) hsorted'
      fun f' hf' => hends f' (List.mem_cons_of_mem _ hf')
    have hlast : lastCaptured c (f :: fs) = lastCaptured f.run.captured fs :=
      List.getLastD_cons ..
    have hle := le_lastCaptured hsorted'
    have hstored : ∀ s ∈ m.keys, f.stored s = storedIn s f.out ++ [q] := by
      intro s hs
      rw [FinishedRun.stored, hseg.stored s hs]
      rfl
    refine ⟨?_, ?_, ?_, ?_⟩
    · rw [hlast, List.flatMap_cons, hnext.records, hseg.records,
        ← recordsBetween_congr hseg.versions]
      exact recordsBetween_append hlog hseg.start_le (hseg.le_captured.trans hle)
    · intro e he
      rw [hlast] at he
      obtain ⟨hmem, hce, hel⟩ := mem_between.mp he
      rcases le_or_gt e.readerPosition f.run.captured with hef | hef
      · exact hseg.accepted e (mem_between.mpr ⟨hmem, lt_of_le_of_lt hpc hce, hef⟩)
      · rw [LogEntry.answer_congr hseg.versions]
        exact hnext.accepted e (mem_between.mpr ⟨hmem, hef, hel⟩)
    · intro s hs
      rw [List.flatMap_cons, hstored s hs]
      exact pairwise_le_join (hseg.bookmarks s hs) (hnext.forward s hs)
    · intro f' hf' s hs x hx
      rcases List.mem_cons.mp hf' with rfl | hf'
      · rw [hstored s hs] at hx
        have hxq : x ≤ q := by
          rcases List.mem_append.mp hx with hx | hx
          · have hpair := (List.pairwise_cons.mp (hseg.bookmarks s hs)).2
            exact (List.pairwise_append.mp hpair).2.2 x hx q (by simp)
          · rw [List.mem_singleton.mp hx]
        exact hxq.trans hseg.le_captured
      · exact hnext.captured f' hf' s hs x hx

/-- Consecutive clean runs write the records of one run to the last captured end, in the same
order and each once, and their bookmarks only move forward, up to the captured ends. -/
theorem consecutive_runs_eq_one_run {start : Position} (hlog : Suits m log)
    (hst : ∀ s ∈ m.keys, storedPosition st s = some start) (hstart : Storable start)
    (hsorted : (start :: fs.map fun f => f.run.captured).Pairwise (· ≤ ·))
    (hends : ∀ f ∈ fs, Storable f.run.captured ∧ EndClosesCommit (env.upTo f.run.captured) log)
    (hruns : ConsecutiveRuns env m log st start fs) {one : RunOver}
    (hlast : (fs.map fun f => f.run.captured).getLast? = some one.captured)
    (hread : ReadsToEnd (env.upTo one.captured) none
      ((readerLog one.opened start log).drop one.read)) :
    (fs.flatMap fun f => recordsOf f.out) = recordsOf (runFrom env m log st start one).1 ∧
      (∃ st', (runFrom env m log st start one).2 = .ok st') ∧
      (∀ s ∈ m.keys, (start :: fs.flatMap (FinishedRun.stored s)).Pairwise (· ≤ ·)) ∧
      ∀ f ∈ fs, ∀ s ∈ m.keys, ∀ x ∈ f.stored s, x ≤ f.run.captured := by
  have hnil : recordsBetween env.lib m st log start start = [] := by
    rw [recordsBetween, between_eq_nil fun _ _ h => h]
    rfl
  have hjoined := hruns.joined hlog hst hstart le_rfl hnil hsorted hends
  have hend : Storable one.captured ∧ EndClosesCommit (env.upTo one.captured) log := by
    obtain ⟨f, hf, hcaptured⟩ := List.mem_map.mp (List.mem_of_getLast? hlast)
    rw [← hcaptured]
    exact hends f hf
  have hcaptured : lastCaptured start fs = one.captured := by
    rw [lastCaptured, List.getLastD_eq_getLast?, hlast]
    rfl
  have hle := le_lastCaptured hsorted
  rw [hcaptured] at hle
  have haccepted := hjoined.accepted
  rw [hcaptured] at haccepted
  obtain ⟨st', hok⟩ : ∃ st', (runFrom env m log st start one).2 = .ok st' :=
    run_succeeds hlog hstart haccepted
  obtain ⟨q, hone⟩ := run_segment hlog hst hstart hle hend.1 hend.2 hread (Prod.ext rfl hok)
  refine ⟨?_, ⟨st', hok⟩, hjoined.forward, hjoined.captured⟩
  rw [hjoined.records, hcaptured, hone.records,
    ← recordsBetween_append hlog hone.start_le hone.le_captured, hone.rest, List.append_nil]

end Join

namespace Sample

/-- Two transactions, each with an insert. -/
def twoInserts : List LogEntry :=
  [⟨"bin.1", 80, .tableMap "db" "t", "", 0⟩, ⟨"bin.1", 120, .rows (insert "t" 2), "", 0⟩,
    ⟨"bin.1", 150, .filtered, "", 0⟩, ⟨"bin.1", 200, .tableMap "db" "t", "", 0⟩,
    ⟨"bin.1", 250, .rows (insert "t" 1), "", 0⟩, ⟨"bin.1", 280, .filtered, "", 0⟩]

/-- The run from `p`, with the state it returns. -/
def finished (st : State) (p : Position) (r : RunOver) : FinishedRun :=
  let o := runFrom (env "" 0) streamsMap twoInserts st p r
  ⟨r, o.1, match o.2 with
    | .ok st' => st'
    | .error _ => st⟩

def firstRun : FinishedRun :=
  finished startState (toLex ("bin.1", 4)) ⟨true, 4, toLex ("bin.1", 150)⟩

def secondRun : FinishedRun :=
  finished firstRun.state (toLex ("bin.1", 150)) ⟨true, 4, toLex ("bin.1", 280)⟩

def oneRun : RunOver := ⟨false, 6, toLex ("bin.1", 280)⟩

theorem twoInserts_suits : Suits streamsMap twoInserts := by
  refine ⟨by decide, by decide, ?_⟩
  have hinsert : ∀ n, ColumnsMatch streamsMap (insert "t" n) := by
    intro n entry hs
    have hget : streamsMap.get? (insert "t" n).tapStreamId =
        some ⟨addAutomaticProperties Sample.entry, ["id", sdcDeletedAt]⟩ := rfl
    rw [hget, Option.some.injEq] at hs
    rw [← hs]
    rfl
  intro e he ev hb
  simp only [twoInserts, List.mem_cons, List.not_mem_nil, or_false] at he
  rcases he with rfl | rfl | rfl | rfl | rfl | rfl <;> cases hb
  · exact hinsert 2
  · exact hinsert 1

end Sample

theorem consecutive_runs_eq_one_run_twoInserts :
    recordsOf Sample.firstRun.out ++ recordsOf Sample.secondRun.out =
      recordsOf (runFrom (Sample.env "" 0) Sample.streamsMap Sample.twoInserts Sample.startState
        (toLex ("bin.1", 4)) Sample.oneRun).1 := by
  have hst : ∀ s ∈ Sample.streamsMap.keys,
      storedPosition Sample.startState s = some (toLex ("bin.1", 4)) := by decide
  have hruns : ConsecutiveRuns (Sample.env "" 0) Sample.streamsMap Sample.twoInserts
      Sample.startState (toLex ("bin.1", 4)) [Sample.firstRun, Sample.secondRun] := by
    have hnext : nextPosition Sample.streamsMap Sample.firstRun.state (toLex ("bin.1", 4)) =
        toLex ("bin.1", 150) := by decide
    refine .run rfl (fun _ => by decide) (.run ?_ (fun _ => ?_) .done)
    · rw [hnext]
      rfl
    · rw [hnext]
      decide
  have hlast : ([Sample.firstRun, Sample.secondRun].map fun f => f.run.captured).getLast? =
      some Sample.oneRun.captured := rfl
  have h := consecutive_runs_eq_one_run Sample.twoInserts_suits hst (by decide) (by decide)
    (by decide) hruns hlast (fun _ => by decide)
  rw [← h.1]
  simp

end TapMysql.Binlog
