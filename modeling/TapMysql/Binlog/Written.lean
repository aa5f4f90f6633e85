import Mathlib.Algebra.GroupWithZero.Nat
import TapMysql.Binlog.Steps

/-!
# The records written so far

The invariant of the loop head: the map has the streams it started with, each entry is the
one of the start or comes from a discovery, the RECORD messages written are those of the row
events of selected streams taken so far, in order, and the counters are sums over these events.
A STATE message is always the last effect of its iteration.
-/

namespace TapMysql.Binlog

open Loop (Reaches)

/-! ### Records of an output, row events of an input -/

def Effect.record? : Effect → Option Message
  | .message (.record s r v t) => some (.record s r v t)
  | _ => none

def recordsOf (out : List Effect) : List Message := out.filterMap Effect.record?

def Event.selected? (m : StreamsMap) : Event → Option RowsEvent
  | .rows ev => if m.contains ev.tapStreamId then some ev else none
  | _ => none

def selectedRows (m : StreamsMap) (ds : List Delivery) : List RowsEvent :=
  ds.filterMap fun d => d.event.selected? m

/-- The rows of selected streams among the deliveries. -/
def rowsProcessed (m : StreamsMap) (ds : List Delivery) : Nat :=
  ((selectedRows m ds).map fun ev => ev.change.rowCount).sum

/-- The row events of streams that are not selected. -/
def rowEventsSkipped (m : StreamsMap) (ds : List Delivery) : Nat :=
  ds.countP fun d => match d.event with
    | .rows ev => !m.contains ev.tapStreamId
    | _ => false

@[simp] theorem recordsOf_append (out em : List Effect) :
    recordsOf (out ++ em) = recordsOf out ++ recordsOf em :=
  List.filterMap_append

@[simp] theorem selectedRows_append (m : StreamsMap) (ds ds' : List Delivery) :
    selectedRows m (ds ++ ds') = selectedRows m ds ++ selectedRows m ds' :=
  List.filterMap_append

theorem rowsProcessed_append (m : StreamsMap) (ds ds' : List Delivery) :
    rowsProcessed m (ds ++ ds') = rowsProcessed m ds + rowsProcessed m ds' := by
  simp [rowsProcessed]

theorem rowEventsSkipped_append (m : StreamsMap) (ds ds' : List Delivery) :
    rowEventsSkipped m (ds ++ ds') = rowEventsSkipped m ds + rowEventsSkipped m ds' := by
  simp [rowEventsSkipped]

theorem handleRowsEvent_length {a : HandlerArgs} {ev : RowsEvent} {rs : List Message}
    (h : handleRowsEvent a ev = (rs, none)) : rs.length = ev.change.rowCount := by
  rw [handleRowsEvent_eq, handleRows] at h
  have hnone := congrArg Prod.snd h
  have hlen := emitRows_length hnone
  rw [h, images_length] at hlen
  exact hlen

/-- A catalog entry that a stream can have during the run. -/
def EntryOf (env : Env) (m : StreamsMap) (s : String) (entry : StreamsMapEntry) : Prop :=
  m.get? s = some entry ∨
    ∃ calls table new, rediscover env calls s table = .ok new ∧ entry = ⟨new.entry, new.columns⟩

/-- The messages `rs` are all the RECORD messages of the event. -/
def RecordsOf (env : Env) (m : StreamsMap) (ev : RowsEvent) (rs : List Message) : Prop :=
  ∃ entry state now millis, EntryOf env m ev.tapStreamId entry ∧
    handleRowsEvent ⟨env.lib, entry.catalogEntry, state, entry.desiredColumns, now, millis⟩ ev =
      (rs, none)

/-- The output starts with all the RECORD messages of the events, in order. -/
def Written (env : Env) (m : StreamsMap) (evs : List RowsEvent) (out : List Effect) : Prop :=
  ∃ rss, List.Forall₂ (RecordsOf env m) evs rss ∧ rss.flatten <+: recordsOf out

theorem records_length {env : Env} {m : StreamsMap} {evs : List RowsEvent}
    {rss : List (List Message)} (h : List.Forall₂ (RecordsOf env m) evs rss) :
    rss.flatten.length = (evs.map fun ev => ev.change.rowCount).sum := by
  induction h with
  | nil => rfl
  | cons hrs _ ih =>
    obtain ⟨entry, state, now, millis, -, hh⟩ := hrs
    simp [ih, handleRowsEvent_length hh]

theorem Written.of_prefix {env : Env} {m : StreamsMap} {evs evs' : List RowsEvent}
    {out : List Effect} (h : Written env m evs' out) (hp : evs <+: evs') :
    Written env m evs out := by
  obtain ⟨rest, rfl⟩ := hp
  obtain ⟨rss, hrss, hpre⟩ := h
  have htake := List.forall₂_take evs.length hrss
  rw [List.take_left] at htake
  have hflat : (rss.take evs.length).flatten <+: rss.flatten :=
    ⟨(rss.drop evs.length).flatten, by rw [← List.flatten_append, List.take_append_drop]⟩
  exact ⟨rss.take evs.length, htake, hflat.trans hpre⟩

/-! ### The messages of one event -/

theorem handleRowsEvent_records (a : HandlerArgs) (ev : RowsEvent) :
    ∀ m ∈ (handleRowsEvent a ev).1, ∃ record version,
      m = .record a.entry.stream record version a.timeExtracted := by
  intro m hm
  rw [handleRowsEvent_eq] at hm
  obtain ⟨record, hrec, -⟩ := emitRows_columns m hm
  exact ⟨record, _, hrec⟩

theorem recordsOf_records {ms : List Message}
    (h : ∀ m ∈ ms, ∃ s r v t, m = .record s r v t) : recordsOf (ms.map .message) = ms := by
  induction ms with
  | nil => rfl
  | cons m ms ih =>
    obtain ⟨s, r, v, t, rfl⟩ := h m List.mem_cons_self
    have hrest := ih fun m' hm' => h m' (List.mem_cons_of_mem _ hm')
    simp only [recordsOf, List.map_cons, List.filterMap_cons, Effect.record?] at hrest ⊢
    rw [hrest]

theorem recordsOf_handleRowsEvent (a : HandlerArgs) (ev : RowsEvent) :
    recordsOf ((handleRowsEvent a ev).1.map .message) = (handleRowsEvent a ev).1 := by
  refine recordsOf_records fun m hm => ?_
  obtain ⟨record, version, rfl⟩ := handleRowsEvent_records a ev m hm
  exact ⟨_, _, _, _, rfl⟩

theorem placeColumns_emitted {env : Env} {v : Vars} {s : String} {entry : StreamsMapEntry}
    {ev : RowsEvent} {p : Placed} (h : placeColumns env v s entry ev = .ok p) :
    ∀ m ∈ p.emitted, ∃ e, m = schemaMessage e [] := by
  rcases placeColumns_ok h with ⟨-, rfl⟩ | ⟨-, -, rfl⟩ | ⟨-, -, new, -, ⟨rfl, -⟩ | ⟨rfl, -⟩⟩
  · simp
  · simp
  · simp
  · intro m hm
    exact ⟨new.entry, by simpa using hm⟩

theorem placeColumns_recordsOf {env : Env} {v : Vars} {s : String} {entry : StreamsMapEntry}
    {ev : RowsEvent} {p : Placed} (h : placeColumns env v s entry ev = .ok p) :
    recordsOf (p.emitted.map .message) = [] := by
  rw [recordsOf, List.filterMap_eq_nil_iff]
  intro x hx
  obtain ⟨m, hm, rfl⟩ := List.mem_map.mp hx
  obtain ⟨e, rfl⟩ := placeColumns_emitted h m hm
  rfl

/-- No branch of the loop writes a STATE message; only the periodic test does. -/
theorem handleEvent_no_state (env : Env) (v : Vars) (d : Delivery) (st : State) :
    Effect.message (.state st) ∉ (handleEvent env v d).1 := by
  rw [handleEvent]
  cases d.event with
  | rotate next position =>
    dsimp only
    split <;> simp
  | gtid g =>
    dsimp only
    split <;> simp
  | rows ev =>
    simp only [handleEventOfRows]
    split
    · simp
    · split
      · simp
      · split
        · simp
        · rename_i p hp
          have hplace : Message.state st ∉ p.emitted := fun hm => by
            obtain ⟨e, he⟩ := placeColumns_emitted hp _ hm
            cases he
          split <;>
          · simp only [List.mem_map, Effect.message.injEq, exists_eq_right, List.mem_append]
            rintro (hm | hm)
            · exact hplace hm
            · obtain ⟨record, version, hr⟩ := handleRowsEvent_records _ _ _ hm
              cases hr

theorem unnamedColumns_of_verify {ev : RowsEvent} {s f : String} {p : ℕ}
    (h : verifyEventColumnNames ev s f p = .ok ()) : unnamedColumns ev = [] := by
  rw [verifyEventColumnNames] at h
  split at h
  · rename_i hempty
    exact List.isEmpty_iff.mp hempty
  · cases h

theorem verify_of_unnamedColumns {ev : RowsEvent} (h : unnamedColumns ev = []) (s f : String)
    (p : ℕ) : verifyEventColumnNames ev s f p = .ok () := by
  simp [verifyEventColumnNames, h]

theorem reaches_mem_run {env : Env} {v₀ v : Vars} {a b : List Delivery} {out : List Effect}
    {failure : Option Err} (hr : Reaches (iteration env) v₀ a out v) :
    ∀ x ∈ out, x ∈ (Loop.run (iteration env) (readerEnd failure) (a ++ b) v₀).1 := by
  intro x hx
  rw [Loop.run_of_reaches hr]
  exact List.mem_append_left _ hx

/-! ### The invariant -/

/-- What placing the columns of an event of stream `s` keeps. -/
structure Placed.Keeps (env : Env) (v : Vars) (s : String) (entry : StreamsMapEntry)
    (p : Placed) : Prop where
  keys : p.vars.streamsMap.keys = v.streamsMap.keys
  found : p.vars.streamsMap.get? s = some p.entry
  others : ∀ t, t ≠ s → p.vars.streamsMap.get? t = v.streamsMap.get? t
  entry : p.entry = entry ∨ ∃ new,
    rediscover env v.discoveries s entry.catalogEntry.table = .ok new ∧
      p.entry = ⟨new.entry, new.columns⟩
  state : p.vars.state = v.state
  processed : p.vars.processedRowsEvents = v.processedRowsEvents
  skipped : p.vars.eventsSkipped = v.eventsSkipped
  gtidPos : p.vars.gtidPos = v.gtidPos
  logFile : p.vars.logFile = v.logFile
  logPos : p.vars.logPos = v.logPos

theorem placeColumns_keeps {env : Env} {v : Vars} {s : String} {entry : StreamsMapEntry}
    {ev : RowsEvent} {p : Placed} (h : placeColumns env v s entry ev = .ok p)
    (hs : v.streamsMap.get? s = some entry) : p.Keeps env v s entry := by
  rcases placeColumns_ok h with ⟨-, rfl⟩ | ⟨-, -, rfl⟩ | ⟨-, -, new, hnew, ⟨rfl, -⟩ | ⟨rfl, -⟩⟩
  · exact ⟨rfl, hs, fun _ _ => rfl, Or.inl rfl, rfl, rfl, rfl, rfl, rfl, rfl⟩
  · exact ⟨rfl, hs, fun _ _ => rfl, Or.inl rfl, rfl, rfl, rfl, rfl, rfl, rfl⟩
  · exact ⟨rfl, hs, fun _ _ => rfl, Or.inl rfl, rfl, rfl, rfl, rfl, rfl, rfl⟩
  · exact ⟨Dict.keys_set_of_mem _ (Dict.mem_keys_iff.mpr ⟨_, hs⟩), Dict.get?_set_self _ _ _,
      fun t ht => Dict.get?_set_ne _ _ ht.symm, Or.inr ⟨new, hnew, rfl⟩, rfl, rfl, rfl, rfl, rfl,
      rfl⟩

structure Progress (env : Env) (v₀ : Vars) (ds : List Delivery) (out : List Effect)
    (v : Vars) : Prop where
  keys : v.streamsMap.keys = v₀.streamsMap.keys
  entries : ∀ s entry, v.streamsMap.get? s = some entry → EntryOf env v₀.streamsMap s entry
  records : ∃ rss, List.Forall₂ (RecordsOf env v₀.streamsMap) (selectedRows v₀.streamsMap ds) rss ∧
    recordsOf out = rss.flatten
  named : ∀ ev ∈ selectedRows v₀.streamsMap ds, unnamedColumns ev = []
  processed : v.processedRowsEvents =
    v₀.processedRowsEvents + rowsProcessed v₀.streamsMap ds
  skipped : v.eventsSkipped = v₀.eventsSkipped + rowEventsSkipped v₀.streamsMap ds

theorem Progress.start (env : Env) (v₀ : Vars) : Progress env v₀ [] [] v₀ :=
  ⟨rfl, fun _ _ h => Or.inl h, ⟨[], .nil, rfl⟩, by simp [selectedRows],
    rfl, rfl⟩

theorem Progress.written {env : Env} {v₀ v : Vars} {ds : List Delivery} {out : List Effect}
    (h : Progress env v₀ ds out v) :
    Written env v₀.streamsMap (selectedRows v₀.streamsMap ds) out := by
  obtain ⟨rss, hrss, hout⟩ := h.records
  exact ⟨rss, hrss, hout ▸ List.prefix_rfl⟩

theorem Progress.silent {env : Env} {v₀ v v' : Vars} {ds : List Delivery} {out em : List Effect}
    {d : Delivery} (h : Progress env v₀ ds out v) (hd : d.event.selected? v₀.streamsMap = none)
    (hem : recordsOf em = []) (hmap : v'.streamsMap = v.streamsMap)
    (hproc : v'.processedRowsEvents = v.processedRowsEvents)
    (hskip : v'.eventsSkipped = v.eventsSkipped + rowEventsSkipped v₀.streamsMap [d]) :
    Progress env v₀ (ds ++ [d]) (out ++ em) v' := by
  have hsel : selectedRows v₀.streamsMap [d] = [] := by simp [selectedRows, hd]
  have hrows : rowsProcessed v₀.streamsMap [d] = 0 := by simp [rowsProcessed, hsel]
  refine ⟨hmap ▸ h.keys, hmap ▸ h.entries, ?_, by simpa [hsel] using h.named, ?_, ?_⟩
  · obtain ⟨rss, hrss, hout⟩ := h.records
    exact ⟨rss, by simpa [hsel] using hrss, by simp [hout, hem]⟩
  · rw [hproc, h.processed, rowsProcessed_append, hrows, Nat.add_zero]
  · rw [hskip, h.skipped, rowEventsSkipped_append, Nat.add_assoc]

theorem Progress.handled {env : Env} {v₀ v : Vars} {ds : List Delivery} {out : List Effect}
    {d : Delivery} {ev : RowsEvent} (h : Progress env v₀ ds out v) (hd : d.event = .rows ev)
    (hr : HandledRows env (takePosition v d) d ev) :
    Progress env v₀ (ds ++ [d]) (out ++ (hr.placed.emitted ++ hr.records).map .message)
      hr.after := by
  have hk := placeColumns_keeps hr.places hr.found
  have hcont : v₀.streamsMap.contains ev.tapStreamId = true := by
    rw [← Dict.contains_of_keys_eq h.keys, Dict.contains_iff]
    exact Dict.mem_keys_iff.mpr ⟨_, hr.found⟩
  have hsel : selectedRows v₀.streamsMap [d] = [ev] := by
    simp [selectedRows, hd, Event.selected?, hcont]
  have hskip : rowEventsSkipped v₀.streamsMap [d] = 0 := by
    simp [rowEventsSkipped, hd, hcont]
  have hentry : EntryOf env v₀.streamsMap ev.tapStreamId hr.placed.entry := by
    rcases hk.entry with he | ⟨new, hnew, he⟩
    · exact he ▸ h.entries _ _ hr.found
    · exact Or.inr ⟨_, _, new, hnew, he⟩
  have hrec : RecordsOf env v₀.streamsMap ev hr.records :=
    ⟨hr.placed.entry, _, _, _, hentry, hr.handles⟩
  refine ⟨hk.keys.trans h.keys, ?_, ?_, ?_, ?_, ?_⟩
  · intro s entry hs
    by_cases hse : s = ev.tapStreamId
    · subst hse
      have hfound : hr.placed.entry = entry := by
        have := hk.found.symm.trans hs
        simpa using this
      exact hfound ▸ hentry
    · exact h.entries s entry ((hk.others s hse).symm.trans hs)
  · obtain ⟨rss, hrss, hout⟩ := h.records
    have hrecs : recordsOf (hr.records.map .message) = hr.records := by
      have := recordsOf_handleRowsEvent ⟨env.lib, hr.placed.entry.catalogEntry,
        hr.placed.vars.state, hr.placed.entry.desiredColumns, d.now, d.millis⟩ ev
      rwa [hr.handles] at this
    refine ⟨rss ++ [hr.records], ?_, ?_⟩
    · rw [selectedRows_append, hsel]
      exact List.rel_append hrss (.cons hrec .nil)
    · rw [recordsOf_append, hout, List.map_append, recordsOf_append,
        placeColumns_recordsOf hr.places, hrecs]
      simp
  · intro ev' hev'
    rw [selectedRows_append, hsel, List.mem_append, List.mem_singleton] at hev'
    rcases hev' with hev' | rfl
    · exact h.named ev' hev'
    · exact unnamedColumns_of_verify hr.named
  · have hcount : rowsProcessed v₀.streamsMap [d] = ev.change.rowCount := by
      simp [rowsProcessed, hsel]
    show hr.placed.vars.processedRowsEvents + ev.change.rowCount = _
    rw [hk.processed, rowsProcessed_append, hcount, ← Nat.add_assoc, ← h.processed]
    rfl
  · show hr.placed.vars.eventsSkipped = _
    rw [hk.skipped, rowEventsSkipped_append, hskip, Nat.add_zero, ← h.skipped]
    rfl

theorem Progress.event {env : Env} {v₀ v v' : Vars} {ds : List Delivery} {out em : List Effect}
    {d : Delivery} (h : Progress env v₀ ds out v)
    (he : handleEvent env (takePosition v d) d = (em, .ok v')) :
    Progress env v₀ (ds ++ [d]) (out ++ em) v' := by
  rcases handleEvent_ok he with ⟨next, position, st, hd, -, rfl, rfl⟩ |
    ⟨g, st, hd, -, rfl, rfl⟩ | ⟨ev, hd, hnone, rfl, rfl⟩ | ⟨ev, hd, hr, rfl, rfl⟩
  · exact h.silent (by rw [hd]; rfl) rfl rfl rfl (by simp [rowEventsSkipped, hd, takePosition])
  · exact h.silent (by rw [hd]; rfl) rfl rfl rfl (by simp [rowEventsSkipped, hd, takePosition])
  · have hcont : v₀.streamsMap.contains ev.tapStreamId = false := by
      rw [← Dict.contains_of_keys_eq h.keys, Dict.contains]
      exact Option.isSome_eq_false_iff.mpr (Option.isNone_iff_eq_none.mpr hnone)
    exact h.silent (by simp [hd, Event.selected?, hcont]) rfl rfl rfl
      (by simp [rowEventsSkipped, hd, hcont, takePosition])
  · exact h.handled hd hr

theorem Progress.next {env : Env} {v₀ v v' : Vars} {ds : List Delivery} {out em : List Effect}
    {d : Delivery} (h : Progress env v₀ ds out v) (hs : iteration env v d = .next em v') :
    Progress env v₀ (ds ++ [d]) (out ++ em) v' := by
  obtain ⟨-, em₁, v₁, he, ⟨-, rfl, rfl⟩ | ⟨-, st, -, rfl, rfl⟩⟩ := iteration_next hs
  · exact h.event he
  · have hp := h.event he
    refine ⟨hp.keys, hp.entries, ?_, hp.named, hp.processed, hp.skipped⟩
    obtain ⟨rss, hrss, hout⟩ := hp.records
    refine ⟨rss, hrss, ?_⟩
    rw [← List.append_assoc, recordsOf_append, hout]
    simp [recordsOf, Effect.record?]

theorem reaches_progress {env : Env} {v₀ v : Vars} {ds : List Delivery} {out : List Effect}
    (h : Reaches (iteration env) v₀ ds out v) : Progress env v₀ ds out v := by
  induction h with
  | start => exact .start env v₀
  | step _ hs ih => exact ih.next hs

/-! ### STATE messages -/

/-- The periodic test on a counter. -/
def PeriodReached (count : ℕ) : Prop := count ≠ 0 ∧ count % updateBookmarkPeriod = 0

instance (count : ℕ) : Decidable (PeriodReached count) :=
  inferInstanceAs (Decidable (_ ∧ _))

theorem periodicDue_iff (v : Vars) : periodicDue v = true ↔
    PeriodReached v.processedRowsEvents ∨ PeriodReached v.eventsSkipped := by
  simp [periodicDue, PeriodReached]

/-- The moment of a periodic STATE message: the loop head before the event, what the event
wrote, and the variables after it. -/
def Checkpoint (env : Env) (v₀ : Vars) (ds : List Delivery) (d : Delivery)
    (pre : List Effect) (st : State) : Prop :=
  ∃ out v em v₁, Reaches (iteration env) v₀ ds out v ∧ reachedEnd env d = false ∧
    handleEvent env (takePosition v d) d = (em, .ok v₁) ∧ periodicDue v₁ = true ∧
    updateBookmarks v₁.state v₁.streamsMap d.logFile d.logPos v₁.gtidPos = .ok st ∧
    pre = out ++ em

/-- Every STATE message of the loop is periodic: it stands after all that its event wrote. -/
theorem state_message_checkpoint {env : Env} {v₀ : Vars} {ds : List Delivery}
    {failure : Option Err} {pre post : List Effect} {st : State}
    (h : (Loop.run (iteration env) (readerEnd failure) ds v₀).1 =
      pre ++ .message (.state st) :: post) :
    ∃ a d b, ds = a ++ d :: b ∧ Checkpoint env v₀ a d pre st := by
  rcases Loop.run_split h with ⟨a, d, b, out, v, em, v', e₁, e₂, rfl, hr, hs, hem, rfl⟩ |
    ⟨a, d, b, out, v, em, t, e₁, e₂, rfl, hr, hs, hem, rfl⟩ | ⟨out, v, e₁, e₂, hr, hem, rfl⟩
  · obtain ⟨hend, em₁, v₁, he, ⟨-, rfl, rfl⟩ | ⟨hdue, st', hu, hem', rfl⟩⟩ := iteration_next hs
    · have hmem : Effect.message (.state st) ∈ (handleEvent env (takePosition v d) d).1 := by
        rw [he, hem]
        simp
      exact absurd hmem (handleEvent_no_state env _ d st)
    · rw [hem'] at hem
      have hnot : Effect.message (.state st) ∉ em₁ := fun hm =>
        handleEvent_no_state env (takePosition v d) d st (by rw [he]; exact hm)
      obtain ⟨rfl, hst, -⟩ : em₁ = e₁ ∧ Effect.message (.state st') = .message (.state st) ∧
          [] = e₂ := by
        rcases List.append_eq_append_iff.mp hem with ⟨c, rfl, hc⟩ | ⟨c, rfl, hc⟩
        · cases c with
          | nil => simpa using hc
          | cons x c => simp at hc
        · cases c with
          | nil => simpa [eq_comm] using hc
          | cons x c =>
            simp only [List.cons_append, List.cons.injEq] at hc
            exact absurd (by simp [← hc.1]) hnot
      simp only [Effect.message.injEq, Message.state.injEq] at hst
      exact ⟨a, d, b, rfl, ⟨out, v, em₁, v₁, hr, hend, he, hdue, hst ▸ hu, rfl⟩⟩
  · have hmem : Effect.message (.state st) ∈ em := by
      rw [hem]
      simp
    rcases iteration_halt hs with ⟨-, rfl, -⟩ | ⟨-, rfl, -⟩
    · cases hmem
    · exact absurd hmem (handleEvent_no_state env _ d st)
  · have hnil : (readerEnd failure v).1 = [] := by cases failure <;> rfl
    rw [hnil] at hem
    simp at hem

theorem Checkpoint.reaches {env : Env} {v₀ : Vars} {ds : List Delivery} {d : Delivery}
    {pre : List Effect} {st : State} (h : Checkpoint env v₀ ds d pre st) :
    ∃ v before, Reaches (iteration env) v₀ (ds ++ [d]) (pre ++ [.message (.state st)]) v ∧
      updateBookmarks before v.streamsMap d.logFile d.logPos v.gtidPos = .ok st := by
  obtain ⟨out, v, em, v₁, hr, hend, he, hdue, hu, rfl⟩ := h
  refine ⟨{ v₁ with state := st }, v₁.state, ?_, hu⟩
  rw [List.append_assoc]
  exact hr.step (by simp [iteration, hend, he, hdue, hu])

theorem Checkpoint.progress {env : Env} {v₀ : Vars} {ds : List Delivery} {d : Delivery}
    {pre : List Effect} {st : State} (h : Checkpoint env v₀ ds d pre st) :
    ∃ v, Progress env v₀ (ds ++ [d]) pre v ∧ periodicDue v = true ∧
      updateBookmarks v.state v.streamsMap d.logFile d.logPos v.gtidPos = .ok st := by
  obtain ⟨out, v, em, v₁, hr, -, he, hdue, hu, rfl⟩ := h
  exact ⟨v₁, (reaches_progress hr).event he, hdue, hu⟩

end TapMysql.Binlog
