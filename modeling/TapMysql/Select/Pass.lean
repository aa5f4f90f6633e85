import TapMysql.Lib.Buffer
import TapMysql.Select.SyncQuery

/-!
# What one query publishes

The invariant of the loop of `sync_query`: the rows published so far and the rows that the
writer holds are the rows received, and the bookmark is that of the last row received. A STATE
is written only when the writer is empty, so at each STATE message the bookmark and the rows
published before it agree. When an exception ends the loop, the bookmark is ahead of the
published rows by what the writer held.
-/

namespace TapMysql

/-! ### Published rows -/

/-- The rows of a message: of a RECORD itself, of a BATCH its file. -/
def Message.rows : Message → List Record
  | .record _ r _ _ => [r]
  | .batch _ _ rows => rows
  | _ => []

/-- The rows in RECORD messages and in files named by BATCH messages. -/
def published (messages : List Message) : List Record := messages.flatMap Message.rows

@[simp] theorem published_nil : published [] = [] := rfl

@[simp] theorem published_append (a b : List Message) :
    published (a ++ b) = published a ++ published b := by
  simp [published]

@[simp] theorem published_stateIf (c : Bool) (st : State) : published (stateIf c st) = [] := by
  cases c <;> simp [stateIf, published, Message.rows]

/-! ### Writers -/

def heldRows (s : QueryState) : List Record :=
  match s.writer with
  | some w => w.rows
  | none => []

/-- How many rows are published together: without a batch writer each row is. -/
def groupSize (config : Option BatchConfig) : Nat :=
  match config with
  | some c => c.batchSize
  | none => 1

theorem groupSize_pos (config : Option BatchConfig) : 0 < groupSize config := by
  cases config with
  | none => exact Nat.one_pos
  | some c => exact c.batchSize_pos

theorem BatchWriter.published_flush (w : BatchWriter) : published w.flush.1 = w.rows := by
  rw [BatchWriter.flush]
  cases hw : w.rows with
  | nil => simp
  | cons r rs => simp [published, Message.rows]

theorem BatchWriter.rows_flush (w : BatchWriter) : w.flush.2.rows = [] := by
  rw [BatchWriter.flush]
  cases hw : w.rows with
  | nil => simpa using hw
  | cons r rs => simp

theorem BatchWriter.config_flush (w : BatchWriter) : w.flush.2.config = w.config := by
  rw [BatchWriter.flush]
  split_ifs <;> rfl

/-- Writing a unit of records passes on and holds what the buffer rule says, and completes a
checkpoint only when nothing is held. -/
theorem writeRecords_spec (e : CatalogEntry) (version : Val) (time : String) {s : QueryState}
    {records : List Record} (hne : records ≠ []) {config : Option BatchConfig}
    (hconfig : s.writer.map BatchWriter.config = config) (sent : List Record) :
    let w := writeRecords e version time s records
    (sent ++ published w.1, heldRows ⟨s.st, w.2.1, 0, false⟩) =
        Buffer.push (groupSize config) (sent, heldRows s) records ∧
      w.2.1.map BatchWriter.config = config ∧
      (w.2.2 = true → heldRows ⟨s.st, w.2.1, 0, false⟩ = []) ∧
      (∀ v, Message.state v ∉ w.1) := by
  intro w
  subst hconfig
  cases hw : s.writer with
  | none =>
    have hlen : 1 ≤ records.length := List.length_pos_iff.mpr hne
    have hpub : published (records.map fun r => .record e.stream r version time) = records := by
      simp [published, Message.rows, List.flatMap_map]
    simp [w, writeRecords, hw, hpub, heldRows, groupSize, Buffer.push, hlen]
  | some b =>
    simp only [w, writeRecords, hw, BatchWriter.write, heldRows, Option.map_some, groupSize,
      Buffer.push]
    split_ifs with h
    · refine ⟨?_, by simp [BatchWriter.config_flush], by simp [BatchWriter.rows_flush], ?_⟩
      · simp [BatchWriter.published_flush, BatchWriter.rows_flush]
      · intro v
        simp only [BatchWriter.flush]
        split_ifs <;> simp
    · simp

/-! ### The invariant of the loop -/

section Invariant

variable {e : CatalogEntry} {version : Val} {time : String}
  {render : List Row → Except Err (List Record)} {update : State → Record → State × Option Err}
  {record : Row → Except Err Record} {config : Option BatchConfig} {st₀ : State}

/-- The state after `rows`: the bookmark update of the last of them, made on the first state. -/
def After (update : State → Record → State × Option Err) (record : Row → Except Err Record)
    (st₀ : State) (rows : List Row) (st : State) : Prop :=
  match rows.getLast? with
  | none => st = st₀
  | some row => ∃ r, record row = .ok r ∧ update st₀ r = (st, none)

/-- A later bookmark update leaves no trace of an earlier one. -/
def Overwrites (update : State → Record → State × Option Err) : Prop :=
  ∀ st r st' r' st'', update st r = (st', none) → update st' r' = (st'', none) →
    update st r' = (st'', none)

/-- Units are rendered row by row. -/
def RendersRows (render : List Row → Except Err (List Record))
    (record : Row → Except Err Record) : Prop :=
  ∀ unit records, render unit = .ok records → records.map Except.ok = unit.map record

/-- The loop head after `units`: rows published, rows held and the bookmark. -/
structure Fed (update : State → Record → State × Option Err) (record : Row → Except Err Record)
    (config : Option BatchConfig) (st₀ : State) (units : List (List Row)) (out : List Message)
    (s : QueryState) : Prop where
  published : (published out).map Except.ok =
    (Buffer.run (groupSize config) units).1.map record
  held : (heldRows s).map Except.ok = (Buffer.run (groupSize config) units).2.map record
  after : After update record st₀ units.flatten s.st
  config : s.writer.map BatchWriter.config = config

theorem fed_start (writer : Option BatchWriter) (hrows : ∀ w ∈ writer, w.rows = []) :
    Fed update record (writer.map BatchWriter.config) st₀ [] [] ⟨st₀, writer, 0, false⟩ := by
  have hheld : heldRows ⟨st₀, writer, 0, false⟩ = [] := by
    cases writer with
    | none => rfl
    | some w => exact hrows w rfl
  exact ⟨by simp [Buffer.run], by simp [Buffer.run, hheld], rfl, rfl⟩

theorem queryStep_next {s s' : QueryState} {unit : List Row} {em : List Message}
    (h : queryStep e version time render update s unit = .next em s') :
    (render unit = .ok [] ∧ em = [] ∧ s' = s) ∨
    (∃ records last st, render unit = .ok records ∧ records.getLast? = some last ∧
      update s.st last = (st, none) ∧
      em = (writeRecords e version time s records).1 ++
        stateIf (writeRecords e version time s records).2.2 st ∧
      s' = ⟨st, (writeRecords e version time s records).2.1, s.rowsSaved + records.length,
        (writeRecords e version time s records).2.2⟩) := by
  rw [queryStep] at h
  cases hr : render unit with
  | error err => simp [hr] at h
  | ok records =>
    cases hl : records.getLast? with
    | none =>
      simp only [hr, hl, Step.next.injEq] at h
      exact Or.inl ⟨by rw [List.getLast?_eq_none_iff.mp hl], h.1.symm, h.2.symm⟩
    | some last =>
      rcases hu : update s.st last with ⟨st, _ | err⟩
      · simp only [hr, hl, hu, Step.next.injEq] at h
        exact Or.inr ⟨records, last, st, rfl, hl, hu, h.1.symm, h.2.symm⟩
      · simp [hr, hl, hu] at h

theorem queryStep_halt {s : QueryState} {unit : List Row} {em : List Message}
    {t : State × Option Err} (h : queryStep e version time render update s unit = .halt em t) :
    ∃ err, t.2 = some err ∧
      ((render unit = .error err ∧ t.1 = s.st ∧ em = []) ∨
        ∃ records last, render unit = .ok records ∧ records.getLast? = some last ∧
          update s.st last = t ∧ em = (writeRecords e version time s records).1) := by
  rw [queryStep] at h
  cases hr : render unit with
  | error err =>
    simp only [hr, Step.halt.injEq] at h
    exact ⟨err, by rw [← h.2], Or.inl ⟨rfl, by rw [← h.2], h.1.symm⟩⟩
  | ok records =>
    cases hl : records.getLast? with
    | none => simp [hr, hl] at h
    | some last =>
      rcases hu : update s.st last with ⟨st, _ | err⟩
      · simp [hr, hl, hu] at h
      · simp only [hr, hl, hu, Step.halt.injEq] at h
        exact ⟨err, by rw [← h.2],
          Or.inr ⟨records, last, rfl, hl, by rw [hu, h.2], h.1.symm⟩⟩

theorem after_append {rows unit : List Row} {st st' : State} {records : List Record}
    {last : Record} (hover : Overwrites update) (hafter : After update record st₀ rows st)
    (hrender : records.map Except.ok = unit.map record) (hlast : records.getLast? = some last)
    (hupdate : update st last = (st', none)) :
    After update record st₀ (rows ++ unit) st' := by
  have hrow : ∃ row, unit.getLast? = some row ∧ record row = .ok last := by
    have h := congrArg List.getLast? hrender
    rw [List.getLast?_map, List.getLast?_map, hlast] at h
    cases hu : unit.getLast? with
    | none => simp [hu] at h
    | some row => exact ⟨row, rfl, by simpa [hu, eq_comm] using h⟩
  obtain ⟨row, hlastrow, hrec⟩ := hrow
  have hall : (rows ++ unit).getLast? = some row := by
    simp [List.getLast?_append, hlastrow]
  rw [After, hall]
  refine ⟨last, hrec, ?_⟩
  rw [After] at hafter
  cases hrows : rows.getLast? with
  | none =>
    rw [hrows] at hafter
    rw [← hafter]
    exact hupdate
  | some row' =>
    rw [hrows] at hafter
    obtain ⟨r, -, hr⟩ := hafter
    exact hover _ _ _ _ _ hr hupdate

/-- One unit keeps the invariant; a checkpoint leaves nothing in the writer. -/
theorem fed_step (hrender : RendersRows render record) (hover : Overwrites update)
    {units : List (List Row)} {out em : List Message} {s s' : QueryState} {unit : List Row}
    (hfed : Fed update record config st₀ units out s)
    (h : queryStep e version time render update s unit = .next em s') :
    Fed update record config st₀ (units ++ [unit]) (out ++ em) s' := by
  rcases queryStep_next h with ⟨hr, rfl, rfl⟩ | ⟨records, last, st, hr, hl, hu, rfl, rfl⟩
  · -- a unit without rows
    have hunit : unit = [] := by simpa using hrender unit [] hr
    subst hunit
    have hlt := Buffer.held_lt (groupSize_pos config) units
    have hpush : Buffer.run (groupSize config) (units ++ [[]]) =
        Buffer.run (groupSize config) units := by
      rw [Buffer.run_append, Buffer.push, List.append_nil, if_neg (Nat.not_le.mpr hlt)]
    exact ⟨by rw [hpush, List.append_nil]; exact hfed.published, by rw [hpush]; exact hfed.held,
      by simpa using hfed.after, hfed.config⟩
  · have hne : records ≠ [] := by
      rintro rfl
      simp at hl
    have hrecords := hrender unit records hr
    obtain ⟨hpush, hconfig, -, -⟩ :=
      writeRecords_spec e version time hne hfed.config (TapMysql.published out)
    have hbuf : ((Buffer.run (groupSize config) (units ++ [unit])).1.map record,
        (Buffer.run (groupSize config) (units ++ [unit])).2.map record) =
        ((Buffer.push (groupSize config) (TapMysql.published out, heldRows s) records).1.map
            Except.ok,
          (Buffer.push (groupSize config) (TapMysql.published out, heldRows s) records).2.map
            Except.ok) := by
      rw [Buffer.run_append, ← Buffer.push_map, ← Buffer.push_map, hrecords, hfed.published,
        hfed.held]
    rw [← hpush] at hbuf
    obtain ⟨hsent, hheld⟩ := Prod.mk.inj hbuf
    refine ⟨?_, ?_, ?_, hconfig⟩
    · rw [hsent]
      simp
    · rw [hheld]
      rfl
    · rw [List.flatten_append, List.flatten_singleton]
      exact after_append hover hfed.after hrecords hl hu

theorem reaches_fed (hrender : RendersRows render record) (hover : Overwrites update)
    {writer : Option BatchWriter} (hrows : ∀ w ∈ writer, w.rows = [])
    {units : List (List Row)} {out : List Message} {s : QueryState}
    (h : Loop.Reaches (queryStep e version time render update) ⟨st₀, writer, 0, false⟩
      units out s) :
    Fed update record (writer.map BatchWriter.config) st₀ units out s := by
  induction h with
  | start => exact fed_start writer hrows
  | step _ hstep ih => exact fed_step hrender hover ih hstep

theorem stateIf_eq_append {c : Bool} {st v : State} {a b : List Message}
    (h : stateIf c st = a ++ .state v :: b) : c = true ∧ st = v ∧ a = [] ∧ b = [] := by
  cases c with
  | false => simp [stateIf] at h
  | true =>
    cases a with
    | nil =>
      simp only [stateIf, if_true, List.nil_append, List.cons.injEq, Message.state.injEq] at h
      exact ⟨rfl, h.1, rfl, h.2.symm⟩
    | cons m a => simp [stateIf] at h

theorem append_stateIf_eq {ms : List Message} {c : Bool} {st v : State} {a b : List Message}
    (hms : ∀ v, Message.state v ∉ ms) (h : ms ++ stateIf c st = a ++ .state v :: b) :
    c = true ∧ st = v ∧ a = ms ∧ b = [] := by
  rcases List.append_eq_append_iff.mp h with ⟨d, rfl, hd⟩ | ⟨d, hms', hd⟩
  · obtain ⟨hc, hst, rfl, hb⟩ := stateIf_eq_append hd
    exact ⟨hc, hst, by simp, hb⟩
  · cases d with
    | nil =>
      obtain ⟨hc, hst, -, hb⟩ := stateIf_eq_append (a := []) (by simpa using hd.symm)
      exact ⟨hc, hst, by simpa using hms'.symm, hb⟩
    | cons m d =>
      simp only [List.cons_append, List.cons.injEq] at hd
      obtain ⟨rfl, -⟩ := hd
      exact absurd (by simp [hms']) (hms v)

theorem lastFlush_no_state (writer : Option BatchWriter) (v : State) :
    Message.state v ∉ lastFlush writer := by
  unfold lastFlush
  cases writer with
  | none => simp
  | some w =>
    simp only [BatchWriter.flush]
    split_ifs <;> simp

theorem published_lastFlush (s : QueryState) : published (lastFlush s.writer) = heldRows s := by
  unfold lastFlush heldRows
  cases s.writer with
  | none => rfl
  | some w => exact w.published_flush

/-- What holds at the head of the loop of a whole query, for its messages and its result. -/
structure LawfulQuery (render : List Row → Except Err (List Record))
    (update : State → Record → State × Option Err) (record : Row → Except Err Record) : Prop where
  render : RendersRows render record
  overwrites : Overwrites update

variable {writer : Option BatchWriter} {error : Option Err} {units : List (List Row)}

/-- At a STATE message the rows published before it are those of the first units of the query,
and its bookmark is that of the last of them. -/
theorem state_message_query (hq : LawfulQuery render update record)
    (hrows : ∀ w ∈ writer, w.rows = [])
    {pre post : List Message} {v : State}
    (h : (Loop.run (queryStep e version time render update) (queryEnd error) units
      ⟨st₀, writer, 0, false⟩).1 = pre ++ .state v :: post) :
    ∃ a b, units = a ++ b ∧ (published pre).map Except.ok = a.flatten.map record ∧
      After update record st₀ a.flatten v := by
  rcases Loop.run_split h with
    ⟨a, unit, b, out, s, em, s', e₁, e₂, rfl, hr, hstep, hem, rfl⟩ |
    ⟨a, unit, b, out, s, em, t, e₁, e₂, rfl, hr, hstep, hem, rfl⟩ |
    ⟨out, s, e₁, e₂, hr, hem, rfl⟩
  · -- a checkpoint in the loop
    have hfed := reaches_fed hq.render hq.overwrites hrows hr
    have hfed' := fed_step hq.render hq.overwrites hfed hstep
    rcases queryStep_next hstep with ⟨-, rfl, -⟩ | ⟨records, last, st, hrec, hl, hu, rfl, rfl⟩
    · simp at hem
    · have hne : records ≠ [] := by
        rintro rfl
        simp at hl
      obtain ⟨-, -, hheld, hno⟩ := writeRecords_spec e version time hne hfed.config []
      obtain ⟨hc, rfl, rfl, -⟩ := append_stateIf_eq hno hem
      have hnil : (Buffer.run (groupSize (writer.map BatchWriter.config)) (a ++ [unit])).2.map
          record = [] := by
        rw [← hfed'.held]
        exact List.map_eq_nil_iff.mpr (hheld hc)
      have hall : (Buffer.run (groupSize (writer.map BatchWriter.config)) (a ++ [unit])).1 ++
          (Buffer.run (groupSize (writer.map BatchWriter.config)) (a ++ [unit])).2 =
          (a ++ [unit]).flatten := Buffer.run_flatten _ _
      rw [List.map_eq_nil_iff.mp hnil, List.append_nil] at hall
      refine ⟨a ++ [unit], b, by simp, ?_, hfed'.after⟩
      have hpub := hfed'.published
      rw [hall] at hpub
      simpa using hpub
  · -- an exception writes no STATE
    exfalso
    obtain ⟨err, -, ⟨-, -, rfl⟩ | ⟨records, last, hrec, hl, -, rfl⟩⟩ := queryStep_halt hstep
    · simp at hem
    · have hne : records ≠ [] := by
        rintro rfl
        simp at hl
      have hconfig := (reaches_fed hq.render hq.overwrites hrows hr).config
      exact (writeRecords_spec e version time hne hconfig []).2.2.2 v (by simp [hem])
  · -- the STATE after the last flush
    have hfed := reaches_fed hq.render hq.overwrites hrows hr
    cases error with
    | some err => simp [queryEnd] at hem
    | none =>
      obtain ⟨-, rfl, rfl, -⟩ := append_stateIf_eq (lastFlush_no_state s.writer) hem
      refine ⟨units, [], by simp, ?_, hfed.after⟩
      rw [published_append, published_lastFlush, List.map_append, hfed.published, hfed.held,
        ← List.map_append, Buffer.run_flatten]

theorem query_returns (hq : LawfulQuery render update record) (hrows : ∀ w ∈ writer, w.rows = [])
    (h : (Loop.run (queryStep e version time render update) (queryEnd error) units
      ⟨st₀, writer, 0, false⟩).2.2 = none) :
    let o := Loop.run (queryStep e version time render update) (queryEnd error) units
      ⟨st₀, writer, 0, false⟩
    error = none ∧ (published o.1).map Except.ok = units.flatten.map record ∧
      After update record st₀ units.flatten o.2.1 := by
  rcases Loop.run_cases (queryStep e version time render update) (queryEnd error) units
    ⟨st₀, writer, 0, false⟩ with ⟨out, s, hr, ho⟩ | ⟨a, unit, b, out, s, em, t, -, -, hstep, ho⟩
  · have hfed := reaches_fed hq.render hq.overwrites hrows hr
    rw [ho] at h ⊢
    cases error with
    | some err => simp [queryEnd] at h
    | none =>
      refine ⟨rfl, ?_, hfed.after⟩
      simp only [queryEnd, published_append, published_stateIf, List.append_nil]
      rw [published_lastFlush, List.map_append, hfed.published, hfed.held, ← List.map_append,
        Buffer.run_flatten]
  · obtain ⟨err, herr, -⟩ := queryStep_halt hstep
    rw [ho, herr] at h
    cases h

/-- A query that an exception of the fetch ends has published the rows that did not stay in the
writer, and has left the bookmark of the last row received. -/
theorem query_raises (hq : LawfulQuery render update record) (hrows : ∀ w ∈ writer, w.rows = [])
    {err : Err}
    (h : (Loop.run (queryStep e version time render update) (queryEnd error) units
      ⟨st₀, writer, 0, false⟩).2.2 = some err)
    (hrender : ∀ unit, render unit ≠ .error err) (hupdate : ∀ st r, (update st r).2 ≠ some err) :
    let o := Loop.run (queryStep e version time render update) (queryEnd error) units
      ⟨st₀, writer, 0, false⟩
    error = some err ∧
      (published o.1).map Except.ok =
        (Buffer.run (groupSize (writer.map BatchWriter.config)) units).1.map record ∧
      After update record st₀ units.flatten o.2.1 := by
  rcases Loop.run_cases (queryStep e version time render update) (queryEnd error) units
    ⟨st₀, writer, 0, false⟩ with ⟨out, s, hr, ho⟩ | ⟨a, unit, b, out, s, em, t, -, -, hstep, ho⟩
  · have hfed := reaches_fed hq.render hq.overwrites hrows hr
    rw [ho] at h ⊢
    cases error with
    | none => simp [queryEnd] at h
    | some err' =>
      have herr : err' = err := by simpa [queryEnd] using h
      subst herr
      exact ⟨rfl, by simpa [queryEnd] using hfed.published, hfed.after⟩
  · exfalso
    obtain ⟨err', herr, hcase⟩ := queryStep_halt hstep
    have heq : err' = err := by
      rw [ho, herr] at h
      simpa using h
    subst heq
    rcases hcase with ⟨hr, -⟩ | ⟨records, last, -, -, hu, -⟩
    · exact hrender unit hr
    · exact hupdate s.st last (by rw [hu]; exact herr)

end Invariant

end TapMysql
