import TapMysql.Binlog.Positions

/-!
# Statements and restarts

A statement writes one table-map event for each of its tables and then its row events. A reader
that starts at a position reads the events behind it, and drops a row event when it has not read
a table-map event for its table. So a position inside a statement loses the rest of the
statement, and the periodic STATE message is restartable when it does not fall there.
-/

namespace TapMysql.Binlog

open Loop (Reaches)

structure Statement where
  tableMaps : List LogEntry
  rowsEvents : List LogEntry
  areMaps : ∀ e ∈ tableMaps, ∃ schema table, e.body = .tableMap schema table
  oneMap : (tableMaps.map LogEntry.body).Nodup
  mapped : ∀ e ∈ rowsEvents, ∃ ev, e.body = .rows ev ∧
    .tableMap ev.schema ev.table ∈ tableMaps.map LogEntry.body
  nonempty : rowsEvents ≠ []

/-- A binlog in blocks: statements, and single events that are not row events. -/
inductive Block where
  | statement (s : Statement)
  | other (e : LogEntry) (h : e.isRows = false)

def Block.entries : Block → List LogEntry
  | .statement s => s.tableMaps ++ s.rowsEvents
  | .other e _ => [e]

def Block.log (blocks : List Block) : List LogEntry := blocks.flatMap Block.entries

/-- The entries that a reader started at `start` delivers; `known` are the tables whose
table-map event it has read. -/
def readFrom (start : Position) : List (String × String) → List LogEntry → List LogEntry
  | _, [] => []
  | known, e :: rest =>
    if e.readerPosition ≤ start then readFrom start known rest
    else
      match e.body with
      | .tableMap schema table => readFrom start ((schema, table) :: known) rest
      | .rows ev =>
        if (ev.schema, ev.table) ∈ known then e :: readFrom start known rest
        else readFrom start known rest
      | _ =>
        if (e.surfaced false).isSome then e :: readFrom start known rest
        else readFrom start known rest

/-- A reader started at `p` delivers every row event of a selected stream behind `p`. -/
def Restartable (m : StreamsMap) (log : List LogEntry) (p : Position) : Prop :=
  ∀ e ∈ log, (e.selectedRow m).isSome = true → p < e.readerPosition → e ∈ readFrom p [] log

def StatesRestartable (m : StreamsMap) (log : List LogEntry) (out : List Effect) : Prop :=
  ∀ pre post st, out = pre ++ .message (.state st) :: post → ∀ s ∈ m.keys, ∀ p,
    storedPosition st s = some p → Restartable m log p

/-- The loop, started in `v₀` on the deliveries `ds`, takes the entry behind `before`. -/
def Takes (env : Env) (v₀ : Vars) (ds : List Delivery) (before : List LogEntry) (e : LogEntry) :
    Prop :=
  deliveries false (before ++ [e]) <+: ds ∧
    ∃ out v, Reaches (iteration env) v₀ (deliveries false (before ++ [e])) out v

/-- Whenever the loop takes a row event that is followed, in its statement, by a row event of a
selected stream, neither the rows of selected streams so far nor the skipped events so far
reach the period. -/
def PeriodOutsideStatements (env : Env) (m : StreamsMap) (v₀ : Vars) (ds : List Delivery)
    (blocks : List Block) : Prop :=
  ∀ a s b r₁ e r₂, blocks = a ++ .statement s :: b → s.rowsEvents = r₁ ++ e :: r₂ →
    (∃ e' ∈ r₂, (e'.selectedRow m).isSome = true) →
    Takes env v₀ ds (Block.log a ++ s.tableMaps ++ r₁) e →
    let seen := deliveries false (Block.log a ++ s.tableMaps ++ r₁ ++ [e])
    ¬ PeriodReached (rowsProcessed m seen) ∧ ¬ PeriodReached (rowEventsSkipped m seen)

/-! ### What a restarted reader delivers -/

theorem readFrom_sublist (p : Position) (known : List (String × String)) (log : List LogEntry) :
    (readFrom p known log).Sublist log := by
  induction log generalizing known with
  | nil => exact .slnil
  | cons e rest ih =>
    rw [readFrom]
    split
    · exact (ih known).cons e
    · split
      · exact (ih _).cons e
      · split
        · exact (ih known).cons_cons e
        · exact (ih known).cons e
      · split
        · exact (ih known).cons_cons e
        · exact (ih known).cons e

theorem readFrom_before {p : Position} (known : List (String × String)) {l₁ : List LogEntry}
    (h : ∀ e ∈ l₁, e.readerPosition ≤ p) (l₂ : List LogEntry) :
    readFrom p known (l₁ ++ l₂) = readFrom p known l₂ := by
  induction l₁ with
  | nil => rfl
  | cons e l₁ ih =>
    rw [List.cons_append, readFrom, if_pos (h e List.mem_cons_self),
      ih fun e' he' => h e' (List.mem_cons_of_mem _ he')]

/-- Row events are dropped while no table-map event has been read. -/
theorem readFrom_unmapped (p : Position) {l₁ : List LogEntry} (h : ∀ e ∈ l₁, e.isRows = true)
    (l₂ : List LogEntry) : readFrom p [] (l₁ ++ l₂) = readFrom p [] l₂ := by
  induction l₁ with
  | nil => rfl
  | cons e l₁ ih =>
    have hrows := h e List.mem_cons_self
    have hrest := ih fun e' he' => h e' (List.mem_cons_of_mem _ he')
    rw [List.cons_append, readFrom, hrest]
    rw [LogEntry.isRows] at hrows
    split
    · rfl
    · cases hb : e.body with
      | rows ev => simp
      | tableMap schema table => simp [hb] at hrows
      | rotate next position => simp [hb] at hrows
      | gtid g => simp [hb] at hrows
      | filtered => simp [hb] at hrows

theorem mem_readFrom_of_known {p : Position} {e : LogEntry} {ev : RowsEvent}
    (hb : e.body = .rows ev) (hp : p < e.readerPosition) (l₁ l₂ : List LogEntry)
    {known : List (String × String)} (hknown : (ev.schema, ev.table) ∈ known) :
    e ∈ readFrom p known (l₁ ++ e :: l₂) := by
  induction l₁ generalizing known with
  | nil => simp [readFrom, not_le_of_gt hp, hb, hknown]
  | cons e₁ l₁ ih =>
    rw [List.cons_append]
    rw [readFrom]
    split
    · exact ih hknown
    · split
      · exact ih (List.mem_cons_of_mem _ hknown)
      · split
        · exact List.mem_cons_of_mem _ (ih hknown)
        · exact ih hknown
      · split
        · exact List.mem_cons_of_mem _ (ih hknown)
        · exact ih hknown

theorem mem_readFrom_of_map {p : Position} {e c : LogEntry} {ev : RowsEvent}
    (hb : e.body = .rows ev) (hp : p < e.readerPosition)
    (hc : c.body = .tableMap ev.schema ev.table) (hpc : p < c.readerPosition)
    (l₁ l₂ l₃ : List LogEntry) (known : List (String × String)) :
    e ∈ readFrom p known (l₁ ++ c :: (l₂ ++ e :: l₃)) := by
  induction l₁ generalizing known with
  | nil =>
    rw [List.nil_append, readFrom, if_neg (not_le_of_gt hpc), hc]
    exact mem_readFrom_of_known hb hp l₂ l₃ List.mem_cons_self
  | cons e₁ l₁ ih =>
    rw [List.cons_append]
    rw [readFrom]
    split
    · exact ih known
    · split
      · exact ih _
      · split
        · exact List.mem_cons_of_mem _ (ih known)
        · exact ih known
      · split
        · exact List.mem_cons_of_mem _ (ih known)
        · exact ih known

/-! ### Positions inside a statement -/

theorem Block.log_statement (a b : List Block) (s : Statement) :
    log (a ++ .statement s :: b) = log a ++ (s.tableMaps ++ s.rowsEvents) ++ log b := by
  simp [log, Block.entries]

theorem Statement.isRows (s : Statement) {e : LogEntry} (he : e ∈ s.rowsEvents) :
    e.isRows = true := by
  obtain ⟨ev, hb, -⟩ := s.mapped e he
  simp [LogEntry.isRows, hb]

theorem isRows_delivery {e : LogEntry} (h : e.isRows = true) (useGtid : Bool) :
    ∃ d, e.delivery useGtid = some d := by
  rw [LogEntry.isRows] at h
  unfold LogEntry.delivery LogEntry.surfaced
  cases hb : e.body <;> simp_all

theorem selected_in_statement {m : StreamsMap} {blocks : List Block} {e : LogEntry}
    (he : e ∈ Block.log blocks) (hsel : (e.selectedRow m).isSome = true) :
    ∃ a s b, blocks = a ++ .statement s :: b ∧ e ∈ s.rowsEvents := by
  obtain ⟨block, hblock, hin⟩ := List.mem_flatMap.mp he
  obtain ⟨a, b, rfl⟩ := List.append_of_mem hblock
  obtain ⟨ev, hev⟩ := Option.isSome_iff_exists.mp hsel
  have hrows := selectedRow_isRows hev
  cases block with
  | other c hc =>
    rw [Block.entries, List.mem_singleton] at hin
    rw [hin, hc] at hrows
    cases hrows
  | statement s =>
    rcases List.mem_append.mp hin with hmap | hrow
    · obtain ⟨schema, table, hb⟩ := s.areMaps e hmap
      simp [LogEntry.isRows, hb] at hrows
    · exact ⟨a, s, b, rfl, hrow⟩

section Run

variable {env : Env} {m : StreamsMap} {st₀ : State} {start : Position} {blocks : List Block}
  {n : ℕ} {failure : Option Err}

/-- A reader that starts at a row event drops the rest of its statement. -/
theorem not_restartable_inside {a b : List Block} {s : Statement} {r₁ r₂ : List LogEntry}
    {e e' : LogEntry} (hord : Ordered start (Block.log (a ++ .statement s :: b)))
    (hrows : s.rowsEvents = r₁ ++ e :: r₂) (he' : e' ∈ r₂)
    (hsel : (e'.selectedRow m).isSome = true) :
    ¬ Restartable m (Block.log (a ++ .statement s :: b)) e.readerPosition := by
  intro hres
  have hlog : Block.log (a ++ .statement s :: b) =
      (Block.log a ++ s.tableMaps ++ r₁ ++ [e]) ++ (r₂ ++ Block.log b) := by
    rw [Block.log_statement, hrows]
    simp
  have hisRows : ∀ c ∈ r₂, c.isRows = true := fun c hc =>
    s.isRows (by rw [hrows]; simp [hc])
  rw [hlog] at hord hres
  have hlt : e.readerPosition < e'.readerPosition :=
    hord.behind (by simp) e' (by simp [he']) (hisRows e' he')
  have hread := hres e' (by simp [he']) hsel hlt
  have hbefore : ∀ c ∈ Block.log a ++ s.tableMaps ++ r₁ ++ [e],
      c.readerPosition ≤ e.readerPosition := by
    intro c hc
    rcases List.mem_append.mp hc with hc | hc
    · exact ((List.pairwise_append.mp hord.left).2.2 c hc e (by simp)).1
    · rw [List.mem_singleton.mp hc]
  rw [readFrom_before [] hbefore, readFrom_unmapped _ hisRows] at hread
  -- the event would stand behind its statement as well
  have hin : e' ∈ Block.log b := (readFrom_sublist _ _ _).subset hread
  have hord' : Ordered start ((Block.log a ++ s.tableMaps ++ r₁ ++ [e] ++ r₂) ++ Block.log b) := by
    simpa using hord
  exact absurd (hord'.behind (by simp [he']) e' hin (hisRows e' he')) (lt_irrefl _)

/-- When the period is reached at an entry that the loop takes, a STATE message follows it. -/
theorem state_of_period {before : List LogEntry} {e : LogEntry} {ds : List Delivery}
    (htake : Takes env (initialVars m st₀ none) ds before e) (he : e.isRows = true)
    (hdue : PeriodReached (rowsProcessed m (deliveries false (before ++ [e]))) ∨
      PeriodReached (rowEventsSkipped m (deliveries false (before ++ [e])))) :
    ∃ pre st post, (Loop.run (iteration env) (readerEnd failure) ds
        (initialVars m st₀ none)).1 = pre ++ .message (.state st) :: post ∧
      ∀ s ∈ m.keys, storedPosition st s = some e.readerPosition := by
  obtain ⟨⟨rest, rfl⟩, out, v, hr⟩ := htake
  obtain ⟨d, hd⟩ := isRows_delivery he false
  rw [deliveries_concat hd] at hr hdue ⊢
  rw [Loop.run_of_reaches hr]
  obtain ⟨out₁, v₁, em, hr₁, hs, rfl⟩ := hr.last
  obtain ⟨-, em₁, v₂, hev, hcase⟩ := iteration_next hs
  have hp := (reaches_progress hr₁).event hev
  have hdue' : periodicDue v₂ = true := by
    rw [periodicDue_iff, hp.processed, hp.skipped]
    simpa [initialVars] using hdue
  rcases hcase with ⟨hnot, -, -⟩ | ⟨-, st, hu, rfl, -⟩
  · rw [hdue'] at hnot
    cases hnot
  · refine ⟨out₁ ++ em₁, st, _, by simp only [List.append_assoc]; rfl, fun s hs => ?_⟩
    rw [storedPosition_updateBookmarks hu, hp.keys, ← delivery_position hd]
    exact if_pos hs

theorem periodOutside_of_restartable (hord : Ordered start (Block.log blocks))
    (h : StatesRestartable m (Block.log blocks) (runBinlogSync env m st₀ none
      (deliveries false ((Block.log blocks).take n)) failure).1) :
    PeriodOutsideStatements env m (initialVars m st₀ none)
      (deliveries false ((Block.log blocks).take n)) blocks := by
  intro a s b r₁ e r₂ hblocks hrows ⟨e', he', hsel⟩ htake
  have he : e.isRows = true := s.isRows (by simp [hrows])
  by_contra hdue
  rw [not_and_or, not_not, not_not] at hdue
  obtain ⟨pre, st, post, hrun, hst⟩ := state_of_period htake he hdue
  have hkey : ∃ k, k ∈ m.keys := by
    obtain ⟨ev, hev⟩ := Option.isSome_iff_exists.mp hsel
    obtain ⟨entry, hentry⟩ := selectedRow_found hev
    exact ⟨_, Dict.mem_keys_iff.mpr ⟨entry, hentry⟩⟩
  obtain ⟨k, hk⟩ := hkey
  have hres := h pre post st hrun k hk _ (hst k hk)
  rw [hblocks] at hord hres
  exact not_restartable_inside hord hrows he' hsel hres

/-- A STATE message at `e` is restartable unless `e` is followed, in its statement, by a row
event of a selected stream. -/
theorem restartable_or_inside {l₁ l₂ : List LogEntry} {e : LogEntry}
    (hord : Ordered start (Block.log blocks)) (hlog : Block.log blocks = l₁ ++ e :: l₂)
    (hsurf : ∃ d, e.delivery false = some d) {e' : LogEntry} (he' : e' ∈ Block.log blocks)
    (hsel : (e'.selectedRow m).isSome = true) (hlt : e.readerPosition < e'.readerPosition) :
    e' ∈ readFrom e.readerPosition [] (Block.log blocks) ∨
      ∃ a s b r₁ r₂, blocks = a ++ .statement s :: b ∧ s.rowsEvents = r₁ ++ e :: r₂ ∧
        e' ∈ r₂ ∧ l₁ = Block.log a ++ s.tableMaps ++ r₁ := by
  obtain ⟨a, s, b, rfl, hin⟩ := selected_in_statement he' hsel
  obtain ⟨ev, hbody, hmap⟩ := s.mapped e' hin
  obtain ⟨c, hc, hcbody⟩ := List.mem_map.mp hmap
  obtain ⟨c₁, c₂, hmaps⟩ := List.append_of_mem hc
  obtain ⟨q₁, q₂, hq⟩ := List.append_of_mem hin
  by_cases hpc : e.readerPosition < c.readerPosition
  · -- the table-map event is read again
    left
    have hsplit : Block.log (a ++ .statement s :: b) =
        (Block.log a ++ c₁) ++ c :: ((c₂ ++ q₁) ++ e' :: (q₂ ++ Block.log b)) := by
      rw [Block.log_statement, hmaps, hq]
      simp
    rw [hsplit]
    exact mem_readFrom_of_map hbody hlt hcbody hpc _ _ _ []
  · right
    have hle : c.readerPosition ≤ e.readerPosition := le_of_not_gt hpc
    have hbl := Block.log_statement a b s
    have hord' := hbl ▸ hord
    have hmem : e ∈ (Block.log a ++ (s.tableMaps ++ s.rowsEvents)) ++ Block.log b := by
      rw [← hbl, hlog]
      simp
    have hcrot : c.isRotate = false := by simp [LogEntry.isRotate, hcbody]
    have hpair := List.pairwise_append.mp hord'.pairwise
    have herows : e ∈ s.rowsEvents := by
      rcases List.mem_append.mp hmem with hmem | hmem
      · rcases List.mem_append.mp hmem with hmem | hmem
        · -- before the statement
          have hlt' := ((List.pairwise_append.mp hpair.1).2.2 e hmem c (by simp [hc])).2 hcrot
          exact absurd hle (not_le_of_gt hlt')
        · rcases List.mem_append.mp hmem with hmem | hmem
          · -- a table-map event is not delivered
            obtain ⟨schema, table, hb⟩ := s.areMaps e hmem
            obtain ⟨d, hd⟩ := hsurf
            simp [LogEntry.delivery, LogEntry.surfaced, hb] at hd
          · exact hmem
      · -- behind the statement
        have hle' := (hpair.2.2 e' (by simp [hin]) e hmem).1
        exact absurd hlt (not_lt_of_ge hle')
    obtain ⟨r₁, r₂, hr⟩ := List.append_of_mem herows
    have herow : e.isRows = true := s.isRows herows
    have hsplit : l₁ ++ e :: l₂ =
        (Block.log a ++ s.tableMaps ++ r₁) ++ e :: (r₂ ++ Block.log b) := by
      rw [← hlog, hbl, hr]
      simp
    refine ⟨a, s, b, r₁, r₂, rfl, hr, ?_, (hlog ▸ hord).split_unique hsplit herow⟩
    have hord'' : Ordered start
        ((Block.log a ++ s.tableMaps ++ r₁) ++ e :: (r₂ ++ Block.log b)) := by
      rw [← hsplit, ← hlog]
      exact hord
    rw [hr, List.mem_append, List.mem_cons] at hin
    rcases hin with hin | rfl | hin
    · exact absurd (hord''.behind (by simp [hin]) e (by simp) herow) (not_lt_of_gt hlt)
    · exact absurd hlt (lt_irrefl _)
    · exact hin

theorem restartable_of_periodOutside (hord : Ordered start (Block.log blocks))
    (h : PeriodOutsideStatements env m (initialVars m st₀ none)
      (deliveries false ((Block.log blocks).take n)) blocks) :
    StatesRestartable m (Block.log blocks) (runBinlogSync env m st₀ none
      (deliveries false ((Block.log blocks).take n)) failure).1 := by
  intro pre st post hout k hk p hp e' he' hsel hlt
  obtain ⟨l₁, e, l₂, htake, hc⟩ := state_message_entry hout
  rw [hc.stored k hk, Option.some.injEq] at hp
  subst hp
  have hlog : Block.log blocks = l₁ ++ e :: (l₂ ++ (Block.log blocks).drop n) := by
    conv_lhs => rw [← List.take_append_drop n (Block.log blocks), htake]
    simp
  rcases restartable_or_inside hord hlog hc.surfaced he' hsel hlt with hread | hinside
  · exact hread
  · obtain ⟨a, s, b, r₁, r₂, hblocks, hr, hin, rfl⟩ := hinside
    obtain ⟨v, hr', hdue⟩ := hc.progress
    obtain ⟨v', hreach⟩ := hc.reaches
    have hnot := h a s b r₁ e r₂ hblocks hr ⟨e', hin, hsel⟩ ⟨hc.taken, _, v', hreach⟩
    rw [periodicDue_iff, hr'.processed, hr'.skipped] at hdue
    rcases hdue with hdue | hdue
    · exact absurd (by simpa [initialVars] using hdue) hnot.1
    · exact absurd (by simpa [initialVars] using hdue) hnot.2

/-- Every STATE message can be restarted from exactly when the period is never reached at a row
event that its statement follows with one of a selected stream. -/
theorem states_restartable_iff (hord : Ordered start (Block.log blocks)) :
    StatesRestartable m (Block.log blocks) (runBinlogSync env m st₀ none
      (deliveries false ((Block.log blocks).take n)) failure).1 ↔
    PeriodOutsideStatements env m (initialVars m st₀ none)
      (deliveries false ((Block.log blocks).take n)) blocks :=
  ⟨periodOutside_of_restartable hord, restartable_of_periodOutside hord⟩

end Run

/-! ### A statement that fills the period with its first row event -/

def Sample.longInsert : LogEntry := ⟨"bin.1", 5000, .rows (Sample.insert "t" 1000), "", 0⟩

def Sample.longStatement : Statement where
  tableMaps := [⟨"bin.1", 80, .tableMap "db" "t", "", 0⟩]
  rowsEvents := [Sample.longInsert, ⟨"bin.1", 5100, .rows (Sample.insert "t" 1), "", 0⟩]
  areMaps := by simp
  oneMap := by simp
  mapped := by
    intro e he
    simp only [List.mem_cons, List.not_mem_nil, or_false] at he
    rcases he with rfl | rfl <;> exact ⟨_, rfl, List.mem_singleton.mpr rfl⟩
  nonempty := by simp

def Sample.longLog : List Block :=
  [.statement Sample.longStatement, .other ⟨"bin.1", 5150, .filtered, "", 0⟩ rfl]

theorem Sample.longLog_ordered : Ordered (toLex ("bin.1", 4)) (Block.log Sample.longLog) :=
  ⟨by decide, by decide⟩

/-- The insert of a thousand rows is handled. -/
def Sample.longHandled (v : Vars) (hv : v.streamsMap = Sample.streamsMap)
    (hig : v.ignoredColumns = []) (hst : v.state = State.empty) :
    HandledRows (Sample.env "bin.1" 5150) v
      ⟨.rows (Sample.insert "t" 1000), "bin.1", 5000, "", 0⟩ (Sample.insert "t" 1000) where
  entry := ⟨addAutomaticProperties Sample.entry, ["id", sdcDeletedAt]⟩
  placed := ⟨[], ⟨addAutomaticProperties Sample.entry, ["id", sdcDeletedAt]⟩, v⟩
  records := List.replicate 1000 (.record "db-t" (Dict.ofList [("id", .int 1)]) (.int 0) "")
  found := by rw [hv]; rfl
  named := by
    have hnil : unnamedColumns (Sample.insert "t" 1000) = [] := rfl
    simp [verifyEventColumnNames, hnil]
  places := by
    have hnil : getDiffInColumnsList (Sample.insert "t" 1000)
        (addAutomaticProperties Sample.entry).schema.keys [] = [] := rfl
    simp [placeColumns, hig, hnil]
  handles := by
    rw [handleRowsEvent_eq, hst]
    have hrecord : ∀ x ∈ List.replicate 1000 (), rowToSingerRecord Sample.lib
        (addAutomaticProperties Sample.entry) (.int 0) (Sample.insert "t" 1000).columns
        ((Dict.ofList [("id", .int 1)]).filterKeys (["id", sdcDeletedAt] : List String).contains)
        "" = .ok (.record "db-t" (Dict.ofList [("id", .int 1)]) (.int 0) "") := fun _ _ => rfl
    have hwritten := emitRows_map hrecord
    rwa [List.map_replicate, List.map_replicate] at hwritten

theorem Sample.takes_longStatement : Takes (Sample.env "bin.1" 5150)
    (initialVars Sample.streamsMap State.empty none)
    (deliveries false ((Block.log Sample.longLog).take 4)) Sample.longStatement.tableMaps
    Sample.longInsert := by
  refine ⟨⟨[_], rfl⟩, ?_⟩
  have he := handleEvent_of_handled rfl (Sample.longHandled (takePosition
    (initialVars Sample.streamsMap State.empty none)
    ⟨.rows (Sample.insert "t" 1000), "bin.1", 5000, "", 0⟩) rfl rfl rfl)
  obtain ⟨em, v, hnext⟩ := iteration_of_handleEvent (by decide) he (by decide)
  exact ⟨_, v, Loop.Reaches.start.step hnext⟩

/-- The STATE message after a thousand rows stands inside their statement, and a reader started
there does not deliver the rest. -/
theorem state_inside_statement :
    ¬ StatesRestartable Sample.streamsMap (Block.log Sample.longLog)
      (runBinlogSync (Sample.env "bin.1" 5150) Sample.streamsMap State.empty none
        (deliveries false ((Block.log Sample.longLog).take 4)) none).1 := by
  intro h
  have hout := periodOutside_of_restartable Sample.longLog_ordered h [] Sample.longStatement _ []
    Sample.longInsert _ rfl rfl ⟨_, List.mem_singleton.mpr rfl, rfl⟩ Sample.takes_longStatement
  have hsel : selectedRows Sample.streamsMap (deliveries false
      (Block.log [] ++ Sample.longStatement.tableMaps ++ [] ++ [Sample.longInsert])) =
      [Sample.insert "t" 1000] := rfl
  refine hout.1 ?_
  rw [rowsProcessed, hsel]
  simp only [List.map_cons, List.map_nil, List.sum_cons, List.sum_nil, Sample.insert,
    Change.rowCount, List.length_replicate]
  decide

theorem states_restartable_iff_longLog :
    StatesRestartable Sample.streamsMap (Block.log Sample.longLog)
      (runBinlogSync (Sample.env "bin.1" 5150) Sample.streamsMap State.empty none
        (deliveries false ((Block.log Sample.longLog).take 4)) none).1 ↔
    PeriodOutsideStatements (Sample.env "bin.1" 5150) Sample.streamsMap
      (initialVars Sample.streamsMap State.empty none)
      (deliveries false ((Block.log Sample.longLog).take 4)) Sample.longLog :=
  states_restartable_iff Sample.longLog_ordered

end TapMysql.Binlog
