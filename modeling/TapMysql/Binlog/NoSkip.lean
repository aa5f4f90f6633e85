import TapMysql.Binlog.Positions

/-!
# No bookmark passes a change that was not written

In log file and position mode: at every STATE message and in the state after the run, all row
events of selected streams up to the stored position have their RECORD messages in the output.
-/

namespace TapMysql.Binlog

open Loop (Reaches)

/-- The stored position of every stream of the map lies behind no unwritten row event. -/
def CoveredBy (env : Env) (m : StreamsMap) (log : List LogEntry) (out : List Effect)
    (st : State) : Prop :=
  ∀ s ∈ m.keys, ∀ p, storedPosition st s = some p → Written env m (rowsUpTo m log p) out

/-- A row event of a selected stream that the tap refuses, as its columns have no names. -/
def LogEntry.Refused (m : StreamsMap) (e : LogEntry) : Prop :=
  ∃ ev, e.selectedRow m = some ev ∧ unnamedColumns ev ≠ []

/-- The bookmarks of a run: `r` is the output with the state returned. -/
structure BookmarksCovered (env : Env) (m : StreamsMap) (log : List LogEntry)
    (r : List Effect × Except Err State) : Prop where
  states : ∀ pre post st, r.1 = pre ++ .message (.state st) :: post → CoveredBy env m log pre st
  returned : ∀ st, r.2 = .ok st → CoveredBy env m log r.1 st
  refused : ∀ pre post st, r.1 = pre ++ .message (.state st) :: post →
    ∀ l₁ e l₂, log = l₁ ++ e :: l₂ → e.Refused m → ∀ s ∈ m.keys, ∀ p,
      storedPosition st s = some p → ∀ e' ∈ e :: l₂, p < e'.readerPosition

/-- The captured end closes a commit, so no row event ends there. -/
def EndClosesCommit (env : Env) (log : List LogEntry) : Prop :=
  ∀ e ∈ log, e.isRows = true → e.readerPosition ≠ env.endPosition

instance (env : Env) (log : List LogEntry) : Decidable (EndClosesCommit env log) :=
  inferInstanceAs (Decidable (∀ e ∈ log, e.isRows = true → e.readerPosition ≠ env.endPosition))

/-- A reader that stops without an exception has read everything up to the captured end. -/
def ReadsToEnd (env : Env) (failure : Option Err) (unread : List LogEntry) : Prop :=
  failure = none → ∀ e ∈ unread, env.endPosition < e.readerPosition

section Run

variable {env : Env} {m : StreamsMap} {st₀ : State} {start : Position} {log : List LogEntry}
  {n : ℕ} {failure : Option Err}

theorem written_of_behind {v : Vars} {l₁ l₂ : List LogEntry} {out : List Effect} {p : Position}
    (hord : Ordered start (l₁ ++ l₂))
    (hp : Progress env (initialVars m st₀ none) (deliveries false l₁) out v)
    (hrest : ∀ e ∈ l₂, e.isRows = true → p < e.readerPosition) :
    Written env m (rowsUpTo m (l₁ ++ l₂) p) out :=
  hp.written.of_prefix (rowsUpTo_delivered hord.left hrest)

theorem mem_of_delivery {l : List LogEntry} {d : Delivery} (h : d ∈ deliveries false l) :
    ∃ e ∈ l, e.delivery false = some d :=
  List.mem_filterMap.mp h

/-- A position found in the variables after the deliveries of `l₁` is behind the row events of
the rest, if the positions found there on entry are. -/
theorem marked_behind {v : Vars} {l₁ l₂ : List LogEntry} (hord : Ordered start (l₁ ++ l₂))
    (hm : Marked (initialVars m st₀ none) (deliveries false l₁) v) {s : String} {p : Position}
    (hp : storedPosition v.state s = some p)
    (h₀ : storedPosition st₀ s = some p → ∀ e ∈ l₂, e.isRows = true → p < e.readerPosition) :
    ∀ e ∈ l₂, e.isRows = true → p < e.readerPosition := by
  rcases hm.stored s p hp with h | ⟨d, hd, hmark⟩
  · exact h₀ h
  · obtain ⟨e, he, hde⟩ := mem_of_delivery hd
    rw [delivery_marks hde hmark]
    exact hord.behind he

theorem finish_covered {v : Vars} {l₁ l₂ : List LogEntry} {out : List Effect} {st : State}
    {logFile : Option String} {logPos : Option ℕ} (hord : Ordered start (l₁ ++ l₂))
    (hp : Progress env (initialVars m st₀ none) (deliveries false l₁) out v)
    (hm : Marked (initialVars m st₀ none) (deliveries false l₁) v)
    (hst : ∀ s ∈ m.keys, ∀ p, storedPosition st₀ s = some p → p ≤ start ∨ p ≤ env.endPosition)
    (hend : ∀ e ∈ l₂, e.isRows = true → env.endPosition < e.readerPosition)
    (hpos : ∀ f k, logFile = some f → logPos = some k → toLex (f, k) = env.endPosition ∨
      (v.logFile = some f ∧ v.logPos = some k))
    (hf : finish env { v with logFile := logFile, logPos := logPos } = .ok st) :
    CoveredBy env m (l₁ ++ l₂) out st := by
  intro s hs p hstored
  refine written_of_behind hord hp ?_
  rcases finish_storedPosition hf hstored with h | rfl | ⟨f, k, hlf, hlp, rfl⟩
  · refine marked_behind hord hm h fun h₀ e he hr => ?_
    rcases hst s hs p h₀ with hle | hle
    · exact lt_of_le_of_lt hle ((hord.after_start e (List.mem_append_right _ he)).2
        (isRotate_of_isRows hr))
    · exact lt_of_le_of_lt hle (hend e he hr)
  · exact hend
  · rcases hpos f k hlf hlp with heq | ⟨hvf, hvp⟩
    · exact heq ▸ hend
    · rcases hm.reader with ⟨hnone, -⟩ | ⟨d, hd, hdf, hdp⟩
      · rw [hnone] at hvf
        cases hvf
      · obtain ⟨e, he, hde⟩ := mem_of_delivery hd
        have hpe : toLex (f, k) = e.readerPosition := by
          rw [← delivery_position hde, Delivery.position]
          rw [hvf, Option.some.injEq] at hdf
          rw [hvp, Option.some.injEq] at hdp
          rw [hdf, hdp]
        rw [hpe]
        exact hord.behind he

theorem states_covered (hord : Ordered start log) {pre post : List Effect} {st : State}
    (h : (runBinlogSync env m st₀ none (deliveries false (log.take n)) failure).1 =
      pre ++ .message (.state st) :: post) : CoveredBy env m log pre st := by
  obtain ⟨l₁, e, l₂, htake, hc⟩ := state_message_entry h
  have hlog : log = (l₁ ++ [e]) ++ (l₂ ++ log.drop n) := by
    conv_lhs => rw [← List.take_append_drop n log, htake]
    simp
  intro s hs p hp
  rw [hc.stored s hs, Option.some.injEq] at hp
  subst hp
  rw [hlog] at hord ⊢
  obtain ⟨v, hv, -⟩ := hc.progress
  have hmem : e ∈ l₁ ++ [e] := by simp
  exact written_of_behind hord hv (hord.behind hmem)

theorem refused_beyond (hord : Ordered start log) {pre post : List Effect} {st : State}
    (h : (runBinlogSync env m st₀ none (deliveries false (log.take n)) failure).1 =
      pre ++ .message (.state st) :: post) {l₁ l₂ : List LogEntry} {e : LogEntry}
    (hlog : log = l₁ ++ e :: l₂) (he : e.Refused m) {s : String} (hs : s ∈ m.keys) {p : Position}
    (hp : storedPosition st s = some p) : ∀ e' ∈ e :: l₂, p < e'.readerPosition := by
  obtain ⟨k₁, c, k₂, htake, hc⟩ := state_message_entry h
  obtain ⟨v, hv, -⟩ := hc.progress
  have hlog' : log = (k₁ ++ [c]) ++ (k₂ ++ log.drop n) := by
    conv_lhs => rw [← List.take_append_drop n log, htake]
    simp
  rw [hc.stored s hs, Option.some.injEq] at hp
  subst hp
  obtain ⟨ev, hev, hunnamed⟩ := he
  -- the refused event is not among those taken up to the STATE message
  have hnot : e ∉ k₁ ++ [c] := fun hmem => by
    refine hunnamed (hv.named ev ?_)
    show ev ∈ selectedRows m (deliveries false (k₁ ++ [c]))
    rw [selectedRows_deliveries]
    exact List.mem_filterMap.mpr ⟨e, hmem, hev⟩
  have hord' : Ordered start ((k₁ ++ [c]) ++ (k₂ ++ log.drop n)) := hlog' ▸ hord
  have hmem : e ∈ k₂ ++ log.drop n := by
    have hin : e ∈ (k₁ ++ [c]) ++ (k₂ ++ log.drop n) := by
      rw [← hlog', hlog]
      simp
    exact (List.mem_append.mp hin).resolve_left hnot
  have hlt := hord'.behind (by simp : c ∈ k₁ ++ [c]) e hmem (selectedRow_isRows hev)
  intro e' he'
  rcases List.mem_cons.mp he' with rfl | he'
  · exact hlt
  · have hpair := (List.pairwise_append.mp (hlog ▸ hord.pairwise)).2.1
    exact lt_of_lt_of_le hlt ((List.pairwise_cons.mp hpair).1 e' he').1

theorem reachedEnd_iff {d : Delivery} :
    reachedEnd env d = true ↔ env.endPosition ≤ d.position := by
  rw [Env.endPosition, Delivery.position, Prod.Lex.toLex_le_toLex]
  simp [reachedEnd]

/-- A run that returns a state took the deliveries of a part of the log with all row events up to
the captured end, and stopped there. -/
theorem run_returns (hord : Ordered start log) (hend : EndClosesCommit env log)
    (hread : ReadsToEnd env failure (log.drop n)) {out : List Effect} {st : State}
    (h : runBinlogSync env m st₀ none (deliveries false (log.take n)) failure = (out, .ok st)) :
    ∃ l₁ l₂ v, log = l₁ ++ l₂ ∧
      Reaches (iteration env) (initialVars m st₀ none) (deliveries false l₁) out v ∧
      (∀ e ∈ l₂, e.isRows = true → env.endPosition < e.readerPosition) ∧
      (finish env v = .ok st ∨ finish env
        { v with logFile := some env.endLogFile, logPos := some env.endLogPos } = .ok st) := by
  have hlog := List.take_append_drop n log
  rw [runBinlogSync] at h
  rcases Loop.run_cases (iteration env) (readerEnd failure) (deliveries false (log.take n))
      (initialVars m st₀ none) with ⟨out, v, hr, hrun⟩ | ⟨a, d, b, out, v, em, t, hds, hr, hs, hrun⟩
  · -- the reader is exhausted
    rw [hrun] at h
    cases failure with
    | some err => cases h
    | none =>
      obtain ⟨rfl, hfinish⟩ := Prod.mk.inj h
      refine ⟨log.take n, log.drop n, v, hlog.symm, ?_, fun e he _ => hread rfl e he,
        .inl hfinish⟩
      rw [readerEnd, List.append_nil]
      exact hr
  · rw [hrun] at h
    rcases iteration_halt hs with ⟨hreach, rfl, rfl⟩ | ⟨-, -, e, rfl⟩
    · -- the loop broke at the captured end
      obtain ⟨rfl, hfinish⟩ := Prod.mk.inj h
      obtain ⟨l₁, c, l₂, htake, rfl, hdc, -⟩ := deliveries_split hds
      have hlog' : log = l₁ ++ (c :: l₂ ++ log.drop n) := by
        conv_lhs => rw [← hlog, htake]
        simp
      refine ⟨l₁, c :: l₂ ++ log.drop n, v, hlog', by rwa [List.append_nil], ?_, .inr hfinish⟩
      have hle : env.endPosition ≤ c.readerPosition := by
        rw [← delivery_position hdc]
        exact reachedEnd_iff.mp hreach
      intro e he hrows
      have hge : c.readerPosition ≤ e.readerPosition := by
        rcases List.mem_cons.mp he with rfl | he
        · exact le_rfl
        · have hpair := (List.pairwise_append.mp (hlog' ▸ hord.pairwise)).2.1
          exact ((List.pairwise_cons.mp hpair).1 e he).1
      have hmem : e ∈ log := hlog' ▸ List.mem_append_right _ he
      exact lt_of_le_of_ne (hle.trans hge) (hend e hmem hrows).symm
    · cases h

theorem returned_covered (hord : Ordered start log) (hend : EndClosesCommit env log)
    (hread : ReadsToEnd env failure (log.drop n))
    (hst : ∀ s ∈ m.keys, ∀ p, storedPosition st₀ s = some p → p ≤ start ∨ p ≤ env.endPosition)
    {st : State}
    (h : (runBinlogSync env m st₀ none (deliveries false (log.take n)) failure).2 = .ok st) :
    CoveredBy env m log
      (runBinlogSync env m st₀ none (deliveries false (log.take n)) failure).1 st := by
  generalize hrun : runBinlogSync env m st₀ none (deliveries false (log.take n)) failure = r
    at h ⊢
  obtain ⟨out, res⟩ := r
  obtain rfl : res = .ok st := h
  obtain ⟨l₁, l₂, v, hlog, hr, hbehind, hfinish⟩ := run_returns hord hend hread hrun
  rw [hlog] at hord ⊢
  rcases hfinish with hf | hf
  · exact finish_covered hord (reaches_progress hr) (reaches_marked hr) hst hbehind
      (fun f k hf hk => Or.inr ⟨hf, hk⟩) hf
  · exact finish_covered hord (reaches_progress hr) (reaches_marked hr) hst hbehind
      (fun f k hf hk => Or.inl (by cases hf; cases hk; rfl)) hf

/-- No bookmark passes an unwritten change, whatever ends the loop. -/
theorem bookmarks_covered (hord : Ordered start log) (hend : EndClosesCommit env log)
    (hread : ReadsToEnd env failure (log.drop n))
    (hst : ∀ s ∈ m.keys, ∀ p, storedPosition st₀ s = some p → p ≤ start ∨ p ≤ env.endPosition) :
    BookmarksCovered env m log
      (runBinlogSync env m st₀ none (deliveries false (log.take n)) failure) where
  states _ _ _ h := states_covered hord h
  returned _ h := returned_covered hord hend hread hst h
  refused _ _ _ h _ _ _ hlog he _ hs _ hp := refused_beyond hord h hlog he hs hp

end Run

/-- A rotate event, an insert and the commit that the captured end closes. -/
def Sample.committedInsert : List LogEntry :=
  [⟨"bin.1", 0, .rotate "bin.1" 4, "", 0⟩, ⟨"bin.1", 80, .tableMap "db" "t", "", 0⟩,
    ⟨"bin.1", 120, .rows (Sample.insert "t" 2), "", 0⟩, ⟨"bin.1", 150, .filtered, "", 0⟩]

def Sample.startState : State :=
  (State.empty.writeBookmark "db-t" "log_file" (.str "bin.1")).writeBookmark "db-t" "log_pos"
    (.int 4)

theorem bookmarks_covered_committedInsert :
    BookmarksCovered (Sample.env "bin.1" 150) Sample.streamsMap Sample.committedInsert
      (runBinlogSync (Sample.env "bin.1" 150) Sample.streamsMap Sample.startState none
        (deliveries false (Sample.committedInsert.take 4)) none) := by
  have hord : Ordered (toLex ("bin.1", 4)) Sample.committedInsert := ⟨by decide, by decide⟩
  refine bookmarks_covered hord (by decide) (fun _ e he => ?_) fun s hs p hp => Or.inl ?_
  · simp [Sample.committedInsert] at he
  · have hkeys : Sample.streamsMap.keys = ["db-t"] := by decide
    rw [hkeys, List.mem_singleton] at hs
    subst hs
    have hstored : storedPosition Sample.startState "db-t" =
        some (toLex ("bin.1", 4)) := by decide
    rw [hstored, Option.some.injEq] at hp
    exact hp ▸ le_rfl

end TapMysql.Binlog
