import TapMysql.Select.Window

/-!
# The retry loop as a session of page reads

A retry loop that returns has made failed attempts, each with an exception that is retried, and
one attempt that returned. When every attempt reads a page of one collection from the bookmark
that the attempt before it left, the run is a session of page reads: its messages publish what
the failed attempts passed on and the whole of the last page.
-/

namespace TapMysql

/-! ### Runs of the loop -/

theorem retryable_isOperational {config : Option BatchConfig} {err : Err}
    (h : retryable config err = true) :
    err.isOperational = true := by
  simp only [retryable, Bool.or_eq_true, Bool.and_eq_true, decide_eq_true_eq] at h
  simp only [Err.isOperational, Bool.or_eq_true, decide_eq_true_eq]
  exact h.imp_right And.right

section Tried

variable {config : Option BatchConfig} {body : Nat → State → Outcome}

/-- The attempts from number `n` on, the last of which returns. -/
inductive Tried (config : Option BatchConfig) (body : Nat → State → Outcome) :
    Nat → State → Outcome → Prop
  | returned {n : Nat} {st : State} : (body n st).error = none → Tried config body n st (body n st)
  | retried {n : Nat} {st : State} {err : Err} {o : Outcome} : (body n st).error = some err →
      retryable config err = true → Tried config body (n + 1) (body n st).state o →
      Tried config body n st ((body n st).andThen o)

theorem attempts_returns {left n : Nat} {st : State} (hleft : left ≠ 0)
    (h : (attempts config body left n st).error = none) :
    Tried config body n st (attempts config body left n st) := by
  induction left generalizing n st with
  | zero => exact absurd rfl hleft
  | succ left ih =>
    unfold attempts at h ⊢
    cases he : (body n st).error with
    | none => exact .returned he
    | some err =>
      simp only [he] at h ⊢
      split_ifs at h ⊢ with hretry
      · simp only [Bool.and_eq_true, decide_eq_true_eq] at hretry
        exact .retried he hretry.1 (ih hretry.2 h)
      · simp [he] at h

/-- The messages of a loop that returns end with those of an attempt that returned. -/
theorem Tried.last {n : Nat} {st : State} {o : Outcome} (h : Tried config body n st o) :
    ∃ m st' before, (body m st').error = none ∧ o.messages = before ++ (body m st').messages := by
  induction h with
  | @returned n st hret => exact ⟨n, st, [], hret, rfl⟩
  | @retried n st err o _ _ _ ih =>
    obtain ⟨m, st', before, hret, hmsgs⟩ := ih
    refine ⟨m, st', (body n st).messages ++ before, hret, ?_⟩
    rw [Outcome.andThen, hmsgs, List.append_assoc]

/-- The outcomes of the attempts that the loop makes, in order. -/
def attemptOutcomes (config : Option BatchConfig) (body : Nat → State → Outcome) :
    Nat → Nat → State → List Outcome
  | 0, _, _ => []
  | left + 1, n, st =>
    body n st :: match (body n st).error with
      | none => []
      | some err =>
        if retryable config err && left ≠ 0 then
          attemptOutcomes config body left (n + 1) (body n st).state
        else []

theorem attempts_outcomes (left n : Nat) (st : State) :
    (attempts config body left n st).messages =
        (attemptOutcomes config body left n st).flatMap Outcome.messages ∧
      (attempts config body left n st).executed =
        (attemptOutcomes config body left n st).flatMap Outcome.executed := by
  induction left generalizing n st with
  | zero => exact ⟨rfl, rfl⟩
  | succ left ih =>
    unfold attempts attemptOutcomes
    cases he : (body n st).error with
    | none => simp
    | some err =>
      simp only [List.flatMap_cons]
      split_ifs with hretry
      · rw [← (ih _ _).1, ← (ih _ _).2]
        exact ⟨rfl, rfl⟩
      · simp

theorem attemptOutcomes_cons {left n : Nat} {st : State} {o : Outcome} {os : List Outcome}
    (h : attemptOutcomes config body left n st = o :: os) :
    o = body n st ∧ (os = [] ∨ ∃ err left', (body n st).error = some err ∧
      retryable config err = true ∧
      os = attemptOutcomes config body left' (n + 1) (body n st).state) := by
  cases left with
  | zero => simp [attemptOutcomes] at h
  | succ left =>
    obtain ⟨ho, hos⟩ := List.cons.inj h
    refine ⟨ho.symm, ?_⟩
    cases he : (body n st).error with
    | none => exact Or.inl (by simpa [he] using hos.symm)
    | some err =>
      simp only [he] at hos
      split_ifs at hos with hretry
      · simp only [Bool.and_eq_true] at hretry
        exact Or.inr ⟨err, left, rfl, hretry.1, hos.symm⟩
      · exact Or.inl hos.symm

theorem attemptOutcomes_executed {P : SelectSql × Fetch → Prop}
    (hbody : ∀ n st, ∀ x ∈ (body n st).executed, P x) {left n : Nat} {st : State} :
    ∀ o ∈ attemptOutcomes config body left n st, ∀ x ∈ o.executed, P x := by
  intro o ho
  induction left generalizing n st with
  | zero => simp [attemptOutcomes] at ho
  | succ left ih =>
    cases hos : attemptOutcomes config body (left + 1) n st with
    | nil => simp [hos] at ho
    | cons o' os =>
      rw [hos] at ho
      rw [attemptOutcomes, List.cons.injEq] at hos
      rcases List.mem_cons.mp ho with rfl | ho
      · rw [← hos.1]
        exact hbody n st
      · rw [← hos.2] at ho
        split at ho
        · cases ho
        · split_ifs at ho
          · exact ih ho
          · cases ho

/-- An attempt with an exception that is not retried, before it executed a statement. -/
structure FailsForGood (o : Outcome) : Prop where
  messages : o.messages = []
  executed : o.executed = []
  error : ∃ err, o.error = some err ∧ err.isOperational = false

theorem Tried.not_failsForGood {n : Nat} {st : State} {o : Outcome} (h : Tried config body n st o) :
    ¬FailsForGood (body n st) := by
  intro hfail
  obtain ⟨err, herr, hno⟩ := hfail.error
  cases h with
  | returned hret => simp [hret] at herr
  | retried herr' hretry _ =>
    rw [herr', Option.some.injEq] at herr
    subst herr
    simp [retryable_isOperational hretry] at hno

theorem attempts_congr {body' : Nat → State → Outcome} {left n : Nat} {st : State}
    (h : body n st = body' n st) (hlater : ∀ m st, n < m → body m st = body' m st) :
    attempts config body left n st = attempts config body' left n st ∧
      attemptOutcomes config body left n st = attemptOutcomes config body' left n st := by
  induction left generalizing n st with
  | zero => exact ⟨rfl, rfl⟩
  | succ left ih =>
    obtain ⟨hrest, houts⟩ := ih (hlater (n + 1) (body n st).state n.lt_succ_self)
      fun m st hm => hlater m st (Nat.lt_of_succ_lt hm)
    rw [attempts, attempts, attemptOutcomes, attemptOutcomes, ← h, hrest, houts]
    exact ⟨rfl, rfl⟩

theorem attempts_failsForGood {left n : Nat} {st : State} (h : FailsForGood (body n st)) :
    attempts config body (left + 1) n st = body n st ∧
      attemptOutcomes config body (left + 1) n st = [body n st] := by
  obtain ⟨err, herr, hno⟩ := h.error
  have hretry : retryable config err = false := by
    by_contra hretry
    simp [retryable_isOperational (Bool.not_eq_false _ ▸ hretry)] at hno
  rw [attempts, attemptOutcomes]
  simp [herr, hretry]

end Tried

/-! ### Attempts that read pages -/

section Pages

variable {κ : Type*} [LinearOrder κ]

/-- For each statement whose fetch was cut off: the records that had left the writer, and those
still in it. -/
def failedPages (e : CatalogEntry) (config : Option BatchConfig)
    (executed : List (SelectSql × Fetch)) :
    List (List (Except Err Record) × List (Except Err Record)) :=
  (executed.filter fun x => x.2.error.isSome).map fun x =>
    ((announcedRows config x.2.chunks).map (rowRecord e e.schema.keys config x.2.names),
      (heldBack config x.2.chunks).map (rowRecord e e.schema.keys config x.2.names))

/-- The records of the rows that the first statement asks the server for. -/
def dueRecords (db : Mysql κ) (e : CatalogEntry) (config : Option BatchConfig)
    (table : List TableRow) (o : Outcome) : Multiset (Except Err Record) :=
  match o.executed with
  | [] => 0
  | (sql, _) :: _ => ↑((db.matching sql table).map (tableRecord db e config sql.columns))

/-- The records that messages publish. -/
def publishedRecords (messages : List Message) : Multiset (Except Err Record) :=
  ((published messages : Multiset Record)).map Except.ok

variable {db : Mysql κ} {e : CatalogEntry} {config : Option BatchConfig} {table : List TableRow}
  {body : Nat → State → Outcome} {M : Multiset (Except Err Record)}
  {key : Except Err Record → WithBot κ} {asked : WithBot κ → Except Err Record → Prop}
  [∀ b, DecidablePred (asked b)] {At : State → WithBot κ → Prop}
  {Extra : Paging.Attempt (Except Err Record) (WithBot κ) → Prop}

/-- The STATE `v` comes in the messages of these attempts after `before`. The pages are those of
the attempts cut off earlier, and the rows of its own attempt that were published before it. -/
inductive StateAt (e : CatalogEntry) (config : Option BatchConfig) : List Outcome →
    List Message → List (List (Except Err Record) × List (Except Err Record)) → State → Prop
  | here {o : Outcome} {os : List Outcome} {pre post : List Message} {v : State} :
      o.messages = pre ++ .state v :: post →
      StateAt e config (o :: os) pre [((published pre).map Except.ok, [])] v
  | later {o : Outcome} {os : List Outcome} {before : List Message}
      {pages : List (List (Except Err Record) × List (Except Err Record))} {v : State} :
      StateAt e config os before pages v →
      StateAt e config (o :: os) (o.messages ++ before)
        (failedPages e config o.executed ++ pages) v

theorem exists_stateAt (e : CatalogEntry) (config : Option BatchConfig) {os : List Outcome}
    {before after : List Message} {v : State}
    (h : os.flatMap Outcome.messages = before ++ .state v :: after) :
    ∃ pages, StateAt e config os before pages v := by
  induction os generalizing before with
  | nil => simp at h
  | cons o os ih =>
    rw [List.flatMap_cons, List.append_eq_append_iff] at h
    rcases h with ⟨pre, rfl, hrest⟩ | ⟨post, ho, hrest⟩
    · obtain ⟨pages, hstate⟩ := ih hrest
      exact ⟨_, .later hstate⟩
    · cases post with
      | nil =>
        obtain ⟨pages, hstate⟩ : ∃ pages, StateAt e config os [] pages v := ih hrest.symm
        rw [List.append_nil] at ho
        rw [← ho, ← List.append_nil o.messages]
        exact ⟨_, .later hstate⟩
      | cons m post =>
        rw [List.cons_append, List.cons.injEq] at hrest
        rw [← hrest.1] at ho
        exact ⟨_, .here ho⟩

/-- The attempt read a part of the page at `b`, and its state names the key of the last row
received. -/
structure ReadsPage (M : Multiset (Except Err Record)) (key : Except Err Record → WithBot κ)
    (asked : WithBot κ → Except Err Record → Prop) [∀ b, DecidablePred (asked b)]
    (At : State → WithBot κ → Prop)
    (Extra : Paging.Attempt (Except Err Record) (WithBot κ) → Prop) (b : WithBot κ)
    (st' : State) (sent held : List (Except Err Record)) : Prop where
  next : At st' (Paging.bookmarkAfter key b (sent ++ held))
  extra : Extra ⟨sent, held, Paging.bookmarkAfter key b (sent ++ held)⟩
  rest : ∃ rest, M.filter (asked b) = ↑(sent ++ held) + rest ∧
    (∀ x ∈ rest, asked (Paging.bookmarkAfter key b (sent ++ held)) x) ∧
    ∀ x, asked (Paging.bookmarkAfter key b (sent ++ held)) x → asked b x

/-- The attempt was cut off in its fetch; it published what had left the writer. -/
def CutOff (e : CatalogEntry) (config : Option BatchConfig) (M : Multiset (Except Err Record))
    (key : Except Err Record → WithBot κ) (asked : WithBot κ → Except Err Record → Prop)
    [∀ b, DecidablePred (asked b)] (At : State → WithBot κ → Prop)
    (Extra : Paging.Attempt (Except Err Record) (WithBot κ) → Prop) (b : WithBot κ)
    (o : Outcome) : Prop :=
  ∃ sent held, failedPages e config o.executed = [(sent, held)] ∧
    publishedRecords o.messages = ↑sent ∧ ReadsPage M key asked At Extra b o.state sent held

/-- An attempt that executed one statement, which asked for the page at `b`. -/
structure Reads (db : Mysql κ) (e : CatalogEntry) (config : Option BatchConfig)
    (table : List TableRow) (M : Multiset (Except Err Record))
    (key : Except Err Record → WithBot κ) (asked : WithBot κ → Except Err Record → Prop)
    [∀ b, DecidablePred (asked b)] (At : State → WithBot κ → Prop)
    (Extra : Paging.Attempt (Except Err Record) (WithBot κ) → Prop) (b : WithBot κ)
    (o : Outcome) : Prop where
  executed : o.executed ≠ []
  due : dueRecords db e config table o = M.filter (asked b)
  returns : o.error = none → failedPages e config o.executed = [] ∧
    publishedRecords o.messages = M.filter (asked b)
  raises : ∀ err, o.error = some err → retryable config err = true →
    CutOff e config M key asked At Extra b o
  states : ∀ pre v post, o.messages = pre ++ .state v :: post →
    ReadsPage M key asked At Extra b v ((published pre).map Except.ok) []

omit [LinearOrder κ] in
theorem ReadsPage.mono {At' : State → WithBot κ → Prop} (hat : ∀ st b, At st b → At' st b)
    {b : WithBot κ} {st' : State} {sent held : List (Except Err Record)}
    (h : ReadsPage M key asked At Extra b st' sent held) :
    ReadsPage M key asked At' Extra b st' sent held :=
  ⟨hat _ _ h.next, h.extra, h.rest⟩

theorem Reads.mono {At' : State → WithBot κ → Prop} (hat : ∀ st b, At st b → At' st b)
    {b : WithBot κ} {o : Outcome} (h : Reads db e config table M key asked At Extra b o) :
    Reads db e config table M key asked At' Extra b o where
  executed := h.executed
  due := h.due
  returns := h.returns
  raises := by
    intro err herr hretry
    obtain ⟨sent, held, hpages, hpub, hpage⟩ := h.raises err herr hretry
    exact ⟨sent, held, hpages, hpub, hpage.mono hat⟩
  states := fun pre v post hmsgs => (h.states pre v post hmsgs).mono hat

/-- An attempt that failed before it had executed a statement. -/
structure Fails (config : Option BatchConfig) (At : State → WithBot κ → Prop) (b : WithBot κ)
    (o : Outcome) : Prop where
  messages : o.messages = []
  executed : o.executed = []
  error : ∃ err, o.error = some err ∧ (retryable config err = true → At o.state b)

/-- Each attempt reads from the place that its state names. -/
def PageReader (db : Mysql κ) (e : CatalogEntry) (config : Option BatchConfig)
    (table : List TableRow) (body : Nat → State → Outcome) (M : Multiset (Except Err Record))
    (key : Except Err Record → WithBot κ) (asked : WithBot κ → Except Err Record → Prop)
    [∀ b, DecidablePred (asked b)] (At : State → WithBot κ → Prop)
    (Extra : Paging.Attempt (Except Err Record) (WithBot κ) → Prop) : Prop :=
  ∀ n st b, At st b → Fails config At b (body n st) ∨
    Reads db e config table M key asked At Extra b (body n st)

/-- Each attempt reads from the place that its state names, in a table of its own. -/
def SweepReader (db : Mysql κ) (e : CatalogEntry) (config : Option BatchConfig)
    (body : Nat → State → Outcome) (P : Multiset (Except Err Record) → Prop)
    (key : Except Err Record → WithBot κ) (asked : WithBot κ → Except Err Record → Prop)
    [∀ b, DecidablePred (asked b)] (At : State → WithBot κ → Prop)
    (Extra : Paging.Attempt (Except Err Record) (WithBot κ) → Prop) : Prop :=
  ∀ n st b, At st b → Fails config At b (body n st) ∨
    ∃ table M, P M ∧ Reads db e config table M key asked At Extra b (body n st)

theorem PageReader.sweeps (h : PageReader db e config table body M key asked At Extra) :
    SweepReader db e config body (· = M) key asked At Extra :=
  fun n st b hat => (h n st b hat).imp_right fun hread => ⟨table, M, rfl, hread⟩

variable {P : Multiset (Except Err Record) → Prop}

theorem not_stateAt {os : List Outcome} {before : List Message}
    {pages : List (List (Except Err Record) × List (Except Err Record))} {v : State}
    (hos : ∀ o ∈ os, o.messages = []) : ¬StateAt e config os before pages v := by
  intro h
  induction h with
  | here hmsgs => simp [hos _ List.mem_cons_self] at hmsgs
  | later _ ih => exact ih fun o ho => hos o (List.mem_cons_of_mem _ ho)

theorem StateAt.held {os : List Outcome} {before : List Message}
    {pages : List (List (Except Err Record) × List (Except Err Record))} {v : State}
    (h : StateAt e config os before pages v)
    (hheld : ∀ o ∈ os, ∀ x ∈ o.executed, heldBack config x.2.chunks = []) :
    ∀ p ∈ pages, p.2 = [] := by
  induction h with
  | here => simp
  | @later o os before pages v _ ih =>
    intro p hp
    rcases List.mem_append.mp hp with hp | hp
    · simp only [failedPages, List.mem_map, List.mem_filter] at hp
      obtain ⟨x, ⟨hx, -⟩, rfl⟩ := hp
      simp [hheld o List.mem_cons_self x hx]
    · exact ih (fun o ho => hheld o (List.mem_cons_of_mem _ ho)) p hp

theorem failedPages_append (a b : List (SelectSql × Fetch)) :
    failedPages e config (a ++ b) = failedPages e config a ++ failedPages e config b := by
  simp [failedPages]

theorem failedPages_held (executed : List (SelectSql × Fetch)) :
    (∀ p ∈ failedPages e config executed, p.2 = []) ↔
      ∀ x ∈ executed, x.2.error.isSome → heldBack config x.2.chunks = [] := by
  simp only [failedPages, List.forall_mem_map, List.mem_filter, List.map_eq_nil_iff, and_imp]

theorem publishedRecords_append (a b : List Message) :
    publishedRecords (a ++ b) = publishedRecords a + publishedRecords b := by
  simp [publishedRecords]

theorem publishedRecords_nil : publishedRecords [] = 0 := rfl

/-- A failed attempt that is retried was cut off in its fetch, or has done nothing. -/
theorem SweepReader.raises (hreader : SweepReader db e config body P key asked At Extra)
    {n : Nat} {st : State} {b : WithBot κ} (hat : At st b) {err : Err}
    (herr : (body n st).error = some err) (hretry : retryable config err = true) :
    ((body n st).messages = [] ∧ (body n st).executed = [] ∧ At (body n st).state b) ∨
      ∃ M, P M ∧ CutOff e config M key asked At Extra b (body n st) := by
  rcases hreader n st b hat with hfail | ⟨table, M, hM, hread⟩
  · obtain ⟨err', herr', hat'⟩ := hfail.error
    rw [herr, Option.some.injEq] at herr'
    exact Or.inl ⟨hfail.messages, hfail.executed, hat' (herr' ▸ hretry)⟩
  · exact Or.inr ⟨M, hM, hread.raises err herr hretry⟩

/-- A loop of page reads that returns is a sweep over the pages of its failed attempts, and
publishes what they passed on and everything still asked for of the last collection. -/
theorem sweep_of_tried (hreader : SweepReader db e config body P key asked At Extra)
    {n : Nat} {st : State} {b : WithBot κ} {o : Outcome} (h : Tried config body n st o)
    (hat : At st b) :
    o.executed ≠ [] ∧
    (∀ a ∈ Paging.attempts key b (failedPages e config o.executed), Extra a) ∧
    ∃ b' M, P M ∧
      Paging.Sweep asked P b (Paging.attempts key b (failedPages e config o.executed)) b' ∧
      publishedRecords o.messages =
        Paging.published (Paging.attempts key b (failedPages e config o.executed)) +
          M.filter (asked b') := by
  induction h generalizing b with
  | @returned n st hret =>
    rcases hreader n st b hat with hfail | ⟨table, M, hM, hread⟩
    · obtain ⟨err, herr, -⟩ := hfail.error
      simp [hret] at herr
    · obtain ⟨hpages, hpub⟩ := hread.returns hret
      rw [hpages]
      exact ⟨hread.executed, by simp [Paging.attempts], b, M, hM, .start b, by
        simp [hpub, Paging.attempts, Paging.published]⟩
  | @retried n st err o herr hretry _ ih =>
    have hexec : ((body n st).andThen o).executed = (body n st).executed ++ o.executed := rfl
    have hmsgs : ((body n st).andThen o).messages = (body n st).messages ++ o.messages := rfl
    rw [hexec, hmsgs, failedPages_append, publishedRecords_append]
    rcases hreader.raises hat herr hretry with ⟨hmsg, hex, hat'⟩ |
      ⟨M₁, hM₁, sent, held, hpages, hpub, hpage⟩
    · -- the attempt failed before it executed its statement
      rw [hmsg, hex, publishedRecords_nil, zero_add]
      exact ih hat'
    · obtain ⟨hne, hext, b', M, hM, hs, hpubs⟩ := ih hpage.next
      obtain ⟨rest, hfilter, hrest, hle⟩ := hpage.rest
      rw [hpages, List.singleton_append, Paging.attempts, hpub, hpubs]
      exact ⟨List.append_ne_nil_of_right_ne_nil _ hne, List.forall_mem_cons.mpr ⟨hpage.extra, hext⟩,
        b', M, hM, .attempt rest hM₁ hfilter hrest hle hs, by simp [Paging.published, add_assoc]⟩

/-- At a STATE the attempts so far are a sweep over their pages, which published what they
passed on; the STATE names the place where the sweep ends. -/
theorem sweep_of_stateAt (hreader : SweepReader db e config body P key asked At Extra)
    {os : List Outcome} {before : List Message}
    {pages : List (List (Except Err Record) × List (Except Err Record))} {v : State}
    (h : StateAt e config os before pages v) {left n : Nat} {st : State} {b : WithBot κ}
    (hos : attemptOutcomes config body left n st = os) (hat : At st b) :
    (∀ a ∈ Paging.attempts key b pages, Extra a) ∧
    ∃ b', Paging.Sweep asked P b (Paging.attempts key b pages) b' ∧ At v b' ∧
      publishedRecords before = Paging.published (Paging.attempts key b pages) := by
  induction h generalizing left n st b with
  | here hmsgs =>
    obtain ⟨rfl, -⟩ := attemptOutcomes_cons hos
    rcases hreader n st b hat with hfail | ⟨table, M, hM, hread⟩
    · simp [hfail.messages] at hmsgs
    · have hpage := hread.states _ _ _ hmsgs
      obtain ⟨rest, hfilter, hrest, hle⟩ := hpage.rest
      refine ⟨by simpa [Paging.attempts] using hpage.extra, _,
        .attempt rest hM hfilter hrest hle (.start _), hpage.next, ?_⟩
      simp [publishedRecords, Paging.published, Paging.attempts]
  | later hlater ih =>
    obtain ⟨rfl, hrest⟩ := attemptOutcomes_cons hos
    rcases hrest with rfl | ⟨err, left', herr, hretry, hrest⟩
    · cases hlater
    rw [publishedRecords_append]
    rcases hreader.raises hat herr hretry with ⟨hmsg, hex, hat'⟩ |
      ⟨M, hM, sent, held, hpages, hpub, hpage⟩
    · rw [hmsg, hex, publishedRecords_nil, zero_add]
      exact ih hrest.symm hat'
    · obtain ⟨hext, b', hs, hat', hpubs⟩ := ih hrest.symm hpage.next
      obtain ⟨rest, hfilter, hrest, hle⟩ := hpage.rest
      rw [hpages, List.singleton_append, Paging.attempts, hpub, hpubs]
      exact ⟨List.forall_mem_cons.mpr ⟨hpage.extra, hext⟩, b',
        .attempt rest hM hfilter hrest hle hs, hat', by simp [Paging.published]⟩

/-- Over a table that does not change the sweep is a session. -/
theorem session_of_tried (hreader : PageReader db e config table body M key asked At Extra)
    {n : Nat} {st : State} {b : WithBot κ} {o : Outcome} (h : Tried config body n st o)
    (hat : At st b) :
    o.executed ≠ [] ∧
    (∀ a ∈ Paging.attempts key b (failedPages e config o.executed), Extra a) ∧
    ∃ b', Paging.Session asked M b (Paging.attempts key b (failedPages e config o.executed)) b' ∧
      publishedRecords o.messages =
        Paging.published (Paging.attempts key b (failedPages e config o.executed)) +
          M.filter (asked b') := by
  obtain ⟨hne, hext, b', _, rfl, hs, hpub⟩ := sweep_of_tried hreader.sweeps h hat
  exact ⟨hne, hext, b', hs.session, hpub⟩

theorem session_of_stateAt (hreader : PageReader db e config table body M key asked At Extra)
    {os : List Outcome} {before : List Message}
    {pages : List (List (Except Err Record) × List (Except Err Record))} {v : State}
    (h : StateAt e config os before pages v) {left n : Nat} {st : State} {b : WithBot κ}
    (hos : attemptOutcomes config body left n st = os) (hat : At st b) :
    (∀ a ∈ Paging.attempts key b pages, Extra a) ∧
    ∃ b', Paging.Session asked M b (Paging.attempts key b pages) b' ∧ At v b' ∧
      publishedRecords before = Paging.published (Paging.attempts key b pages) := by
  obtain ⟨hext, b', hs, hat', hpub⟩ := sweep_of_stateAt hreader.sweeps h hos hat
  exact ⟨hext, b', hs.session, hat', hpub⟩

theorem dueRecords_append {o : Outcome} {executed : List (SelectSql × Fetch)}
    (h : o.executed ≠ []) (messages : List Message) (st : State) (error : Option Err) :
    dueRecords db e config table ⟨messages, st, error, o.executed ++ executed⟩ =
      dueRecords db e config table o := by
  rw [dueRecords, dueRecords]
  cases hex : o.executed with
  | nil => exact absurd hex h
  | cons x xs => rfl

theorem due_of_executed (hreader : PageReader db e config table body M key asked At Extra)
    {left n : Nat} {st : State} {b : WithBot κ} (hat : At st b)
    (h : (attempts config body left n st).executed ≠ []) :
    dueRecords db e config table (attempts config body left n st) = M.filter (asked b) := by
  induction left generalizing n st with
  | zero => simp [attempts] at h
  | succ left ih =>
    rw [attempts] at h ⊢
    rcases hreader n st b hat with hfail | hread
    · -- the attempt failed before it executed its statement
      obtain ⟨err, herr, hat'⟩ := hfail.error
      simp only [herr] at h ⊢
      split_ifs at h ⊢ with hretry
      · simp only [Bool.and_eq_true] at hretry
        have hexec : ((body n st).andThen (attempts config body left (n + 1)
            (body n st).state)).executed =
            (attempts config body left (n + 1) (body n st).state).executed := by
          simp [Outcome.andThen, hfail.executed]
        rw [hexec] at h
        rw [dueRecords, hexec]
        exact ih (hat' hretry.1) h
      · exact absurd hfail.executed h
    · cases he : (body n st).error with
      | none => exact hread.due
      | some err =>
        simp only
        split_ifs with hretry
        · rw [← hread.due]
          exact dueRecords_append hread.executed _ _ _
        · exact hread.due

/-! ### One statement as one page -/

variable {k : String} {sql : SelectSql} {f : Fetch}

theorem ordered_single {r s : TableRow} (h : db.ordered [k] r s) :
    db.place (r.cell k) ≤ db.place (s.cell k) :=
  h.elim le_of_lt fun h => h.1.le

theorem delivers_records (config : Option BatchConfig) (hd : db.Delivers table sql f)
    (hcols : selectColumns e.schema e.schema.keys = .ok sql.columns) :
    ∃ got rest, db.Answer table sql (got ++ rest) ∧
      f.rows.map (rowRecord e e.schema.keys config f.names) =
        got.map (tableRecord db e config sql.columns) ∧
      (f.error = none → rest = []) := by
  obtain ⟨got, rest, hanswer, hrows, hend⟩ := hd.rows
  refine ⟨got, rest, hanswer, ?_, hend⟩
  rw [hrows, hd.names, selectColumns_names hcols, List.map_map]
  rfl

theorem delivers_sorted (config : Option BatchConfig) (hd : db.Delivers table sql f)
    (hcols : selectColumns e.schema e.schema.keys = .ok sql.columns) (horder : sql.orderBy = [k]) :
    ∃ got rest, (got ++ rest).Perm (db.matching sql table) ∧
      (got ++ rest).Pairwise (fun r s => db.place (r.cell k) ≤ db.place (s.cell k)) ∧
      f.rows.map (rowRecord e e.schema.keys config f.names) =
        got.map (tableRecord db e config sql.columns) ∧
      (f.error = none → rest = []) := by
  obtain ⟨got, rest, hanswer, hrecords, hend⟩ := delivers_records config hd hcols
  have hsorted := hanswer.sorted
  rw [horder] at hsorted
  exact ⟨got, rest, hanswer.perm, hsorted.imp ordered_single, hrecords, hend⟩

section RunSelect

variable {args : SyncArgs} {a : Attempt} {st : State}

theorem runSelect_returns (hconfig : args.config = config)
    (hargs : args.columns = e.schema.keys) (h : (runSelect e args a st sql).error = none) :
    (a.select sql).error = none ∧
      (published (runSelect e args a st sql).messages).map Except.ok =
        (a.select sql).rows.map (rowRecord e e.schema.keys config (a.select sql).names) ∧
      BookmarkOf e e.schema.keys config (a.select sql).names st (a.select sql).rows
        (runSelect e args a st sql).state := by
  rw [← hconfig, ← hargs]
  exact syncQuery_returns h

theorem runSelect_raises (hconfig : args.config = config) (hargs : args.columns = e.schema.keys)
    {err : Err} (h : (runSelect e args a st sql).error = some err)
    (herr : err.isOperational = true) :
    (a.select sql).error = some err ∧
      (published (runSelect e args a st sql).messages).map Except.ok =
        (announcedRows config (a.select sql).chunks).map
          (rowRecord e e.schema.keys config (a.select sql).names) ∧
      BookmarkOf e e.schema.keys config (a.select sql).names st (a.select sql).rows
        (runSelect e args a st sql).state := by
  rw [← hconfig, ← hargs]
  exact syncQuery_raises h herr

theorem runSelect_state (hconfig : args.config = config) (hargs : args.columns = e.schema.keys)
    {pre post : List Message} {v : State}
    (h : (runSelect e args a st sql).messages = pre ++ .state v :: post) :
    ∃ rows rest, (a.select sql).rows = rows ++ rest ∧
      (published pre).map Except.ok =
        rows.map (rowRecord e e.schema.keys config (a.select sql).names) ∧
      BookmarkOf e e.schema.keys config (a.select sql).names st rows v := by
  rw [← hconfig, ← hargs]
  exact syncQuery_state h

end RunSelect

theorem runSelect_reads {args : SyncArgs} {a : Attempt} {st : State} {b : WithBot κ}
    (hconfig : args.config = config) (hargs : args.columns = e.schema.keys)
    (hd : db.Delivers table sql (a.select sql))
    (hcols : selectColumns e.schema e.schema.keys = .ok sql.columns) (horder : sql.orderBy = [k])
    (hpage : M.filter (asked b) = ↑((db.matching sql table).map
      (tableRecord db e config sql.columns)))
    (hsplit : ∀ got rest : List TableRow, (got ++ rest).Perm (db.matching sql table) →
      (got ++ rest).Pairwise (fun r s => db.place (r.cell k) ≤ db.place (s.cell k)) →
      let next := Paging.bookmarkAfter key b (got.map (tableRecord db e config sql.columns))
      (∀ x ∈ rest.map (tableRecord db e config sql.columns), asked next x) ∧
        (∀ x, asked next x → asked b x) ∧
        ∀ sent held : List (Except Err Record),
          sent ++ held = got.map (tableRecord db e config sql.columns) → Extra ⟨sent, held, next⟩)
    (hat : ∀ rows st', (∀ row ∈ rows, row ∈ (a.select sql).rows) →
      BookmarkOf e e.schema.keys config (a.select sql).names st rows st' →
      At st' (Paging.bookmarkAfter key b
        (rows.map (rowRecord e e.schema.keys config (a.select sql).names)))) :
    Reads db e config table M key asked At Extra b (runSelect e args a st sql) := by
  set o := runSelect e args a st sql with hodef
  set record := rowRecord e e.schema.keys config (a.select sql).names with hrecord
  set stored := tableRecord db e config sql.columns with hstored
  obtain ⟨got, rest, hperm, hsorted, hrows, hend⟩ := delivers_sorted config hd hcols horder
  have hall : M.filter (asked b) = ↑(got.map stored) + ↑(rest.map stored) := by
    rw [hpage, Multiset.coe_add, ← List.map_append]
    exact Multiset.coe_eq_coe.mpr (hperm.symm.map _)
  have hpub : ∀ (msgs : List Message) (rows : List Row),
      (published msgs).map Except.ok = rows.map record →
      publishedRecords msgs = ↑(rows.map record) := by
    intro msgs rows h
    rw [publishedRecords, Multiset.map_coe, h]
  -- what is read after some of the rows, whether or not all of them have been published
  have hread : ∀ rows rows' : List Row, (a.select sql).rows = rows ++ rows' → ∀ st',
      BookmarkOf e e.schema.keys config (a.select sql).names st rows st' →
      ∀ sent held, sent ++ held = rows.map record →
      ReadsPage M key asked At Extra b st' sent held := by
    intro rows rows' hsplitRows st' hbookmark sent held hsent
    have htake : rows.map record = (got.take rows.length).map stored := by
      rw [List.map_take, ← hrows, hsplitRows, List.map_append, List.take_left' (by simp)]
    have hgot : got.take rows.length ++ (got.drop rows.length ++ rest) = got ++ rest := by
      rw [← List.append_assoc, List.take_append_drop]
    obtain ⟨hrest, hle, hextra⟩ := hsplit (got.take rows.length) (got.drop rows.length ++ rest)
      (by rw [hgot]; exact hperm) (by rw [hgot]; exact hsorted)
    have hnext := hat rows st' (fun row hrow => by simp [hsplitRows, hrow]) hbookmark
    rw [← htake, ← hsent] at hrest hle hextra
    rw [← hsent] at hnext
    refine ⟨hnext, hextra sent held rfl, ↑((got.drop rows.length ++ rest).map stored), ?_, hrest,
      hle⟩
    rw [hall, hsent, htake, Multiset.coe_add, Multiset.coe_add, ← List.map_append,
      ← List.map_append, hgot]
  refine ⟨List.cons_ne_nil _ _, hpage.symm, fun herr => ?_, fun err herr hretry => ?_,
    fun pre v post hmsgs => ?_⟩
  · obtain ⟨hf, hmsgs, -⟩ := runSelect_returns hconfig hargs herr
    refine ⟨by simp [hodef, runSelect, failedPages, hf], ?_⟩
    rw [hpub _ _ hmsgs, hrows, hall, hend hf, List.map_nil,
      Multiset.coe_nil, add_zero]
  · obtain ⟨hf, hmsgs, hafter⟩ :=
      runSelect_raises hconfig hargs herr (retryable_isOperational hretry)
    refine ⟨_, (heldBack config (a.select sql).chunks).map record, ?_, hpub _ _ hmsgs, ?_⟩
    · simp [hodef, runSelect, failedPages, hf, hrecord]
    · refine hread (a.select sql).rows [] (by simp) _ hafter _ _ ?_
      rw [← List.map_append, announcedRows_append_heldBack]
      rfl
  · obtain ⟨rows, rows', hsplitRows, hpre, hbookmark⟩ := runSelect_state hconfig hargs hmsgs
    exact hread rows rows' hsplitRows v hbookmark _ _ (by rw [List.append_nil]; exact hpre)

end Pages

end TapMysql
