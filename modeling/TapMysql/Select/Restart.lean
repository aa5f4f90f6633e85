import TapMysql.Select.Retry

/-!
# Restart from a STATE

A process that stops after a STATE is followed by one that starts from exactly that STATE, and so
on. The processes together are one session of page reads, so what they published before the last
STATE and what the next process asks for cover the pass, up to the rows that attempts retried in
the same process had left in their batch writers.
-/

namespace TapMysql

/-- For each attempt, the records it published and those left in its writer. -/
abbrev Pages := List (List (Except Err Record) × List (Except Err Record))

/-- Processes that stop after a STATE, each of which starts from the STATE of the one before. -/
inductive Interrupted (writes : State → List Message → Pages → State → Prop) :
    State → List Message → Pages → State → Prop
  | stopped {st v : State} {before : List Message} {pages : Pages} :
      writes st before pages v → Interrupted writes st before pages v
  | resumed {st v w : State} {before before' : List Message} {pages pages' : Pages} :
      Interrupted writes st before pages v → writes v before' pages' w →
      Interrupted writes st (before ++ before') (pages ++ pages') w

theorem Interrupted.forall_pages {writes : State → List Message → Pages → State → Prop}
    {P : List (Except Err Record) × List (Except Err Record) → Prop}
    (hwrites : ∀ {st before pages v}, writes st before pages v → ∀ p ∈ pages, P p)
    {st v : State} {before : List Message} {pages : Pages}
    (h : Interrupted writes st before pages v) : ∀ p ∈ pages, P p := by
  induction h with
  | stopped hw => exact hwrites hw
  | resumed _ hw ih => exact List.forall_mem_append.mpr ⟨ih, hwrites hw⟩

/-! ### Where a STATE stands -/

theorem state_after {ms ms' before after : List Message} {v : State}
    (hno : ∀ w, Message.state w ∉ ms) (h : ms ++ ms' = before ++ .state v :: after) :
    ∃ before', before = ms ++ before' ∧ ms' = before' ++ .state v :: after := by
  rcases List.append_eq_append_iff.mp h with ⟨rest, rfl, hrest⟩ | ⟨rest, rfl, hrest⟩
  · exact ⟨rest, rfl, hrest⟩
  · cases rest with
    | nil => exact ⟨[], by simp, hrest.symm⟩
    | cons m rest =>
      rw [List.cons_append, List.cons.injEq] at hrest
      exact absurd (by rw [hrest.1]; simp) (hno v)

theorem state_before {ms ms' before after : List Message} {v : State}
    (hno : ∀ w, Message.state w ∉ ms') (h : ms ++ ms' = before ++ .state v :: after) :
    ∃ after', ms = before ++ .state v :: after' := by
  rcases List.append_eq_append_iff.mp h with ⟨rest, rfl, hrest⟩ | ⟨rest, rfl, hrest⟩
  · exact absurd (by simp [hrest]) (hno v)
  · cases rest with
    | nil =>
      rw [List.nil_append] at hrest
      exact absurd (hrest ▸ List.mem_cons_self) (hno v)
    | cons m rest =>
      rw [List.cons_append, List.cons.injEq] at hrest
      exact ⟨rest, by rw [hrest.1]⟩

variable {κ : Type*} [LinearOrder κ] {db : Mysql κ} {e : CatalogEntry} {k : String}
  {table : List TableRow} {config : Option BatchConfig} {args : SyncArgs} {st v : State}
  {server : Nat → Attempt} {before : List Message} {pages : Pages}

/-! ### FULL_TABLE and LOG_BASED snapshots -/

namespace FullTable

variable {autoIncrement : String → Bool}

/-- A sync that starts from `st` writes the STATE `v` after `before`. -/
inductive Writes (db : Mysql κ) (e : CatalogEntry) (autoIncrement : String → Bool)
    (config : Option BatchConfig) (table : List TableRow) (st : State) (before : List Message)
    (pages : Pages) (v : State) : Prop
  | sync (server : Nat → Attempt) (args : SyncArgs) (after : List Message) :
      (∀ n, Answers db e table (server n)) → args.columns = e.schema.keys →
      args.config = config →
      (syncTable e autoIncrement server args st).messages = firstActivation e args
          (whitelistBookmarkKeys (generateBookmarkKeys e) e.tapStreamId st) ++
        before ++ .state v :: after →
      StateAt e config (retryOutcomes e autoIncrement server args st) before pages v →
      Writes db e autoIncrement config table st before pages v

/-- A new process that starts from `v` runs a query, for these records. -/
inductive Asks (db : Mysql κ) (e : CatalogEntry) (autoIncrement : String → Bool)
    (config : Option BatchConfig) (table : List TableRow) (v : State)
    (due : Multiset (Except Err Record)) : Prop
  | sync (server : Nat → Attempt) (args : SyncArgs) :
      (∀ n, Answers db e table (server n)) → args.columns = e.schema.keys →
      args.config = config → (syncTable e autoIncrement server args v).executed ≠ [] →
      dueRecords db e config table (syncTable e autoIncrement server args v) = due →
      Asks db e autoIncrement config table v due

theorem firstActivation_no_state : ∀ w, Message.state w ∉ firstActivation e args st := by
  intro w
  rw [firstActivation]
  split_ifs <;> simp [activateVersion]

/-- All STATE messages of a sync are written in its retry loop. -/
theorem state_mem_loop (hv : .state v ∈ (syncTable e autoIncrement server args st).messages) :
    .state v ∈ (loop e autoIncrement server args st).messages := by
  obtain ⟨-, -, closing, hclosing, hmsgs⟩ := syncTable_loop e autoIncrement server args st
  rw [hmsgs] at hv
  rcases List.mem_append.mp hv with hv | hv
  · exact (List.mem_append.mp hv).resolve_left (firstActivation_no_state v)
  · rcases hclosing with rfl | rfl <;> simp [activateVersion] at hv

theorem exists_writes (hserver : ∀ n, Answers db e table (server n))
    (hargs : args.columns = e.schema.keys) {after : List Message}
    (h : (syncTable e autoIncrement server args st).messages = before ++ .state v :: after) :
    ∃ before' pages, publishedRecords before = publishedRecords before' ∧
      Writes db e autoIncrement args.config table st before' pages v := by
  obtain ⟨-, -, closing, hclosing, hmsgs⟩ := syncTable_loop e autoIncrement server args st
  rw [h, List.append_assoc] at hmsgs
  obtain ⟨before', rfl, hrest⟩ := state_after firstActivation_no_state hmsgs.symm
  have hno : ∀ w, Message.state w ∉ closing := by
    rcases hclosing with rfl | rfl <;> simp [activateVersion]
  obtain ⟨after', hloop⟩ := state_before hno hrest
  rw [loop, retryLoop, (attempts_outcomes _ _ _).1] at hloop
  obtain ⟨pages, hstate⟩ := exists_stateAt e args.config hloop
  refine ⟨before', pages, ?_, .sync server args after hserver hargs rfl h hstate⟩
  rw [publishedRecords_append, publishedRecords_firstActivation, zero_add]

/-- The rows with a key above the floor and up to the maximum of the pass. -/
def windowRecords (db : Mysql κ) (e : CatalogEntry) (k : String) (table : List TableRow)
    (config : Option BatchConfig) (cs : List SelectColumn) (floor : WithBot κ) (top : κ) :
    Multiset (Except Err Record) :=
  ↑((table.filter fun r => decide (floor < db.place (r.cell k) ∧
    db.place (r.cell k) ≤ ↑top)).map (tableRecord db e config cs))

theorem passRecords_filter (hk : IntegerKeyed e k table) {cs : List SelectColumn}
    (hcs : selectColumns e.schema e.schema.keys = .ok cs) (top : κ) (b : WithBot κ) :
    (passRecords db e k table config cs top).filter (b < recordPlace db k ·) =
      windowRecords db e k table config cs b top := by
  rw [passRecords, windowRecords, Multiset.filter_coe, List.filter_map, rowsUpTo,
    List.filter_filter]
  congr 2
  refine List.filter_congr fun r hr => ?_
  rw [Bool.eq_iff_iff]
  simp only [Function.comp_apply, recordPlace_tableRecord db hk hcs config hr, Bool.and_eq_true,
    decide_eq_true_eq]
  exact ⟨fun h => ⟨h.1, h.2.2⟩, fun h => ⟨h.1, bot_lt_of_lt h.1, h.2⟩⟩

theorem pkValue_truthy {values max : Val} (h : pkValue values k = .ok max) :
    values.truthy = true := by
  unfold pkValue at h
  split at h
  · rename_i items
    cases items with
    | nil => simp [Dict.assocGet] at h
    | cons item items => rfl
  · cases h

theorem Writes.held_of_empty (h : Writes db e autoIncrement config [] st before pages v) :
    ∀ p ∈ pages, p.2 = [] := by
  obtain ⟨server, args, after, hserver, -, rfl, -, hstate⟩ := h
  refine hstate.held fun o ho x hx => ?_
  obtain ⟨n, hn⟩ := attemptOutcomes_executed (P := fun x => ∃ n, x.2 = (server n).select x.1)
    (fun n st x hx => ⟨n, attempt_executed (server n) _ x hx⟩) o ho x hx
  exact heldBack_of_empty (hn ▸ (hserver n).select x.1) args.config

theorem interrupted_session (hk : IntegerKeyed e k table) (hne : table ≠ [])
    (hauto : autoIncrement k = true) {cs : List SelectColumn}
    (hcs : selectColumns e.schema e.schema.keys = .ok cs)
    (h : Interrupted (Writes db e autoIncrement config table) st before pages v) :
    ∃ top b', At db e k table top v b' ∧
      (∀ a ∈ Paging.attempts (recordPlace db k) (pkFloor db e k st) pages,
        ∀ x ∈ a.received, ¬a.bookmark < recordPlace db k x) ∧
      Paging.Session (fun b x => b < recordPlace db k x)
        (passRecords db e k table config cs top) (pkFloor db e k st)
        (Paging.attempts (recordPlace db k) (pkFloor db e k st) pages) b' ∧
      publishedRecords before =
        Paging.published (Paging.attempts (recordPlace db k) (pkFloor db e k st) pages) := by
  induction h with
  | @stopped v before pages hw =>
    obtain ⟨server, args, after, hserver, hargs, rfl, -, hstate⟩ := hw
    have hmem := hstate
    rw [retryOutcomes_eq hk.keys hauto] at hstate
    rcases loop_starts db hk hne hargs hauto hserver st with ⟨-, -, hmsgs⟩ |
      ⟨cs', top, hcs', hat, hreader⟩
    · rw [loop, retryLoop, (attempts_outcomes _ _ _).1, List.flatMap_eq_nil_iff] at hmsgs
      exact absurd hmem (not_stateAt hmsgs)
    · rw [hcs, Except.ok.injEq] at hcs'
      subst hcs'
      obtain ⟨hextra, b', hsession, hat', hpub⟩ := session_of_stateAt hreader hstate rfl hat
      exact ⟨top, b', hat', hextra, hsession, hpub⟩
  | @resumed v w before before' pages pages' _ hw ih =>
    obtain ⟨top, b, hat, hextra, hsession, hpub⟩ := ih
    obtain ⟨server, args, after, hserver, hargs, rfl, -, hstate⟩ := hw
    rw [retryOutcomes_eq hk.keys hauto] at hstate
    obtain ⟨hextra', b', hsession', hat', hpub'⟩ :=
      session_of_stateAt (pageReader hk hargs hcs hserver) hstate rfl hat.whitelist
    refine ⟨top, b', hat', ?_, hsession.append_pages hsession', ?_⟩
    · rw [Paging.attempts_append, ← hsession.bookmark_eq]
      exact List.forall_mem_append.mpr ⟨hextra, hextra'⟩
    · rw [publishedRecords_append, hpub, hpub', Paging.attempts_append, ← hsession.bookmark_eq,
        Paging.published, Paging.published, Paging.published, List.map_append, List.sum_append]

/-- After any number of interruptions, what was published and what the next process asks for
cover the pass exactly when no attempt before left a row in its writer; and the next process asks
for nothing that was published. -/
theorem resumed_covers_iff (hk : IntegerKeyed e k table) (hauto : autoIncrement k = true)
    {cs : List SelectColumn} (hcs : selectColumns e.schema e.schema.keys = .ok cs)
    (h : Interrupted (Writes db e autoIncrement config table) st before pages v) {max : Val}
    (hmax : pkValue (v.getBookmark e.tapStreamId "max_pk_values") k = .ok max)
    {due : Multiset (Except Err Record)} (hasks : Asks db e autoIncrement config table v due) :
    (windowRecords db e k table config cs (pkFloor db e k st) (db.bound max) ≤
        publishedRecords before + due ↔ ∀ p ∈ pages, p.2 = []) ∧
    Disjoint (publishedRecords before) due := by
  obtain ⟨server, args, hserver, hargs, hconfig, hex, rfl⟩ := hasks
  rcases eq_or_ne table [] with rfl | hne
  · rw [dueRecords_of_empty]
    exact ⟨iff_of_true (Multiset.zero_le _) (Interrupted.forall_pages Writes.held_of_empty h),
      Multiset.disjoint_left.mpr (by simp)⟩
  · obtain ⟨top, b, hat, hextra, hsession, hpub⟩ := interrupted_session hk hne hauto hcs h
    have htop : db.bound max = top := by
      rcases hat.top with ⟨-, max', hmax', hbound⟩ | ⟨hfalse, -⟩
      · rw [hmax, Except.ok.injEq] at hmax'
        rw [hmax', hbound]
      · rw [pkValue_truthy hmax] at hfalse
        cases hfalse
    have hdue : dueRecords db e config table (syncTable e autoIncrement server args v) =
        (passRecords db e k table config cs top).filter (b < recordPlace db k ·) := by
      obtain ⟨-, hexec, -⟩ := syncTable_loop e autoIncrement server args v
      rw [hexec, loop_eq hk.keys hauto] at hex
      rw [dueRecords, hexec, ← dueRecords, loop_eq hk.keys hauto, ← hconfig]
      exact due_of_executed (pageReader hk hargs hcs hserver) hat.whitelist hex
    rw [htop, ← passRecords_filter hk hcs, hpub, hdue]
    constructor
    · have hcovers := hsession.covers_iff 0
      rw [zero_add] at hcovers
      rw [hcovers, hsession.recovered_iff hextra (by simp), Paging.attempts_held_eq_zero]
    · refine Multiset.disjoint_left.mpr fun {x} hx hx' => ?_
      obtain ⟨a, ha, hx⟩ := Paging.mem_published.mp hx
      exact hsession.not_asked_of_received hextra a ha x
        (Multiset.mem_add.mpr (Or.inl hx)) (Multiset.mem_filter.mp hx').2

/-- Without an auto-incrementing key every process asks for the whole table. -/
theorem resumed_whole_table (hauto : pksAreAutoIncrementing autoIncrement e = false)
    {cs : List SelectColumn} (hcs : selectColumns e.schema e.schema.keys = .ok cs)
    {due : Multiset (Except Err Record)} (hasks : Asks db e autoIncrement config table v due) :
    due = ↑(table.map (tableRecord db e config cs)) := by
  obtain ⟨server, args, -, hargs, -, hex, rfl⟩ := hasks
  obtain ⟨-, hexec, -⟩ := syncTable_loop e autoIncrement server args v
  have hsql : ∀ x ∈ (syncTable e autoIncrement server args v).executed,
      generateSelectSql e args.columns = .ok x.1 := by
    rw [hexec, loop, retryLoop, (attempts_outcomes _ _ _).2]
    intro x hx
    obtain ⟨o, ho, hx⟩ := List.mem_flatMap.mp hx
    refine attemptOutcomes_executed (P := fun x => generateSelectSql e args.columns = .ok x.1)
      (fun n st x hx => ?_) o ho x hx
    rw [attempt, hauto] at hx
    split at hx
    · simp [Outcome.failed] at hx
    · rename_i sql hsql
      rw [List.mem_singleton.mp hx]
      exact hsql
  rw [dueRecords]
  cases hx : (syncTable e autoIncrement server args v).executed with
  | nil => exact absurd hx hex
  | cons x xs =>
    have hmem : x ∈ (syncTable e autoIncrement server args v).executed := by simp [hx]
    obtain ⟨hcols, hconds, -⟩ := generateSelectSql_eq (hsql x hmem)
    rw [hargs, hcs, Except.ok.injEq] at hcols
    simp only [hcols, Mysql.matching]
    rw [List.filter_eq_self.mpr fun r _ => by simp [Mysql.selects, hconds]]

end FullTable

/-! ### INCREMENTAL syncs -/

namespace Incremental

/-- A sync that starts from `st` writes the STATE `v` after `before`. -/
inductive Writes (db : Mysql κ) (e : CatalogEntry) (config : Option BatchConfig)
    (table : List TableRow) (st : State) (before : List Message) (pages : Pages) (v : State) : Prop
  | sync (server : Nat → Attempt) (args : SyncArgs) (now : Int) (after : List Message) :
      (∀ n, Answers db e table (server n)) → args.columns = e.schema.keys →
      args.config = config →
      (syncTable e server args now st).messages =
        .activateVersion e.stream (versionedArgs e args now st).streamVersion ::
          (before ++ .state v :: after) →
      StateAt e config (retryOutcomes e server args now st) before pages v →
      Writes db e config table st before pages v

/-- A new process that starts from `v` runs a query, for these records. -/
inductive Asks (db : Mysql κ) (e : CatalogEntry) (config : Option BatchConfig)
    (table : List TableRow) (v : State) (due : Multiset (Except Err Record)) : Prop
  | sync (server : Nat → Attempt) (args : SyncArgs) (now : Int) :
      (∀ n, Answers db e table (server n)) → args.columns = e.schema.keys →
      args.config = config → (syncTable e server args now v).executed ≠ [] →
      dueRecords db e config table (syncTable e server args now v) = due →
      Asks db e config table v due

theorem exists_writes (hserver : ∀ n, Answers db e table (server n))
    (hargs : args.columns = e.schema.keys) {now : Int} {after : List Message}
    (h : (syncTable e server args now st).messages = before ++ .state v :: after) :
    ∃ before' pages, publishedRecords before = publishedRecords before' ∧
      Writes db e args.config table st before' pages v := by
  have hmsgs : (syncTable e server args now st).messages =
      [.activateVersion e.stream (versionedArgs e args now st).streamVersion] ++
        (retryOutcomes e server args now st).flatMap Outcome.messages := by
    rw [retryOutcomes, ← (attempts_outcomes _ _ _).1]
    rfl
  have hsplit := h
  rw [hmsgs] at hsplit
  obtain ⟨before', rfl, hloop⟩ := state_after (by simp) hsplit
  obtain ⟨pages, hstate⟩ := exists_stateAt e args.config hloop
  refine ⟨before', pages, ?_, .sync server args now after hserver hargs rfl h hstate⟩
  simp [publishedRecords, published, Message.rows]

/-- The rows with a key from the floor on. -/
def keyedRecords (db : Mysql κ) (e : CatalogEntry) (k : String) (table : List TableRow)
    (config : Option BatchConfig) (cs : List SelectColumn) (floor : WithBot κ) :
    Multiset (Except Err Record) :=
  ↑((table.filter fun r => decide (floor ≤ db.place (r.cell k))).map
    (tableRecord db e config cs))

theorem table_filter (hk : ReplicationKeyed db e k config table) {cs : List SelectColumn}
    (hcs : selectColumns e.schema e.schema.keys = .ok cs) (b : WithBot κ) :
    (↑(table.map (tableRecord db e config cs)) : Multiset (Except Err Record)).filter
        (b ≤ recordPlace db e k ·) = keyedRecords db e k table config cs b := by
  rw [keyedRecords, Multiset.filter_coe, List.filter_map]
  congr 2
  refine List.filter_congr fun r hr => ?_
  have hplace : recordPlace db e k (tableRecord db e config cs r) = db.place (r.cell k) :=
    hk.readBack _ hcs r hr
  simp only [Function.comp_apply, hplace]

theorem interrupted_session (hk : ReplicationKeyed db e k config table)
    {cs : List SelectColumn} (hcs : selectColumns e.schema e.schema.keys = .ok cs)
    (h : Interrupted (Writes db e config table) st before pages v) :
    ∃ b', At db e k v b' ∧
      Paging.Session (fun b x => b ≤ recordPlace db e k x)
        ↑(table.map (tableRecord db e config cs)) (startFloor db e k st)
        (Paging.attempts (recordPlace db e k) (startFloor db e k st) pages) b' ∧
      publishedRecords before =
        Paging.published (Paging.attempts (recordPlace db e k) (startFloor db e k st) pages) := by
  have hstep : ∀ {st v before pages}, Writes db e config table st before pages v →
      ∃ b', At db e k v b' ∧
        Paging.Session (fun b x => b ≤ recordPlace db e k x)
          ↑(table.map (tableRecord db e config cs)) (startFloor db e k st)
          (Paging.attempts (recordPlace db e k) (startFloor db e k st) pages) b' ∧
        publishedRecords before =
          Paging.published
            (Paging.attempts (recordPlace db e k) (startFloor db e k st) pages) := by
    intro st v before pages h
    obtain ⟨server, args, now, after, hserver, hargs, rfl, -, hstate⟩ := h
    rw [(syncTable_loop _ _ _ _ hk.key).2] at hstate
    have hk' : ReplicationKeyed db e k (versionedArgs e args now st).config table := hk
    have hargs' : (versionedArgs e args now st).columns = e.schema.keys := hargs
    obtain ⟨-, b', hsession, hat, hpub⟩ :=
      session_of_stateAt (pageReader hk' hargs' hcs hserver) hstate rfl
        (versioned_at db st now hk.key).1
    exact ⟨b', hat, hsession, hpub⟩
  induction h with
  | stopped hw => exact hstep hw
  | resumed _ hw ih =>
    obtain ⟨b, hat, hsession, hpub⟩ := ih
    obtain ⟨b', hat', hsession', hpub'⟩ := hstep hw
    rw [hat.startFloor hk.key] at hsession' hpub'
    refine ⟨b', hat', hsession.append_pages hsession', ?_⟩
    rw [publishedRecords_append, hpub, hpub', Paging.attempts_append, ← hsession.bookmark_eq,
      Paging.published, Paging.published, Paging.published, List.map_append, List.sum_append]

/-- After any number of interruptions, what was published and what the next process asks for
cover the rows from the first bookmark on exactly when every row that an attempt left in its
writer was asked for again or published before. -/
theorem resumed_covers_iff (hk : ReplicationKeyed db e k config table)
    {cs : List SelectColumn} (hcs : selectColumns e.schema e.schema.keys = .ok cs)
    (h : Interrupted (Writes db e config table) st before pages v)
    {due : Multiset (Except Err Record)} (hasks : Asks db e config table v due) :
    keyedRecords db e k table config cs (startFloor db e k st) ≤ publishedRecords before + due ↔
      Paging.Recovered (fun b x => b ≤ recordPlace db e k x) 0
        (Paging.attempts (recordPlace db e k) (startFloor db e k st) pages) := by
  obtain ⟨server, args, now, hserver, hargs, rfl, hex, rfl⟩ := hasks
  obtain ⟨b, hat, hsession, hpub⟩ := interrupted_session hk hcs h
  have hdue : dueRecords db e args.config table (syncTable e server args now v) =
      Multiset.filter (b ≤ recordPlace db e k ·)
        ↑(table.map (tableRecord db e args.config cs)) := by
    have hk' : ReplicationKeyed db e k (versionedArgs e args now v).config table := hk
    have hargs' : (versionedArgs e args now v).columns = e.schema.keys := hargs
    have hstart := (versioned_at db v now hk.key).1
    rw [hat.startFloor hk.key] at hstart
    rw [(syncTable_loop _ _ _ _ hk.key).1] at hex ⊢
    exact due_of_executed (pageReader hk' hargs' hcs hserver) hstart hex
  have hcovers := hsession.covers_iff 0
  rw [zero_add] at hcovers
  rw [← table_filter hk hcs, hpub, hdue, hcovers]

end Incremental

/-! ### Both strategies -/

/-- For every table, output mode and batch size, and every chain of processes that stop after a
STATE and are resumed from it. FULL_TABLE: over an auto-incrementing integer key what was
published and what the next process asks for cover the pass exactly when no attempt retried in
its own process had left a row in its writer, and the next process asks for nothing that was
published; without such a key it asks for the whole table. INCREMENTAL over an integer key: they
cover the rows from the first bookmark on exactly when every row left in a writer is asked for
again or was published before. -/
theorem restart_covers_iff (db : Mysql κ) (table : List TableRow) (e : CatalogEntry) (k : String)
    (config : Option BatchConfig) (cs : List SelectColumn)
    (hcs : selectColumns e.schema e.schema.keys = .ok cs) :
    (∀ (autoIncrement : String → Bool) (st v : State) (before : List Message) (pages : Pages)
        (max : Val) (due : Multiset (Except Err Record)),
      IntegerKeyed e k table → autoIncrement k = true →
      Interrupted (FullTable.Writes db e autoIncrement config table) st before pages v →
      FullTable.pkValue (v.getBookmark e.tapStreamId "max_pk_values") k = .ok max →
      FullTable.Asks db e autoIncrement config table v due →
      (FullTable.windowRecords db e k table config cs (FullTable.pkFloor db e k st)
          (db.bound max) ≤ publishedRecords before + due ↔ ∀ p ∈ pages, p.2 = []) ∧
        Disjoint (publishedRecords before) due) ∧
    (∀ (autoIncrement : String → Bool) (v : State) (due : Multiset (Except Err Record)),
      FullTable.pksAreAutoIncrementing autoIncrement e = false →
      FullTable.Asks db e autoIncrement config table v due →
      due = ↑(table.map (tableRecord db e config cs))) ∧
    (∀ (st v : State) (before : List Message) (pages : Pages)
        (due : Multiset (Except Err Record)),
      IntegerReplicationKeyed e k table →
      Interrupted (Incremental.Writes db e config table) st before pages v →
      Incremental.Asks db e config table v due →
      (Incremental.keyedRecords db e k table config cs (Incremental.startFloor db e k st) ≤
          publishedRecords before + due ↔
        Paging.Recovered (fun b x => b ≤ Incremental.recordPlace db e k x) 0
          (Paging.attempts (Incremental.recordPlace db e k) (Incremental.startFloor db e k st)
            pages))) :=
  ⟨fun _ _ _ _ _ _ _ hk hauto h hmax hasks =>
      FullTable.resumed_covers_iff hk hauto hcs h hmax hasks,
    fun _ _ _ hauto hasks => FullTable.resumed_whole_table hauto hcs hasks,
    fun _ _ _ _ _ hk h hasks =>
      Incremental.resumed_covers_iff (hk.replicationKeyed db config) hcs h hasks⟩

namespace Sample

def idValues (n : Int) : Val := .dict [(.str "id", .int n)]

/-- The STATE of a full pass over the keys up to 3, after the row `n`. -/
def passState (n : Int) : State :=
  (State.empty.writeBookmark "db-t" "max_pk_values" (idValues 3)).writeBookmark "db-t"
    "last_pk_fetched" (idValues n)

/-- The STATE of an incremental sync after the row `n`. -/
def keyState (n : Int) : State :=
  ((State.empty.writeBookmark "db-t" "replication_key" (.str "id")).writeBookmark "db-t"
    "version" (.int 7)).writeBookmark "db-t" "replication_key_value" (.int n)

def batchOf (ids : List Int) : Message := .batch "db-t" .jsonl (ids.map row)

def records (ids : List Int) : List (Except Err Record) := ids.map fun n => .ok (row n)

theorem columns_id : selectColumns idSchema idSchema.keys = .ok [.plain "id"] := by decide

end Sample

open Sample

/-- Batches of two rows over the keys 1, 2, 3, stopped after the first STATE: the next process
asks for the row 3, over a replication key for the rows 2 and 3. -/
theorem restart_covers_iff_threeRows :
    (FullTable.windowRecords intServer (streamOf "FULL_TABLE") "id" ([1, 2, 3].map row)
        batchesOfTwo.config [.plain "id"] ⊥ 3 ≤
      publishedRecords [batchOf [1, 2]] + ↑(records [3])) ∧
    (Incremental.keyedRecords intServer (streamOf "INCREMENTAL") "id" ([1, 2, 3].map row)
        batchesOfTwo.config [.plain "id"] ⊥ ≤
      publishedRecords [batchOf [1, 2]] + ↑(records [2, 3])) := by
  have hfull : Interrupted (FullTable.Writes intServer (streamOf "FULL_TABLE") (fun _ => true)
      batchesOfTwo.config ([1, 2, 3].map row)) State.empty [batchOf [1, 2]]
      [(records [1, 2], [])] (passState 2) :=
    .stopped (.sync (serverOf ([1, 2, 3].map row) (lostAfter 2)) batchesOfTwo _
      (serverOf_answers _ (by decide) _) (by decide) rfl rfl (.here rfl))
  have hincr : Interrupted (Incremental.Writes intServer (streamOf "INCREMENTAL")
      batchesOfTwo.config ([1, 2, 3].map row)) State.empty [batchOf [1, 2]]
      [(records [1, 2], [])] (keyState 2) :=
    .stopped (.sync (serverOf ([1, 2, 3].map row) (lostAfter 2)) batchesOfTwo 7 _
      (serverOf_answers _ (by decide) _) (by decide) rfl rfl (.here rfl))
  have hfullAsks : FullTable.Asks intServer (streamOf "FULL_TABLE") (fun _ => true)
      batchesOfTwo.config ([1, 2, 3].map row) (passState 2) ↑(records [3]) :=
    .sync (serverOf ([1, 2, 3].map row) fun _ => none) batchesOfTwo
      (serverOf_answers _ (by decide) _) (by decide) rfl (by decide) rfl
  have hincrAsks : Incremental.Asks intServer (streamOf "INCREMENTAL") batchesOfTwo.config
      ([1, 2, 3].map row) (keyState 2) ↑(records [2, 3]) :=
    .sync (serverOf ([1, 2, 3].map row) fun _ => none) batchesOfTwo 8
      (serverOf_answers _ (by decide) _) (by decide) rfl (by decide) rfl
  constructor
  · exact ((restart_covers_iff intServer ([1, 2, 3].map row) (streamOf "FULL_TABLE") "id"
      batchesOfTwo.config [.plain "id"] columns_id).1 (fun _ => true) State.empty (passState 2)
      _ _ (.int 3) _ (integerKeyed (by decide) (by decide) (by decide)) rfl hfull (by decide)
      hfullAsks).1.mpr (by simp)
  · exact ((restart_covers_iff intServer ([1, 2, 3].map row) (streamOf "INCREMENTAL") "id"
      batchesOfTwo.config [.plain "id"] columns_id).2.2 State.empty (keyState 2) _ _ _
      (integerReplicationKeyed [1, 2, 3]) hincr hincrAsks).mpr (by decide)

/-- When the fetch of the first attempt is lost after the row 1, the second attempt writes a
STATE for the rows 2 and 3, and a process that starts from it asks for nothing. -/
theorem restart_loses_row :
    Interrupted (FullTable.Writes intServer (streamOf "FULL_TABLE") (fun _ => true)
      batchesOfTwo.config ([1, 2, 3].map row)) State.empty [batchOf [2, 3]]
      [([], records [1]), (records [2, 3], [])] (passState 3) ∧
    FullTable.Asks intServer (streamOf "FULL_TABLE") (fun _ => true) batchesOfTwo.config
      ([1, 2, 3].map row) (passState 3) 0 ∧
    ¬FullTable.windowRecords intServer (streamOf "FULL_TABLE") "id" ([1, 2, 3].map row)
        batchesOfTwo.config [.plain "id"] ⊥ 3 ≤ publishedRecords [batchOf [2, 3]] + 0 := by
  refine ⟨.stopped (.sync (serverOf ([1, 2, 3].map row) (lostAfter 1)) batchesOfTwo _
      (serverOf_answers _ (by decide) _) (by decide) rfl rfl (.later (.here rfl))),
    .sync (serverOf ([1, 2, 3].map row) fun _ => none) batchesOfTwo
      (serverOf_answers _ (by decide) _) (by decide) rfl (by decide) rfl, fun h => ?_⟩
  have hcard := Multiset.card_le_card h
  revert hcard
  decide

end TapMysql
