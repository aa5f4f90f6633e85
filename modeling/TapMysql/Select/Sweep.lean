import TapMysql.Select.Carries
import TapMysql.Select.Restart

/-!
# A sync of a table that changes

Between the reads of a sync, and between its maximum key and its statement, others commit. Every
attempt reads a table of its own, so what a sync publishes is stated for the rows that are in all
of these tables: they are below the maximum key, and a page that is left behind contains those
below its last key.
-/

namespace TapMysql

variable {κ : Type*} [LinearOrder κ] {db : Mysql κ} {e : CatalogEntry} {k : String}
  {table : List TableRow} {rows : Multiset TableRow} {args : SyncArgs} {st v : State}
  {b : WithBot κ}

namespace FullTable

variable {autoIncrement : String → Bool} {server : Nat → Attempt}

/-! ### What the attempts see -/

/-- The maximum key and the statement of an attempt are read in tables that contain the rows. -/
structure Sees (db : Mysql κ) (e : CatalogEntry) (k : String) (rows : Multiset TableRow)
    (a : Attempt) : Prop where
  maxPk : ∃ table, IntegerKeyed e k table ∧ rows ≤ ↑table ∧
    ∀ result, a.maxPk = .ok result → db.IsMaxPk table e.getKeyProperties result
  select : ∃ table, IntegerKeyed e k table ∧ rows ≤ ↑table ∧
    ∀ sql, db.Delivers table sql (a.select sql)

/-- The state asks for the keys above `b`, in a pass whose maximum key, once it has one, stands
above the rows. -/
structure Within (db : Mysql κ) (e : CatalogEntry) (k : String) (rows : Multiset TableRow)
    (st : State) (b : WithBot κ) : Prop where
  floor : pkFloor db e k st = b
  top : (st.getBookmark e.tapStreamId "max_pk_values").truthy = true →
    ∃ max, pkValue (st.getBookmark e.tapStreamId "max_pk_values") k = .ok max ∧
      ∀ r ∈ rows, db.place (r.cell k) ≤ ↑(db.bound max)

theorem Within.whitelist (hst : Within db e k rows st b) :
    Within db e k rows (whitelistBookmarkKeys (generateBookmarkKeys e) e.tapStreamId st) b := by
  refine ⟨by rw [pkFloor_whitelist]; exact hst.floor, ?_⟩
  rw [getBookmark_whitelist (mem_generateBookmarkKeys (by simp))]
  exact hst.top

theorem At.within {top : κ} (hat : At db e k table top st b)
    (htop : ∀ r ∈ rows, db.place (r.cell k) ≤ ↑top) : Within db e k rows st b := by
  refine ⟨hat.floor, fun ht => ?_⟩
  rcases hat.top with ⟨-, max, hmax, hbound⟩ | ⟨hfalse, -⟩
  · exact ⟨max, hmax, by rwa [hbound]⟩
  · rw [ht] at hfalse
    cases hfalse

/-- The next maximum key of an attempt stands above the rows. -/
theorem Within.exists_at (hst : Within db e k rows st b) (hrows : rows ≠ 0)
    (hk : IntegerKeyed e k table) (hle : rows ≤ ↑table) :
    ∃ top, At db e k table top st b ∧ ∀ r ∈ rows, db.place (r.cell k) ≤ ↑top := by
  cases ht : (st.getBookmark e.tapStreamId "max_pk_values").truthy with
  | true =>
    obtain ⟨max, hmax, htop⟩ := hst.top ht
    exact ⟨db.bound max, ⟨hst.floor, Or.inl ⟨ht, max, hmax, rfl⟩⟩, htop⟩
  | false =>
    have hne : table ≠ [] := by
      rintro rfl
      exact hrows (Multiset.le_zero.mp hle)
    obtain ⟨top, hat⟩ := At.start db hk.autoKeyed hne ht
    rw [hst.floor] at hat
    refine ⟨top, hat, fun r hr => ?_⟩
    rcases hat.top with ⟨htrue, -⟩ | ⟨-, -, hmax⟩
    · rw [ht] at htrue
      cases htrue
    · exact hmax r (Multiset.mem_coe.mp (Multiset.mem_of_le hle hr))

/-- The records of the rows that all tables have in common. -/
def keptRecords (db : Mysql κ) (e : CatalogEntry) (config : Option BatchConfig)
    (cs : List SelectColumn) (rows : Multiset TableRow) : Multiset (Except Err Record) :=
  rows.map (tableRecord db e config cs)

theorem keptRecords_le_pass (hk : IntegerKeyed e k table) (hle : rows ≤ ↑table) {top : κ}
    (htop : ∀ r ∈ rows, db.place (r.cell k) ≤ ↑top) (config : Option BatchConfig)
    (cs : List SelectColumn) :
    keptRecords db e config cs rows ≤
      ↑((rowsUpTo db k top table).map (tableRecord db e config cs)) := by
  rw [← Multiset.map_coe]
  refine Multiset.map_le_map ?_
  rw [rowsUpTo, ← Multiset.filter_coe]
  refine Multiset.le_filter.mpr ⟨hle, fun r hr => ⟨?_, htop r hr⟩⟩
  obtain ⟨n, hn⟩ := hk.cells r (Multiset.mem_coe.mp (Multiset.mem_of_le hle hr))
  rw [hn, db.place_int]
  exact WithBot.bot_lt_coe _

/-- The attempts of a pass over an auto-incrementing key read pages, each of a table that
contains the rows. -/
theorem sweepReader (hrows : rows ≠ 0) (hargs : args.columns = e.schema.keys)
    {cs : List SelectColumn} (hcs : selectColumns e.schema e.schema.keys = .ok cs)
    (hserver : ∀ n, Sees db e k rows (server n)) :
    SweepReader db e args.config (fun n st => attempt e true args (server n) st)
      (keptRecords db e args.config cs rows ≤ ·) (recordPlace db k)
      (fun b x => b < recordPlace db k x) (Within db e k rows)
      (fun a => ∀ x ∈ a.received, ¬a.bookmark < recordPlace db k x) := by
  intro n st b hst
  obtain ⟨table₁, hk₁, hle₁, hmaxPk⟩ := (hserver n).maxPk
  obtain ⟨table₂, hk₂, hle₂, hselect⟩ := (hserver n).select
  obtain ⟨top, hat, htop⟩ := hst.exists_at hrows hk₁ hle₁
  dsimp only
  rcases attempt_cases e args (server n) st with ⟨err, ho, -⟩ | ⟨sql, maximum, -, hm, hf, -⟩ |
    ⟨sql, maximum, hsql, hm, -, ⟨err, ho, hno⟩ | ⟨sql', hclause, ho⟩⟩
  · rw [ho]
    exact Or.inl ⟨rfl, rfl, err, rfl, fun _ => hst⟩
  · simp [(hat.passMaximum hk₁.autoKeyed hmaxPk hm).1] at hf
  · rw [ho]
    refine Or.inl ⟨rfl, rfl, err, rfl, fun hretry => ?_⟩
    simp [retryable_isOperational hretry] at hno
  · obtain ⟨ht, hpk⟩ := hat.passMaximum hk₁.autoKeyed hmaxPk hm
    have hcs' : cs = sql.columns := by
      have hcols := (generateSelectSql_eq hsql).1
      rw [hargs, hcs, Except.ok.injEq] at hcols
      exact hcols
    subst hcs'
    -- the statement of the window runs in the second table
    have hat₂ : At db e k table₂ top
        (st.writeBookmark e.tapStreamId "max_pk_values" maximum) b :=
      ⟨(hat.write_max ht hpk).floor, Or.inl ⟨by simpa using ht, by simpa using hpk⟩⟩
    have hread := runSelect_page hk₂ hargs hselect hat₂ (by simpa using ht) (by simpa using hpk)
      hcs hclause
    rw [ho]
    exact Or.inr ⟨table₂, _, keptRecords_le_pass hk₂ hle₂ htop args.config sql.columns,
      hread.mono fun _ _ h => h.within htop⟩

/-! ### What a sync publishes -/

/-- The rows are published, or the state still asks for them. -/
def Covered (db : Mysql κ) (e : CatalogEntry) (k : String) (config : Option BatchConfig)
    (cs : List SelectColumn) (rows : Multiset TableRow) (st : State)
    (published : Multiset (Except Err Record)) : Prop :=
  ∃ b, Within db e k rows st b ∧ keptRecords db e config cs rows ≤
    published + (keptRecords db e config cs rows).filter (b < recordPlace db k ·)

theorem Covered.state (hkeys : e.getKeyProperties = [k]) (hauto : autoIncrement k = true)
    (hrows : rows ≠ 0) (hargs : args.columns = e.schema.keys) {cs : List SelectColumn}
    (hcs : selectColumns e.schema e.schema.keys = .ok cs)
    (hserver : ∀ n, Sees db e k rows (server n)) {published : Multiset (Except Err Record)}
    (hst : Covered db e k args.config cs rows st published) {before : List Message} {pages : Pages}
    (hstate : StateAt e args.config (retryOutcomes e autoIncrement server args st) before pages v)
    (hheld : ∀ p ∈ pages, p.2 = []) :
    Covered db e k args.config cs rows v (published + publishedRecords before) := by
  obtain ⟨b, hwithin, hcovers⟩ := hst
  have hreader := sweepReader hrows hargs hcs hserver
  rw [retryOutcomes_eq hkeys hauto] at hstate
  obtain ⟨-, b', hsweep, hwithin', hpub⟩ :=
    sweep_of_stateAt hreader hstate rfl hwithin.whitelist
  refine ⟨b', hwithin', hcovers.trans ?_⟩
  rw [hpub, add_assoc]
  exact add_le_add_right (hsweep.covers (fun _ hM => hM)
    ((Paging.attempts_held_eq_zero b pages).mpr hheld)) _

/-- A sync that returns publishes the rows that were still asked for. -/
theorem Covered.returns (hkeys : e.getKeyProperties = [k]) (hauto : autoIncrement k = true)
    (hrows : rows ≠ 0) (hargs : args.columns = e.schema.keys) {cs : List SelectColumn}
    (hcs : selectColumns e.schema e.schema.keys = .ok cs)
    (hserver : ∀ n, Sees db e k rows (server n)) {published : Multiset (Except Err Record)}
    (hst : Covered db e k args.config cs rows st published)
    (hret : (syncTable e autoIncrement server args st).error = none)
    (hheld : ∀ x ∈ (syncTable e autoIncrement server args st).executed, x.2.error.isSome →
      heldBack args.config x.2.chunks = []) :
    keptRecords db e args.config cs rows ≤
      published + publishedRecords (syncTable e autoIncrement server args st).messages := by
  obtain ⟨b, hwithin, hcovers⟩ := hst
  obtain ⟨herr, hexec, -⟩ := syncTable_loop e autoIncrement server args st
  rw [hret, loop_eq hkeys hauto] at herr
  have hpages : ∀ p ∈ failedPages e args.config (loop e autoIncrement server args st).executed,
      p.2 = [] := (failedPages_held _).mpr (hexec ▸ hheld)
  rw [loop_eq hkeys hauto] at hpages
  obtain ⟨-, -, b', M, hM, hsweep, hpub⟩ := sweep_of_tried (sweepReader hrows hargs hcs hserver)
    (attempts_returns (by decide) herr.symm) hwithin.whitelist
  refine hcovers.trans (add_le_add_right ?_ _)
  rw [publishedRecords_syncTable, loop_eq hkeys hauto, hpub]
  exact (hsweep.covers (fun _ hM => hM) ((Paging.attempts_held_eq_zero b _).mpr hpages)).trans
    (add_le_add_right (Multiset.filter_le_filter _ hM) _)

/-- Without an auto-incrementing key the last attempt publishes its whole table. -/
theorem syncTable_whole (hauto : pksAreAutoIncrementing autoIncrement e = false)
    (hargs : args.columns = e.schema.keys) {cs : List SelectColumn}
    (hcs : selectColumns e.schema e.schema.keys = .ok cs)
    (hserver : ∀ n, ∃ table : List TableRow, rows ≤ ↑table ∧
      ∀ sql, db.Delivers table sql ((server n).select sql))
    (hret : (syncTable e autoIncrement server args st).error = none) :
    keptRecords db e args.config cs rows ≤
      publishedRecords (syncTable e autoIncrement server args st).messages := by
  obtain ⟨herr, -⟩ := syncTable_loop e autoIncrement server args st
  rw [hret, loop, retryLoop] at herr
  obtain ⟨n, st', before, hlast, hmsgs⟩ := (attempts_returns (by decide) herr.symm).last
  rw [publishedRecords_syncTable, loop, retryLoop, hmsgs, publishedRecords_append]
  refine le_trans ?_ (Multiset.le_add_left _ _)
  obtain ⟨table, hle, hselect⟩ := hserver n
  rw [attempt, hauto] at hlast ⊢
  cases hs : generateSelectSql e args.columns with
  | error err => simp [hs, Outcome.failed] at hlast
  | ok sql =>
    simp only [hs, Bool.false_eq_true, if_false] at hlast ⊢
    obtain ⟨hcols, hconds, -⟩ := generateSelectSql_eq hs
    rw [hargs] at hcols
    obtain ⟨got, rest, hanswer, hrecords, hend⟩ := delivers_records args.config (hselect sql) hcols
    obtain ⟨hf, hpub, -⟩ := runSelect_returns rfl hargs hlast
    rw [hcs, Except.ok.injEq] at hcols
    have hall : db.matching sql table = table :=
      List.filter_eq_self.mpr fun r _ => by simp [Mysql.selects, hconds]
    have hperm := hanswer.perm
    rw [hend hf, List.append_nil, hall] at hperm
    rw [publishedRecords, Multiset.map_coe, hpub, hrecords, ← hcols,
      Multiset.coe_eq_coe.mpr (hperm.map _), ← Multiset.map_coe]
    exact Multiset.map_le_map hle

/-! ### What its states keep -/

/-- Without a maximum key no row has been fetched up to a key. -/
def Untouched (e : CatalogEntry) (st : State) : Prop :=
  (st.getBookmark e.tapStreamId "max_pk_values").truthy = false →
    (st.getBookmark e.tapStreamId "last_pk_fetched").truthy = false

theorem runSelect_untouched
    (hm : e.replicationMethod = .fullTable ∨ e.replicationMethod = .logBased)
    (hst : Untouched e st) (a : Attempt) (sql : SelectSql) :
    Untouched e (runSelect e args a st sql).state ∧
      ∀ m ∈ (runSelect e args a st sql).messages, ∀ v, m = .state v → Untouched e v := by
  obtain ⟨hmax, hmaxs⟩ : (runSelect e args a st sql).Carries e.tapStreamId "max_pk_values"
      args.config args.streamVersion (st.getBookmark e.tapStreamId "max_pk_values") :=
    runSelect_carries hm (Or.inl (by decide)) a sql rfl
  cases ht : (st.getBookmark e.tapStreamId "max_pk_values").truthy with
  | true =>
    refine ⟨fun hfalse => ?_, fun m hmem v hv hfalse => ?_⟩
    · rw [hmax, ht] at hfalse
      cases hfalse
    · subst hv
      have hkept : v.getBookmark e.tapStreamId "max_pk_values" = _ := hmaxs _ hmem
      rw [hkept, ht] at hfalse
      cases hfalse
  | false =>
    obtain ⟨hlast, hlasts⟩ : (runSelect e args a st sql).Carries e.tapStreamId "last_pk_fetched"
        args.config args.streamVersion (st.getBookmark e.tapStreamId "last_pk_fetched") :=
      runSelect_carries hm (Or.inr ht) a sql rfl
    refine ⟨fun _ => ?_, fun m hmem v hv _ => ?_⟩
    · rw [hlast]
      exact hst ht
    · subst hv
      have hkept : v.getBookmark e.tapStreamId "last_pk_fetched" = _ := hlasts _ hmem
      rw [hkept]
      exact hst ht

theorem attempt_untouched
    (hm : e.replicationMethod = .fullTable ∨ e.replicationMethod = .logBased)
    (hst : Untouched e st) (args : SyncArgs) (autoIncrementing : Bool) (a : Attempt) :
    Untouched e (attempt e autoIncrementing args a st).state ∧
      ∀ m ∈ (attempt e autoIncrementing args a st).messages, ∀ v, m = .state v →
        Untouched e v := by
  have hfailed : ∀ st' err, Untouched e st' → Untouched e (Outcome.failed st' err).state ∧
      ∀ m ∈ (Outcome.failed st' err).messages, ∀ v, m = .state v → Untouched e v :=
    fun st' err h => ⟨h, by simp [Outcome.failed]⟩
  rw [attempt]
  split
  · exact hfailed _ _ hst
  · split_ifs
    · split
      · exact hfailed _ _ hst
      · rename_i maximum _
        split_ifs with ht
        · have hst' : Untouched e (st.writeBookmark e.tapStreamId "max_pk_values" maximum) := by
            intro hfalse
            simp [ht] at hfalse
          simp only
          split
          · exact hfailed _ _ hst'
          · exact runSelect_untouched hm hst' a _
        · exact runSelect_untouched hm hst a _
    · exact runSelect_untouched hm hst a _

theorem syncTable_untouched
    (hm : e.replicationMethod = .fullTable ∨ e.replicationMethod = .logBased)
    (hst : Untouched e st) (hv : .state v ∈ (syncTable e autoIncrement server args st).messages) :
    Untouched e v := by
  have hst' : Untouched e (whitelistBookmarkKeys (generateBookmarkKeys e) e.tapStreamId st) := by
    rw [Untouched, getBookmark_whitelist (mem_generateBookmarkKeys (by simp)),
      getBookmark_whitelist (mem_generateBookmarkKeys (by simp))]
    exact hst
  obtain ⟨-, hmsgs⟩ := attempts_invariant args.config
    (fun n st (h : Untouched e st) =>
      attempt_untouched hm h args (pksAreAutoIncrementing autoIncrement e) (server n))
    maxSyncRetries 0 hst'
  exact hmsgs _ (state_mem_loop hv) v rfl

/-! ### The maximum key in a STATE -/

/-- The maximum key is read while the table is not empty. -/
def ReadsMaximum (db : Mysql κ) (e : CatalogEntry) (k : String) (a : Attempt) : Prop :=
  ∃ result table, a.maxPk = .ok result ∧ IntegerKeyed e k table ∧ table ≠ [] ∧
    db.IsMaxPk table e.getKeyProperties result

/-- With a maximum key in its bookmark, or one that it reads, an attempt passes it on to the next
one and to all its STATE messages. -/
theorem attempt_maximum {a : Attempt}
    (hst : (st.getBookmark e.tapStreamId "max_pk_values").truthy = true ∨
      ReadsMaximum db e k a)
    (hm : e.replicationMethod = .fullTable ∨ e.replicationMethod = .logBased) :
    (∀ v, .state v ∈ (attempt e true args a st).messages →
      (v.getBookmark e.tapStreamId "max_pk_values").truthy = true) ∧
    (((attempt e true args a st).state.getBookmark e.tapStreamId "max_pk_values").truthy = true ∨
      ∃ err, (attempt e true args a st).error = some err ∧ err.isOperational = false) := by
  have hpass : ∃ maximum, passMaximum e a st = .ok maximum ∧ maximum.truthy = true := by
    cases ht : (st.getBookmark e.tapStreamId "max_pk_values").truthy with
    | true => exact ⟨_, by rw [passMaximum, if_pos ht], ht⟩
    | false =>
      obtain ⟨result, table, hmaxPk, hk, hne, hmax⟩ := hst.resolve_left (by simp [ht])
      obtain ⟨top, hat⟩ : ∃ top, At db e k table top st (pkFloor db e k st) :=
        At.start db hk.autoKeyed hne ht
      have hm : passMaximum e a st = .ok (maxPkValues e result) := by
        simp [passMaximum, ht, hmaxPk]
      refine ⟨_, hm, (hat.passMaximum hk.autoKeyed (fun result' h => ?_) hm).1⟩
      rw [hmaxPk, Except.ok.injEq] at h
      exact h ▸ hmax
  obtain ⟨maximum, hm', htruthy⟩ := hpass
  rcases attempt_cases e args a st with ⟨err, ho, hno | herr⟩ | ⟨sql, maximum', -, hm'', hf, -⟩ |
    ⟨sql, maximum', hsql, hm'', -, ⟨err, ho, hno⟩ | ⟨sql', hclause, ho⟩⟩
  · rw [ho]
    exact ⟨by simp [Outcome.failed], Or.inr ⟨err, rfl, hno⟩⟩
  · rw [hm'] at herr
    cases herr
  · rw [hm', Except.ok.injEq] at hm''
    rw [hm'', hf] at htruthy
    cases htruthy
  · rw [ho]
    exact ⟨by simp [Outcome.failed], Or.inr ⟨err, rfl, hno⟩⟩
  · rw [hm', Except.ok.injEq] at hm''
    subst hm''
    rw [ho]
    obtain ⟨hkept, hmsgs⟩ : (runSelect e args a
        (st.writeBookmark e.tapStreamId "max_pk_values" maximum) sql').Carries e.tapStreamId
        "max_pk_values" args.config args.streamVersion maximum :=
      runSelect_carries hm (Or.inl (by decide)) a sql' (by simp)
    refine ⟨fun v hv => ?_, Or.inl (by rw [hkept]; exact htruthy)⟩
    have hvkept : v.getBookmark e.tapStreamId "max_pk_values" = maximum := hmsgs _ hv
    rw [hvkept]
    exact htruthy

/-- Once the maximum key has been read, all later attempts write it in their STATE messages. -/
theorem outcome_maximum {config : Option BatchConfig} {left i n : Nat} {o : Outcome}
    (hm : e.replicationMethod = .fullTable ∨ e.replicationMethod = .logBased)
    (h : (attemptOutcomes config (fun n st => attempt e true args (server n) st) left i st)[n]? =
      some o)
    (hst : (st.getBookmark e.tapStreamId "max_pk_values").truthy = true ∨
      ∃ j ≤ n, ReadsMaximum db e k (server (i + j))) :
    ∀ v, .state v ∈ o.messages →
      (v.getBookmark e.tapStreamId "max_pk_values").truthy = true := by
  induction n generalizing left i st with
  | zero =>
    cases hos : attemptOutcomes config (fun n st => attempt e true args (server n) st) left i st
      with
    | nil => simp [hos] at h
    | cons o' os =>
      obtain ⟨rfl, -⟩ := attemptOutcomes_cons hos
      rw [hos, List.getElem?_cons_zero, Option.some.injEq] at h
      subst h
      have hnow : (st.getBookmark e.tapStreamId "max_pk_values").truthy = true ∨
          ReadsMaximum db e k (server i) := by
        refine hst.imp_right fun hread => ?_
        obtain ⟨j, hj, hread⟩ := hread
        rwa [Nat.le_zero.mp hj, Nat.add_zero] at hread
      exact (attempt_maximum hnow hm).1
  | succ n ih =>
    cases hos : attemptOutcomes config (fun n st => attempt e true args (server n) st) left i st
      with
    | nil => simp [hos] at h
    | cons o' os =>
      obtain ⟨rfl, rfl | ⟨err, left', herr, hretry, rfl⟩⟩ := attemptOutcomes_cons hos
      · simp [hos] at h
      · rw [hos, List.getElem?_cons_succ] at h
        have hnext : ∀ hnow : (st.getBookmark e.tapStreamId "max_pk_values").truthy = true ∨
            ReadsMaximum db e k (server i),
            ((attempt e true args (server i) st).state.getBookmark e.tapStreamId
              "max_pk_values").truthy = true := by
          intro hnow
          refine (attempt_maximum hnow hm).2.resolve_right ?_
          intro hno
          obtain ⟨err', herr', hno⟩ := hno
          rw [herr, Option.some.injEq] at herr'
          rw [← herr', retryable_isOperational hretry] at hno
          cases hno
        refine ih h ?_
        rcases hst with ht | ⟨j, hj, hread⟩
        · exact Or.inl (hnext (Or.inl ht))
        · cases j with
          | zero => exact Or.inl (hnext (Or.inr hread))
          | succ j =>
            refine Or.inr ⟨j, Nat.le_of_succ_le_succ hj, ?_⟩
            rwa [Nat.add_assoc, Nat.add_comm 1 j]

end FullTable

end TapMysql
