import TapMysql.Select.Attempts

/-!
# The attempts of both strategies read pages by key

For an auto-incrementing integer key the collection is the rows up to the maximum key of the
pass, and the statement of an attempt asks for those above `last_pk_fetched`. For a replication
key it is the whole table, and the statement asks for the rows from `replication_key_value` on.
-/

namespace TapMysql

/-- The server answers about this table, as long as it does not change. -/
structure Answers {κ : Type*} [LinearOrder κ] (db : Mysql κ) (e : CatalogEntry)
    (table : List TableRow) (a : Attempt) : Prop where
  maxPk : ∀ result, a.maxPk = .ok result → db.IsMaxPk table e.getKeyProperties result
  select : ∀ sql, db.Delivers table sql (a.select sql)

theorem escape_error {s : String} {err : Err} (h : escape s = .error err) :
    err.isOperational = false := by
  rw [escape] at h
  split_ifs at h
  cases h
  rfl

theorem generateSelectSql_error {e : CatalogEntry} {columns : List String} {err : Err}
    (h : generateSelectSql e columns = .error err) : err.isOperational = false := by
  have hdatabase : ∀ v err, escapeVal v = .error err → err.isOperational = false := by
    intro v err h
    cases v with
    | str s => exact escape_error h
    | _ =>
      cases h
      rfl
  have hcolumns : ∀ names err, selectColumns e.schema names = .error err →
      err.isOperational = false := by
    intro names
    induction names with
    | nil => simp [selectColumns]
    | cons name rest ih =>
      intro err h
      rw [selectColumns] at h
      split at h
      · rename_i err' hcolumn
        cases h
        rw [selectColumn] at hcolumn
        split at hcolumn
        · cases hcolumn
          exact escape_error ‹_›
        · split at hcolumn
          · cases hcolumn
            rfl
          · split_ifs at hcolumn
      · split at h
        · cases h
          exact ih _ ‹_›
        · cases h
  rw [generateSelectSql] at h
  split at h
  · cases h
    exact hdatabase _ _ ‹_›
  · split at h
    · cases h
      exact escape_error ‹_›
    · split at h
      · cases h
        exact hcolumns _ _ ‹_›
      · cases h

theorem pkValue_error {values : Val} {pk : String} {err : Err}
    (h : FullTable.pkValue values pk = .error err) : err.isOperational = false := by
  unfold FullTable.pkValue at h
  split at h
  · split at h
    · cases h
      rfl
    · cases h
  · cases h
    rfl

theorem generatePkClause_error {e : CatalogEntry} {st : State} {sql : SelectSql} {err : Err}
    (h : FullTable.generatePkClause e st sql = .error err) : err.isOperational = false := by
  have hescape : ∀ names err, escapeAll names = .error err → err.isOperational = false := by
    intro names
    induction names with
    | nil => simp [escapeAll]
    | cons name rest ih =>
      intro err h
      rw [escapeAll] at h
      split at h
      · cases h
        exact escape_error ‹_›
      · exact ih err h
  have hcomparisons : ∀ last max pk err, FullTable.pkComparisons last max pk = .error err →
      err.isOperational = false := by
    intro last max pk err h
    rw [FullTable.pkComparisons] at h
    split_ifs at h
    · split at h
      · cases h
        exact pkValue_error ‹_›
      · split at h
        · cases h
          exact pkValue_error ‹_›
        · cases h
    · split at h
      · cases h
        exact pkValue_error ‹_›
      · cases h
  have hconditions : ∀ last max keys err, FullTable.pkConditions last max keys = .error err →
      err.isOperational = false := by
    intro last max keys
    induction keys with
    | nil => simp [FullTable.pkConditions]
    | cons pk rest ih =>
      intro err h
      rw [FullTable.pkConditions] at h
      split at h
      · cases h
        exact hcomparisons _ _ _ _ ‹_›
      · split at h
        · cases h
          exact ih _ ‹_›
        · cases h
  rw [FullTable.generatePkClause] at h
  split at h
  · cases h
    exact hescape _ _ ‹_›
  · split at h
    · cases h
      exact hconditions _ _ _ _ ‹_›
    · cases h

/-! ### An auto-incrementing integer key -/

/-- A stream whose key is one integer column, TINYINT(1) included, over a table in which it is a
primary key. -/
structure AutoKeyed (e : CatalogEntry) (k : String) (table : List TableRow) : Prop where
  keys : e.getKeyProperties = [k]
  method : e.replicationMethod = .fullTable ∨ e.replicationMethod = .logBased
  typed : TypedSchema e
  column : ∃ p, e.schema.get? k = some p ∧ (IntegerColumn p ∨ BooleanColumn p)
  cells : ∀ r ∈ table, ∃ n, r.cell k = .int n
  nodup : (table.map fun r => r.cell k).Nodup

/-- A stream whose key is one integer column that is not described as boolean, over a table in
which it is a primary key. -/
structure IntegerKeyed (e : CatalogEntry) (k : String) (table : List TableRow) : Prop where
  keys : e.getKeyProperties = [k]
  method : e.replicationMethod = .fullTable ∨ e.replicationMethod = .logBased
  typed : TypedSchema e
  column : ∃ p, e.schema.get? k = some p ∧ IntegerColumn p
  cells : ∀ r ∈ table, ∃ n, r.cell k = .int n
  nodup : (table.map fun r => r.cell k).Nodup

theorem IntegerKeyed.autoKeyed {e : CatalogEntry} {k : String} {table : List TableRow}
    (hk : IntegerKeyed e k table) : AutoKeyed e k table where
  keys := hk.keys
  method := hk.method
  typed := hk.typed
  column := hk.column.imp fun _ hp => hp.imp_right Or.inl
  cells := hk.cells
  nodup := hk.nodup

namespace FullTable

variable {κ : Type*} [LinearOrder κ] (db : Mysql κ) {e : CatalogEntry} {k : String}
  {table : List TableRow} {top : κ} {args : SyncArgs} {st : State} {b : WithBot κ}

/-- The rows of the pass whose maximum key stands at `top`. -/
def rowsUpTo (k : String) (top : κ) (table : List TableRow) : List TableRow :=
  table.filter fun r => decide (⊥ < db.place (r.cell k) ∧ db.place (r.cell k) ≤ ↑top)

def recordPlace (k : String) (x : Except Err Record) : WithBot κ := db.boundPlace (recordKey k x)

/-- The state asks for the keys above `b` in the pass whose maximum key stands at `top`: the one
in the bookmark or, before the first statement, the one of the table. -/
structure At (e : CatalogEntry) (k : String) (table : List TableRow) (top : κ) (st : State)
    (b : WithBot κ) : Prop where
  floor : pkFloor db e k st = b
  top : ((st.getBookmark e.tapStreamId "max_pk_values").truthy = true ∧
      ∃ max, pkValue (st.getBookmark e.tapStreamId "max_pk_values") k = .ok max ∧
        db.bound max = top) ∨
    ((st.getBookmark e.tapStreamId "max_pk_values").truthy = false ∧
      (∃ r ∈ table, db.place (r.cell k) = ↑top) ∧ ∀ r ∈ table, db.place (r.cell k) ≤ ↑top)

/-- What an attempt on an auto-incrementing key does: it fails before it has a statement, or it
runs the statement of the whole table, or that of the window of its bookmark. -/
theorem attempt_cases (e : CatalogEntry) (args : SyncArgs) (a : Attempt) (st : State) :
    (∃ err, attempt e true args a st = .failed st err ∧ (err.isOperational = false ∨
      passMaximum e a st = .error err)) ∨
    (∃ sql maximum, generateSelectSql e args.columns = .ok sql ∧
      passMaximum e a st = .ok maximum ∧ maximum.truthy = false ∧
      attempt e true args a st = runSelect e args a st sql) ∨
    (∃ sql maximum, generateSelectSql e args.columns = .ok sql ∧
      passMaximum e a st = .ok maximum ∧ maximum.truthy = true ∧
      ((∃ err, attempt e true args a st =
          .failed (st.writeBookmark e.tapStreamId "max_pk_values" maximum) err ∧
          err.isOperational = false) ∨
        ∃ sql', generatePkClause e (st.writeBookmark e.tapStreamId "max_pk_values" maximum) sql =
            .ok sql' ∧
          attempt e true args a st = runSelect e args a
            (st.writeBookmark e.tapStreamId "max_pk_values" maximum) sql')) := by
  rw [attempt]
  cases hs : generateSelectSql e args.columns with
  | error err => exact Or.inl ⟨err, rfl, Or.inl (generateSelectSql_error hs)⟩
  | ok sql =>
    cases hm : passMaximum e a st with
    | error err => exact Or.inl ⟨err, by simp, Or.inr rfl⟩
    | ok maximum =>
      cases ht : maximum.truthy with
      | false => exact Or.inr (Or.inl ⟨sql, maximum, rfl, rfl, ht, by simp [ht]⟩)
      | true =>
        refine Or.inr (Or.inr ⟨sql, maximum, rfl, rfl, ht, ?_⟩)
        cases hc : generatePkClause e
            (st.writeBookmark e.tapStreamId "max_pk_values" maximum) sql with
        | error err =>
          refine Or.inl ⟨err, by simp [ht, hc], ?_⟩
          exact generatePkClause_error hc
        | ok sql' => exact Or.inr ⟨sql', rfl, by simp [ht, hc]⟩

variable {db}

theorem At.passMaximum (hk : AutoKeyed e k table) {a : Attempt}
    (ha : ∀ result, a.maxPk = .ok result → db.IsMaxPk table e.getKeyProperties result)
    (hat : At db e k table top st b) {maximum : Val} (h : passMaximum e a st = .ok maximum) :
    maximum.truthy = true ∧ ∃ max, pkValue maximum k = .ok max ∧ db.bound max = top := by
  rw [FullTable.passMaximum] at h
  rcases hat.top with ⟨ht, max, hmax, hbound⟩ | ⟨ht, ⟨r, hr, htop⟩, hle⟩
  · simp only [ht, if_true, Except.ok.injEq] at h
    subst h
    exact ⟨ht, max, hmax, hbound⟩
  · simp only [ht, Bool.false_eq_true, if_false] at h
    cases hp : a.maxPk with
    | error err => simp [hp] at h
    | ok result =>
      simp only [hp, Except.ok.injEq] at h
      subst h
      have hmax := ha result hp
      rw [hk.keys] at hmax
      cases result with
      | none =>
        have hnil : table = [] := hmax
        simp [hnil] at hr
      | some row =>
        obtain ⟨r', hr', rfl, hsup⟩ := hmax
        obtain ⟨n, hn⟩ := hk.cells r' hr'
        have hplace : db.place (r'.cell k) = ↑top :=
          le_antisymm (hle r' hr') (htop ▸ ordered_single (hsup r hr))
        refine ⟨by simp [maxPkValues, hk.keys, Dict.ofList, Dict.set, Dict.empty, Dict.assocSet,
          Val.truthy], r'.cell k, ?_, ?_⟩
        · simp [maxPkValues, hk.keys, Dict.ofList, Dict.set, Dict.empty, Dict.assocSet, pkValue,
            Dict.assocGet]
        · rw [hn, db.place_int] at hplace
          rw [hn]
          exact WithBot.coe_injective hplace

theorem At.write_max (hat : At db e k table top st b) {maximum : Val}
    (ht : maximum.truthy = true) (hm : ∃ max, pkValue maximum k = .ok max ∧ db.bound max = top) :
    At db e k table top (st.writeBookmark e.tapStreamId "max_pk_values" maximum) b := by
  refine ⟨?_, Or.inl ⟨by simpa using ht, by simpa using hm⟩⟩
  rw [← hat.floor]
  simp [pkFloor, State.getBookmark_writeBookmark]

theorem recordPlace_tableRecord (db : Mysql κ) (hk : IntegerKeyed e k table)
    {cs : List SelectColumn} (hcs : selectColumns e.schema e.schema.keys = .ok cs)
    (config : Option BatchConfig) {r : TableRow} (hr : r ∈ table) :
    recordPlace db k (tableRecord db e config cs r) = db.place (r.cell k) := by
  obtain ⟨p, hp, hint⟩ := hk.column
  exact boundPlace_tableRecord db hk.typed hcs hp hint (Or.inr (hk.cells r hr))

theorem page_eq (hk : IntegerKeyed e k table) {sql sql' : SelectSql}
    (hcs : selectColumns e.schema e.schema.keys = .ok sql.columns)
    (hat : At db e k table top st b)
    (htop : ∃ max, pkValue (st.getBookmark e.tapStreamId "max_pk_values") k = .ok max ∧
      db.bound max = top)
    (h : generatePkClause e st sql = .ok sql') (config : Option BatchConfig) :
    sql'.columns = sql.columns ∧ sql'.orderBy = [k] ∧
      Multiset.filter (b < recordPlace db k ·)
        (↑((rowsUpTo db k top table).map (tableRecord db e config sql.columns))) =
        (↑((db.matching sql' table).map (tableRecord db e config sql.columns)) :
          Multiset (Except Err Record)) := by
  obtain ⟨hcols, horder, max, hmax, hsel⟩ := generatePkClause_ok db hk.keys h
  obtain ⟨max', hmax', hbound⟩ := htop
  rw [hmax] at hmax'
  cases hmax'
  refine ⟨hcols, horder, ?_⟩
  rw [Multiset.filter_coe, List.filter_map]
  congr 2
  rw [Mysql.matching, rowsUpTo, List.filter_filter]
  refine List.filter_congr fun r hr => ?_
  have hplace := recordPlace_tableRecord db hk hcs config hr
  rw [Bool.eq_iff_iff, hsel r, hat.floor, inWindow, hbound]
  simp only [Function.comp_apply, hplace, Bool.and_eq_true, decide_eq_true_eq]
  exact ⟨fun h => ⟨h.1, h.2.2⟩, fun h => ⟨h.1, bot_lt_of_lt h.1, h.2⟩⟩

theorem strictly_sorted (hk : IntegerKeyed e k table) {sql : SelectSql} {rows : List TableRow}
    (hperm : rows.Perm (db.matching sql table))
    (hsorted : rows.Pairwise fun r s => db.place (r.cell k) ≤ db.place (s.cell k)) :
    rows.Pairwise fun r s => db.place (r.cell k) < db.place (s.cell k) := by
  have hnodup : (rows.map fun r => r.cell k).Nodup :=
    (hperm.map _).nodup_iff.mpr (hk.nodup.sublist (List.filter_sublist.map _))
  have hne : rows.Pairwise fun r s => r.cell k ≠ s.cell k := List.pairwise_map.mp hnodup
  have hmem : ∀ r ∈ rows, r ∈ table := fun r hr =>
    List.mem_of_mem_filter (hperm.mem_iff.mp hr)
  refine (hsorted.and hne).imp_of_mem fun {r s} hr hs h => lt_of_le_of_ne h.1 fun heq => h.2 ?_
  obtain ⟨m, hm⟩ := hk.cells r (hmem r hr)
  obtain ⟨n, hn⟩ := hk.cells s (hmem s hs)
  rw [hm, hn, db.place_int, db.place_int] at heq
  rw [hm, hn, db.bound_int_inj.mp (WithBot.coe_injective heq)]

theorem delivered_key (hk : AutoKeyed e k table) {sql : SelectSql} {f : Fetch}
    (hd : db.Delivers table sql f)
    (hcs : selectColumns e.schema e.schema.keys = .ok sql.columns) (config : Option BatchConfig) :
    ∀ row ∈ f.rows, ∃ r v, rowRecord e e.schema.keys config f.names row = .ok r ∧
      r.get? k = some v ∧ v ≠ .null := by
  intro row hrow
  obtain ⟨got, rest, hanswer, hrows, -⟩ := hd.rows
  rw [hrows] at hrow
  obtain ⟨r, hr, rfl⟩ := List.mem_map.mp hrow
  have hmem : r ∈ table := List.mem_of_mem_filter
    (hanswer.perm.mem_iff.mp (List.mem_append_left rest hr))
  obtain ⟨p, hp, hcolumn⟩ := hk.column
  obtain ⟨n, hn⟩ := hk.cells r hmem
  obtain ⟨rec, hrec, -, hget⟩ := tableRecord_ok db hk.typed hcs config r
  obtain ⟨v, hv, hnull⟩ : ∃ v, fieldValue config p (r.cell k) = .ok v ∧ v ≠ .null := by
    rw [hn]
    rcases hcolumn with hint | hbool
    · exact ⟨_, fieldValue_integer config hint (Or.inr ⟨n, rfl⟩), by simp⟩
    · exact ⟨_, fieldValue_boolean config hbool n, by simp⟩
  have hformat : p.format = none := hcolumn.elim IntegerColumn.format BooleanColumn.format
  rw [hd.names, selectColumns_names hcs]
  exact ⟨rec, v, hrec, hget k p v hp (by simp [hformat]) (by simp [hformat]) hv, hnull⟩

theorem at_of_bookmarkOf (hk : AutoKeyed e k table) {sql : SelectSql} {f : Fetch}
    (hd : db.Delivers table sql f)
    (hcs : selectColumns e.schema e.schema.keys = .ok sql.columns) {config : Option BatchConfig}
    (hat : At db e k table top st b)
    (ht : (st.getBookmark e.tapStreamId "max_pk_values").truthy = true)
    (htop : ∃ max, pkValue (st.getBookmark e.tapStreamId "max_pk_values") k = .ok max ∧
      db.bound max = top) {rows : List Row} (hrows : ∀ row ∈ rows, row ∈ f.rows) {st' : State}
    (h : BookmarkOf e e.schema.keys config f.names st rows st') :
    At db e k table top st' (Paging.bookmarkAfter (recordPlace db k) b
      (rows.map (rowRecord e e.schema.keys config f.names))) := by
  obtain ⟨hkeep, hfloor⟩ := bookmarkOf_window db hk.keys hk.method ht
    (fun row hrow => delivered_key hk hd hcs config row (hrows row hrow)) h
  have hmax := hkeep "max_pk_values" (by decide)
  refine ⟨?_, Or.inl ⟨by rw [hmax]; exact ht, by rw [hmax]; exact htop⟩⟩
  rw [hfloor, Paging.bookmarkAfter, List.getLast?_map]
  cases rows.getLast? with
  | none => exact hat.floor
  | some row => rfl

theorem runSelect_page (hk : IntegerKeyed e k table) (hargs : args.columns = e.schema.keys)
    {a : Attempt} (ha : ∀ sql, db.Delivers table sql (a.select sql))
    (hat : At db e k table top st b)
    (ht : (st.getBookmark e.tapStreamId "max_pk_values").truthy = true)
    (htop : ∃ max, pkValue (st.getBookmark e.tapStreamId "max_pk_values") k = .ok max ∧
      db.bound max = top) {sql sql' : SelectSql}
    (hcs : selectColumns e.schema e.schema.keys = .ok sql.columns)
    (hclause : generatePkClause e st sql = .ok sql') :
    let M : Multiset (Except Err Record) :=
      ↑((rowsUpTo db k top table).map (tableRecord db e args.config sql.columns))
    let asked := fun (b : WithBot κ) (x : Except Err Record) => b < recordPlace db k x
    Reads db e args.config table M (recordPlace db k) asked (At db e k table top)
      (fun a => ∀ x ∈ a.received, ¬a.bookmark < recordPlace db k x) b
      (runSelect e args a st sql') := by
  intro M asked
  obtain ⟨hcols, horder, hpage⟩ := page_eq hk hcs hat htop hclause args.config
  have hcs' : selectColumns e.schema e.schema.keys = .ok sql'.columns := by rw [hcols, hcs]
  rw [← hcols] at hpage
  have hM : M = ↑((rowsUpTo db k top table).map (tableRecord db e args.config sql'.columns)) := by
    rw [hcols]
  rw [hM]
  refine runSelect_reads rfl hargs (ha sql') hcs' horder hpage ?_
    (fun rows st' hrows h => at_of_bookmarkOf hk.autoKeyed (ha sql') hcs' hat ht htop hrows h)
  intro got rest hperm hsorted next
  have hmem : ∀ r ∈ got ++ rest, r ∈ table := fun r hr =>
    List.mem_of_mem_filter (hperm.mem_iff.mp hr)
  have hstrict : (got.map (tableRecord db e args.config sql'.columns) ++
      rest.map (tableRecord db e args.config sql'.columns)).Pairwise
      fun x y => recordPlace db k x < recordPlace db k y := by
    rw [← List.map_append, List.pairwise_map]
    refine (strictly_sorted hk hperm hsorted).imp_of_mem fun {r s} hr hs h => ?_
    rw [recordPlace_tableRecord db hk hcs' _ (hmem r hr),
      recordPlace_tableRecord db hk hcs' _ (hmem s hs)]
    exact h
  have hall : Multiset.filter (b < recordPlace db k ·)
      (↑((rowsUpTo db k top table).map (tableRecord db e args.config sql'.columns)) :
        Multiset (Except Err Record)) =
      ↑(got.map (tableRecord db e args.config sql'.columns) ++
        rest.map (tableRecord db e args.config sql'.columns)) := by
    rw [hpage, ← List.map_append]
    exact Multiset.coe_eq_coe.mpr (hperm.symm.map _)
  obtain ⟨hrest, hle, hgot⟩ := Paging.page_lt hall hstrict
  refine ⟨hrest, hle, fun sent held hsent x hx => hgot x ?_⟩
  rw [← hsent]
  simpa [Paging.Attempt.received] using hx

/-- An attempt of a pass fails before it has a statement, or runs the statement of its window. -/
theorem attempt_runs (hk : AutoKeyed e k table) (hargs : args.columns = e.schema.keys)
    {cs : List SelectColumn} (hcs : selectColumns e.schema e.schema.keys = .ok cs) {a : Attempt}
    (ha : Answers db e table a) (hat : At db e k table top st b) :
    Fails args.config (At db e k table top) b (attempt e true args a st) ∨
      ∃ st' sql sql', sql.columns = cs ∧ At db e k table top st' b ∧
        (st'.getBookmark e.tapStreamId "max_pk_values").truthy = true ∧
        (∃ max, pkValue (st'.getBookmark e.tapStreamId "max_pk_values") k = .ok max ∧
          db.bound max = top) ∧
        generatePkClause e st' sql = .ok sql' ∧
        attempt e true args a st = runSelect e args a st' sql' := by
  rcases attempt_cases e args a st with ⟨err, ho, -⟩ | ⟨sql, maximum, -, hm, hf, -⟩ |
    ⟨sql, maximum, hsql, hm, -, ⟨err, ho, hno⟩ | ⟨sql', hclause, ho⟩⟩
  · rw [ho]
    exact Or.inl ⟨rfl, rfl, err, rfl, fun _ => hat⟩
  · simp [(hat.passMaximum hk ha.maxPk hm).1] at hf
  · rw [ho]
    refine Or.inl ⟨rfl, rfl, err, rfl, fun hretry => ?_⟩
    simp [retryable_isOperational hretry] at hno
  · obtain ⟨ht, htop⟩ := hat.passMaximum hk ha.maxPk hm
    have hcols := (generateSelectSql_eq hsql).1
    rw [hargs, hcs, Except.ok.injEq] at hcols
    exact Or.inr ⟨_, sql, sql', hcols.symm, hat.write_max ht htop, by simpa using ht,
      by simpa using htop, hclause, ho⟩

/-- The attempts of a pass over an auto-incrementing key read its pages, each key once. -/
theorem pageReader (hk : IntegerKeyed e k table) (hargs : args.columns = e.schema.keys)
    {cs : List SelectColumn} (hcs : selectColumns e.schema e.schema.keys = .ok cs)
    {server : Nat → Attempt} (hserver : ∀ n, Answers db e table (server n)) :
    PageReader db e args.config table (fun n st => attempt e true args (server n) st)
      ↑((rowsUpTo db k top table).map (tableRecord db e args.config cs)) (recordPlace db k)
      (fun b x => b < recordPlace db k x) (At db e k table top)
      (fun a => ∀ x ∈ a.received, ¬a.bookmark < recordPlace db k x) := by
  intro n st b hat
  rcases attempt_runs hk.autoKeyed hargs hcs (hserver n) hat with
    hfail | ⟨st', sql, sql', rfl, hat', ht, htop, hclause, ho⟩
  · exact Or.inl hfail
  · dsimp only
    rw [ho]
    exact Or.inr (runSelect_page hk hargs (hserver n).select hat' ht htop hcs hclause)

end FullTable

/-! ### A replication key -/

/-- A stream with a replication key, over a table whose keys the server finds again. -/
structure ReplicationKeyed {κ : Type*} [LinearOrder κ] (db : Mysql κ) (e : CatalogEntry)
    (k : String) (config : Option BatchConfig) (table : List TableRow) : Prop where
  method : e.replicationMethod = .incremental
  key : e.streamMetadata "replication-key" = .str k
  typed : TypedSchema e
  readBack : ∀ cs, selectColumns e.schema e.schema.keys = .ok cs →
    Incremental.KeyReadBack db e k config cs table

/-- A stream with an integer replication key. -/
structure IntegerReplicationKeyed (e : CatalogEntry) (k : String) (table : List TableRow) :
    Prop where
  method : e.replicationMethod = .incremental
  key : e.streamMetadata "replication-key" = .str k
  typed : TypedSchema e
  column : ∃ p, e.schema.get? k = some p ∧ IntegerColumn p
  cells : ∀ r ∈ table, r.cell k = .null ∨ ∃ n, r.cell k = .int n

theorem IntegerReplicationKeyed.replicationKeyed {κ : Type*} [LinearOrder κ] {e : CatalogEntry}
    {k : String} {table : List TableRow} (hk : IntegerReplicationKeyed e k table) (db : Mysql κ)
    (config : Option BatchConfig) : ReplicationKeyed db e k config table where
  method := hk.method
  key := hk.key
  typed := hk.typed
  readBack := by
    intro cs hcs
    obtain ⟨p, hp, hint⟩ := hk.column
    exact Incremental.keyReadBack_int db hk.typed hcs hp hint hk.cells

namespace Incremental

variable {κ : Type*} [LinearOrder κ] {db : Mysql κ} {e : CatalogEntry} {k : String}
  {table : List TableRow} {args : SyncArgs} {st : State} {b : WithBot κ}

def recordPlace (db : Mysql κ) (e : CatalogEntry) (k : String) (x : Except Err Record) :
    WithBot κ := paramPlace db e k (recordKey k x)

/-- The state asks for the keys from `b` on. -/
structure At (db : Mysql κ) (e : CatalogEntry) (k : String) (st : State) (b : WithBot κ) :
    Prop where
  key : st.getBookmark e.tapStreamId "replication_key" = .str k
  floor : keyFloor db e k st = b

theorem attempt_cases (e : CatalogEntry) (args : SyncArgs) (a : Attempt) (value : Val)
    (st : State) :
    (∃ err, attempt e args a value st = .failed st err) ∨
    ∃ sql sql', generateSelectSql e args.columns = .ok sql ∧
      whereClause e (e.streamMetadata "replication-key") value sql = .ok sql' ∧
      attempt e args a value st = runSelect e args a st sql' := by
  rw [attempt]
  cases hs : generateSelectSql e args.columns with
  | error err => exact Or.inl ⟨err, rfl⟩
  | ok sql =>
    cases hw : whereClause e (e.streamMetadata "replication-key") value sql with
    | error err => exact Or.inl ⟨err, by simp [hw]⟩
    | ok sql' => exact Or.inr ⟨sql, sql', rfl, hw, by simp [hw]⟩

theorem page_eq (hk : ReplicationKeyed db e k args.config table) {sql sql' : SelectSql}
    (hcs : selectColumns e.schema e.schema.keys = .ok sql.columns) (hsql : sql.conditions = [])
    (hat : At db e k st b)
    (h : whereClause e (e.streamMetadata "replication-key")
      (st.getBookmark e.tapStreamId "replication_key_value") sql = .ok sql') :
    sql'.columns = sql.columns ∧ sql'.orderBy = [k] ∧
      Multiset.filter (b ≤ recordPlace db e k ·)
        (↑(table.map (tableRecord db e args.config sql.columns))) =
        (↑((db.matching sql' table).map (tableRecord db e args.config sql.columns)) :
          Multiset (Except Err Record)) := by
  rw [hk.key] at h
  obtain ⟨hcols, horder, hsel⟩ := whereClause_ok db hsql h
  refine ⟨hcols, horder, ?_⟩
  rw [Multiset.filter_coe, List.filter_map]
  congr 2
  rw [Mysql.matching]
  refine List.filter_congr fun r hr => ?_
  have hplace : recordPlace db e k (tableRecord db e args.config sql.columns r) =
      db.place (r.cell k) := hk.readBack _ hcs r hr
  rw [Bool.eq_iff_iff, hsel r]
  simp only [Function.comp_apply, hplace, decide_eq_true_eq]
  rw [← hat.floor]
  rfl

theorem at_of_bookmarkOf (hmethod : e.replicationMethod = .incremental) (hat : At db e k st b)
    {names : List String} {rows : List Row} {st' : State}
    (h : BookmarkOf e e.schema.keys args.config names st rows st') :
    At db e k st' (Paging.bookmarkAfter (recordPlace db e k) b
      (rows.map (rowRecord e e.schema.keys args.config names))) := by
  obtain ⟨hkey, hfloor⟩ := bookmarkOf_key db hmethod hat.key h
  refine ⟨hkey, ?_⟩
  rw [hfloor, Paging.bookmarkAfter, List.getLast?_map]
  cases rows.getLast? with
  | none => exact hat.floor
  | some row => rfl

theorem runSelect_page (hk : ReplicationKeyed db e k args.config table)
    (hargs : args.columns = e.schema.keys) {a : Attempt} (ha : Answers db e table a)
    (hat : At db e k st b) {sql sql' : SelectSql}
    (hcs : selectColumns e.schema e.schema.keys = .ok sql.columns) (hsql : sql.conditions = [])
    (hclause : whereClause e (e.streamMetadata "replication-key")
      (st.getBookmark e.tapStreamId "replication_key_value") sql = .ok sql') :
    let M : Multiset (Except Err Record) :=
      ↑(table.map (tableRecord db e args.config sql.columns))
    let asked := fun (b : WithBot κ) (x : Except Err Record) => b ≤ recordPlace db e k x
    Reads db e args.config table M (recordPlace db e k) asked (At db e k) (fun _ => True) b
      (runSelect e args a st sql') := by
  intro M asked
  obtain ⟨hcols, horder, hpage⟩ := page_eq hk hcs hsql hat hclause
  have hcs' : selectColumns e.schema e.schema.keys = .ok sql'.columns := by rw [hcols, hcs]
  rw [← hcols] at hpage
  have hM : M = ↑(table.map (tableRecord db e args.config sql'.columns)) := by rw [hcols]
  rw [hM]
  refine runSelect_reads rfl hargs (ha.select sql') hcs' horder hpage ?_
    (fun _ st' _ h => at_of_bookmarkOf hk.method hat h)
  intro got rest hperm hsorted next
  have hmem : ∀ r ∈ got ++ rest, r ∈ table := fun r hr =>
    List.mem_of_mem_filter (hperm.mem_iff.mp hr)
  have hplaces : (got.map (tableRecord db e args.config sql'.columns) ++
      rest.map (tableRecord db e args.config sql'.columns)).Pairwise
      fun x y => recordPlace db e k x ≤ recordPlace db e k y := by
    rw [← List.map_append, List.pairwise_map]
    refine hsorted.imp_of_mem fun {r s} hr hs h => ?_
    have hr' : recordPlace db e k (tableRecord db e args.config sql'.columns r) =
      db.place (r.cell k) := hk.readBack _ hcs' r (hmem r hr)
    have hs' : recordPlace db e k (tableRecord db e args.config sql'.columns s) =
      db.place (s.cell k) := hk.readBack _ hcs' s (hmem s hs)
    rw [hr', hs']
    exact h
  have hall : Multiset.filter (b ≤ recordPlace db e k ·)
      (↑(table.map (tableRecord db e args.config sql'.columns)) : Multiset (Except Err Record)) =
      ↑(got.map (tableRecord db e args.config sql'.columns) ++
        rest.map (tableRecord db e args.config sql'.columns)) := by
    rw [hpage, ← List.map_append]
    exact Multiset.coe_eq_coe.mpr (hperm.symm.map _)
  obtain ⟨hrest, hle⟩ := Paging.page_le hall hplaces
  exact ⟨hrest, hle, fun _ _ _ => trivial⟩

/-- An attempt fails before it has a statement, or runs the statement of its bookmark value. -/
theorem attempt_runs (hargs : args.columns = e.schema.keys) {cs : List SelectColumn}
    (hcs : selectColumns e.schema e.schema.keys = .ok cs) (a : Attempt) (hat : At db e k st b) :
    Fails args.config (At db e k) b
        (attempt e args a (st.getBookmark e.tapStreamId "replication_key_value") st) ∨
      ∃ sql sql', sql.columns = cs ∧ sql.conditions = [] ∧
        whereClause e (e.streamMetadata "replication-key")
          (st.getBookmark e.tapStreamId "replication_key_value") sql = .ok sql' ∧
        attempt e args a (st.getBookmark e.tapStreamId "replication_key_value") st =
          runSelect e args a st sql' := by
  rcases attempt_cases e args a (st.getBookmark e.tapStreamId "replication_key_value") st with
    ⟨err, ho⟩ | ⟨sql, sql', hsql, hclause, ho⟩
  · rw [ho]
    exact Or.inl ⟨rfl, rfl, err, rfl, fun _ => hat⟩
  · obtain ⟨hcols, hconds, -⟩ := generateSelectSql_eq hsql
    rw [hargs, hcs, Except.ok.injEq] at hcols
    exact Or.inr ⟨sql, sql', hcols.symm, hconds, hclause, ho⟩

/-- The attempts over a replication key read pages of the table. -/
theorem pageReader (hk : ReplicationKeyed db e k args.config table)
    (hargs : args.columns = e.schema.keys) {cs : List SelectColumn}
    (hcs : selectColumns e.schema e.schema.keys = .ok cs) {server : Nat → Attempt}
    (hserver : ∀ n, Answers db e table (server n)) :
    PageReader db e args.config table
      (fun n st => attempt e args (server n)
        (st.getBookmark e.tapStreamId "replication_key_value") st)
      ↑(table.map (tableRecord db e args.config cs)) (recordPlace db e k)
      (fun b x => b ≤ recordPlace db e k x) (At db e k) (fun _ => True) := by
  intro n st b hat
  rcases attempt_runs hargs hcs (server n) hat with
    hfail | ⟨sql, sql', rfl, hconds, hclause, ho⟩
  · exact Or.inl hfail
  · dsimp only
    rw [ho]
    exact Or.inr (runSelect_page hk hargs (hserver n) hat hcs hconds hclause)

end Incremental

/-! ### A small table -/

namespace Sample

def idSchema : Schema :=
  Dict.ofList [("id", { PropSchema.blank with
    type := some ["null", "integer"], inclusion := some .automatic })]

def streamOf (method : String) : CatalogEntry where
  tapStreamId := "db-t"
  stream := "db-t"
  table := "t"
  metadata := Dict.ofList [([], Dict.ofList [("database-name", .str "db"),
    ("replication-method", .str method), ("replication-key", .str "id"),
    ("table-key-properties", .list [.str "id"])])]
  schema := idSchema

def row (n : Int) : TableRow := Dict.ofList [("id", .int n)]

def connectionLost : Err := ⟨.operationalError, "Lost connection to MySQL server during query"⟩

/-- A server that cuts off the fetch of some attempts after some rows. -/
def serverOf (table : List TableRow) (cut : Nat → Option (Nat × Err)) (n : Nat) : Attempt where
  maxPk := .ok (intServer.maxPk table ["id"])
  select := intServer.deliver table (cut n)

theorem serverOf_answers {method : String} (table : List TableRow)
    (hkeys : (streamOf method).getKeyProperties = ["id"]) (cut : Nat → Option (Nat × Err))
    (n : Nat) : Answers intServer (streamOf method) table (serverOf table cut n) := by
  refine ⟨fun result h => ?_, fun sql => intServer.deliver_spec table (cut n) sql⟩
  rw [hkeys]
  cases h
  exact intServer.maxPk_spec table ["id"]

theorem integerColumn_id : idSchema.get? "id" = some { PropSchema.blank with
      type := some ["null", "integer"], inclusion := some .automatic } ∧
    IntegerColumn { PropSchema.blank with
      type := some ["null", "integer"], inclusion := some .automatic } :=
  ⟨by decide, rfl, rfl⟩

theorem typedSchema (method : String) : TypedSchema (streamOf method) := by
  have h : ∀ p ∈ idSchema.entries, p.2.type.isSome := by decide
  exact h

theorem integerKeyed {method : String} {ids : List Int} (hids : ids.Nodup)
    (hkeys : (streamOf method).getKeyProperties = ["id"])
    (hmethod : (streamOf method).replicationMethod = .fullTable ∨
      (streamOf method).replicationMethod = .logBased) :
    IntegerKeyed (streamOf method) "id" (ids.map row) where
  keys := hkeys
  method := hmethod
  typed := typedSchema method
  column := ⟨_, integerColumn_id⟩
  cells := by
    intro r hr
    obtain ⟨n, -, rfl⟩ := List.mem_map.mp hr
    exact ⟨n, rfl⟩
  nodup := by
    rw [List.map_map]
    refine hids.map fun m n h => ?_
    have hcell : Val.int m = Val.int n := h
    exact Val.int.inj hcell

end Sample

end TapMysql
