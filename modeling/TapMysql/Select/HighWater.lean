import TapMysql.Rendering
import TapMysql.Select.KeyKinds
import TapMysql.Select.Sync

/-!
# The replication key value over many runs

A run of an INCREMENTAL stream writes the key of its last row to the bookmark, and the next run
asks for the rows from there on. The rows come in the order of the key, NULL first, so the last
key is the largest; whatever happens to the table between two runs, the bookmark never decreases.
-/

namespace TapMysql

/-! ### The largest key of some values -/

/-- The largest key, or nothing if all values are NULL. -/
def highest (keys : List Val) : WithBot Key := (keys.map cellKey).foldr max ⊥

theorem highest_le_iff {keys : List Val} {b : WithBot Key} :
    highest keys ≤ b ↔ ∀ v ∈ keys, cellKey v ≤ b := by
  rw [highest]
  induction keys with
  | nil => simp
  | cons v vs ih => rw [List.map_cons, List.foldr_cons, sup_le_iff, ih, List.forall_mem_cons]

theorem max_highest_append (b : WithBot Key) (keys keys' : List Val) :
    max b (highest (keys ++ keys')) = max (max b (highest keys)) (highest keys') := by
  refine eq_of_forall_ge_iff fun c => ?_
  simp only [sup_le_iff, highest_le_iff, List.forall_mem_append, and_assoc]

/-! ### The rows that a statement returns -/

/-- The values of a column in the rows of a result. -/
def Fetch.column (f : Fetch) (k : String) : List Val :=
  f.rows.map fun row => ((Dict.ofList (f.names.zip row)).get? k).getD .null

namespace Incremental

section Page

variable {κ : Type*} [LinearOrder κ] {db : Mysql κ} {kind : KeyKind} {e : CatalogEntry}
  {k : String} {p : PropSchema} {table : List TableRow} {st : State} {v : Val}

variable (db) in
theorem mem_zip_project {sql : SelectSql}
    (hcs : selectColumns e.schema e.schema.keys = .ok sql.columns)
    (hp : e.schema.get? k = some p) (hcolumn : kind.Column p) (r : TableRow) :
    (k, r.cell k) ∈ e.schema.keys.zip (db.project sql r) := by
  obtain ⟨hbinary, hspatial⟩ := hcolumn.formats
  have hplain := selectColumns_plain hcs (Dict.mem_keys_iff.mpr ⟨p, hp⟩) hp hbinary hspatial
  rw [← selectColumns_names hcs, Mysql.project, List.zip_map']
  exact List.mem_map.mpr ⟨_, hplain, rfl⟩

/-- The page of a statement that asks for the keys from `b` on: the rows `got` that the client
received, in the order of their keys, before those that it did not. -/
structure KeyPage (db : Mysql κ) (k : String) (table : List TableRow) (sql : SelectSql)
    (f : Fetch) (b : WithBot Key) (got : List TableRow) : Prop where
  rows : f.rows = got.map (db.project sql)
  column : f.column k = got.map fun r => r.cell k
  stored : ∀ r ∈ got, r ∈ table
  above : ∀ r ∈ got, b ≤ cellKey (r.cell k)
  sorted : got.Pairwise fun r s => cellKey (r.cell k) ≤ cellKey (s.cell k)
  left : ∀ r ∈ table, b ≤ cellKey (r.cell k) → r ∈ got ∨
    (f.error ≠ none ∧ ∀ s ∈ got, cellKey (s.cell k) ≤ cellKey (r.cell k))

theorem keyPage (hdb : db.OrdersDateTimes) (hp : e.schema.get? k = some p)
    (hcolumn : kind.Column p) (hcells : ∀ r ∈ table, kind.Cell (r.cell k)) {sql : SelectSql}
    {f : Fetch} (hd : db.Delivers table sql f)
    (hcs : selectColumns e.schema e.schema.keys = .ok sql.columns) (horder : sql.orderBy = [k])
    {cell : Val} (hcell : kind.Cell cell)
    (hsel : ∀ r, db.selects sql r = true ↔ db.place cell ≤ db.place (r.cell k)) :
    ∃ got, KeyPage db k table sql f (cellKey cell) got := by
  obtain ⟨got, rest, hanswer, hrows, hend⟩ := hd.rows
  have hmem : ∀ r, r ∈ got ++ rest ↔ r ∈ table ∧ cellKey cell ≤ cellKey (r.cell k) := by
    intro r
    rw [hanswer.perm.mem_iff, Mysql.matching, List.mem_filter, hsel]
    exact and_congr_right fun hr => place_le_iff hdb hcell (hcells r hr)
  have hsorted : (got ++ rest).Pairwise fun r s => cellKey (r.cell k) ≤ cellKey (s.cell k) := by
    have hpairs := hanswer.sorted
    rw [horder] at hpairs
    refine hpairs.imp_of_mem fun {r s} hr hs h => ?_
    exact (place_le_iff hdb (hcells r ((hmem r).mp hr).1) (hcells s ((hmem s).mp hs).1)).mp
      (ordered_single h)
  obtain ⟨hgot, -, hcross⟩ := List.pairwise_append.mp hsorted
  refine ⟨got, hrows, ?_, fun r hr => ((hmem r).mp (List.mem_append_left _ hr)).1,
    fun r hr => ((hmem r).mp (List.mem_append_left _ hr)).2, hgot, fun r hr hb => ?_⟩
  · rw [Fetch.column, hrows, List.map_map, hd.names, selectColumns_names hcs]
    refine List.map_congr_left fun r _ => ?_
    have hin := mem_zip_project db hcs hp hcolumn r
    rw [Function.comp_apply, Dict.get?_ofList_of_mem (nodup_zip_names e.schema.keys_nodup _) hin]
    rfl
  · rcases List.mem_append.mp ((hmem r).mpr ⟨hr, hb⟩) with hr | hr
    · exact Or.inl hr
    · refine Or.inr ⟨fun herr => ?_, fun s hs => hcross s hs r hr⟩
      rw [hend herr] at hr
      cases hr

/-! ### One attempt -/

/-- The values of the replication key in the rows that a sync was given. -/
def returnedKeys (k : String) (o : Outcome) : List Val :=
  o.executed.flatMap fun x => x.2.column k

/-- The record of a stored row is among the messages. -/
def Emitted (db : Mysql κ) (e : CatalogEntry) (messages : List Message) (r : TableRow) : Prop :=
  ∃ cs record, selectColumns e.schema e.schema.keys = .ok cs ∧
    tableRecord db e none cs r = .ok record ∧ record ∈ published messages

/-- What an attempt does from the bookmark value `v`. -/
structure Advances (db : Mysql κ) (kind : KeyKind) (e : CatalogEntry) (k : String)
    (table : List TableRow) (v : Val) (o : Outcome) : Prop where
  key : o.state.getBookmark e.tapStreamId "replication_key" = .str k
  stored : kind.Stored (o.state.getBookmark e.tapStreamId "replication_key_value")
  highest : bookmarkKey (o.state.getBookmark e.tapStreamId "replication_key_value") =
    max (bookmarkKey v) (highest (returnedKeys k o))
  emitted : ∀ r ∈ table, bookmarkKey v ≤ cellKey (r.cell k) → Emitted db e o.messages r ∨
    (o.error ≠ none ∧ bookmarkKey (o.state.getBookmark e.tapStreamId "replication_key_value") ≤
      cellKey (r.cell k))

theorem Emitted.append {messages : List Message} {r : TableRow} (h : Emitted db e messages r)
    (before after : List Message) : Emitted db e (before ++ messages ++ after) r := by
  obtain ⟨cs, record, hcs, hrecord, hmem⟩ := h
  refine ⟨cs, record, hcs, hrecord, ?_⟩
  rw [published_append, published_append]
  exact List.mem_append_left _ (List.mem_append_right _ hmem)

/-- A query over the page leaves the key of its last row, the largest, or what was there. -/
theorem bookmark_of_page (hk : KeyedStream kind k e)
    (hkey : st.getBookmark e.tapStreamId "replication_key" = .str k)
    (hcells : ∀ r ∈ table, kind.Cell (r.cell k)) {sql : SelectSql} {f : Fetch}
    (hcs : selectColumns e.schema e.schema.keys = .ok sql.columns) {cell : Val}
    (hcell : kind.Cell cell)
    (hvalue : st.getBookmark e.tapStreamId "replication_key_value" = storedKey cell)
    {got : List TableRow} (hpage : KeyPage db k table sql f (cellKey cell) got) {st' : State}
    (h : BookmarkOf e e.schema.keys none f.names st f.rows st') :
    st'.getBookmark e.tapStreamId "replication_key" = .str k ∧
    ∃ cell', kind.Cell cell' ∧
      st'.getBookmark e.tapStreamId "replication_key_value" = storedKey cell' ∧
      cellKey cell' = max (cellKey cell) (highest (f.column k)) := by
  obtain ⟨hkey', hvalue'⟩ := bookmarkOf_value hk.method hkey h
  refine ⟨hkey', ?_⟩
  rw [hpage.rows, List.getLast?_map] at hvalue'
  rcases List.eq_nil_or_concat got with hnil | ⟨init, r, hgot⟩
  · refine ⟨cell, hcell, by rw [hvalue', hnil, ← hvalue]; rfl, ?_⟩
    rw [hpage.column, hnil]
    simp [TapMysql.highest]
  · rw [List.concat_eq_append] at hgot
    have hmem : r ∈ got := by simp [hgot]
    have hr := hcells r (hpage.stored r hmem)
    refine ⟨r.cell k, hr, ?_, ?_⟩
    · -- the last record holds the key of the last row
      have hlast : f.rows.getLast? = some (db.project sql r) := by
        rw [hpage.rows, hgot]
        simp
      unfold BookmarkOf After at h
      rw [hlast] at h
      obtain ⟨record, hrecord, -⟩ := h
      obtain ⟨p, hp, hcolumn⟩ := hk.column
      have hfield := (snapshotReads_iff hp (renderElem_cell hcolumn hr)).mpr rfl
        (db.project sql r) e.schema.keys record e.schema.keys_nodup
        (mem_zip_project db hcs hp hcolumn r) (by simpa [rowRecord, isArrow] using hrecord)
      rw [hvalue', hgot, List.getLast?_concat, Option.map_some]
      simp [hrecord, recordKey, hfield]
    · refine eq_of_forall_ge_iff fun b => ?_
      rw [sup_le_iff, highest_le_iff, hpage.column, List.forall_mem_map]
      constructor
      · intro hle
        refine ⟨(hpage.above r hmem).trans hle, fun s hs => ?_⟩
        rw [hgot] at hs
        rcases List.mem_append.mp hs with hs | hs
        · have hsorted := hpage.sorted
          rw [hgot, List.pairwise_append] at hsorted
          exact (hsorted.2.2 s hs r (List.mem_singleton_self r)).trans hle
        · rwa [List.mem_singleton.mp hs]
      · exact fun hle => hle.2 r hmem

theorem failed_advances (hkey : st.getBookmark e.tapStreamId "replication_key" = .str k)
    (hstored : kind.Stored (st.getBookmark e.tapStreamId "replication_key_value")) (err : Err) :
    Advances db kind e k table (st.getBookmark e.tapStreamId "replication_key_value")
      (.failed st err) where
  key := hkey
  stored := hstored
  highest := (sup_eq_left.mpr bot_le).symm
  emitted := fun _ _ hle => Or.inr ⟨Option.some_ne_none _, hle⟩

/-- In RECORD mode every row received is published, whether or not the fetch was cut off. -/
theorem runSelect_record {args : SyncArgs} (hargs : args.columns = e.schema.keys)
    (hconfig : args.config = none) {a : Attempt} {sql : SelectSql}
    (hend : ∀ err, (runSelect e args a st sql).error = some err → err.isOperational = true) :
    (runSelect e args a st sql).error = (a.select sql).error ∧
      (published (runSelect e args a st sql).messages).map Except.ok =
        (a.select sql).rows.map (rowRecord e e.schema.keys none (a.select sql).names) ∧
      BookmarkOf e e.schema.keys none (a.select sql).names st (a.select sql).rows
        (runSelect e args a st sql).state := by
  cases herr : (runSelect e args a st sql).error with
  | none =>
    obtain ⟨hferr, hquery⟩ := runSelect_returns hconfig hargs herr
    exact ⟨hferr.symm, hquery⟩
  | some err =>
    obtain ⟨hferr, hmsgs, hbookmark⟩ := runSelect_raises hconfig hargs herr (hend err herr)
    rw [announcedRows_none] at hmsgs
    exact ⟨hferr.symm, hmsgs, hbookmark⟩

theorem attempt_advances (hdb : db.OrdersDateTimes) (hk : KeyedStream kind k e)
    (hcells : ∀ r ∈ table, kind.Cell (r.cell k)) {args : SyncArgs}
    (hargs : args.columns = e.schema.keys) (hconfig : args.config = none) {a : Attempt}
    (ha : Answers db e table a) (hkey : st.getBookmark e.tapStreamId "replication_key" = .str k)
    (hstored : kind.Stored (st.getBookmark e.tapStreamId "replication_key_value"))
    (hend : ∀ err, (attempt e args a (st.getBookmark e.tapStreamId "replication_key_value")
      st).error = some err → err.isOperational = true) :
    Advances db kind e k table (st.getBookmark e.tapStreamId "replication_key_value")
      (attempt e args a (st.getBookmark e.tapStreamId "replication_key_value") st) := by
  rcases attempt_cases e args a (st.getBookmark e.tapStreamId "replication_key_value") st with
    ⟨err, ho⟩ | ⟨sql, sql', hsql, hclause, ho⟩
  · rw [ho]
    exact failed_advances hkey hstored err
  obtain ⟨p, hp, hcolumn⟩ := hk.column
  obtain ⟨cell, hcell, hvalue⟩ := hstored
  obtain ⟨hcs, hconditions, -⟩ := generateSelectSql_eq hsql
  rw [hk.key] at hclause
  obtain ⟨hcols, horder, hsel⟩ := whereClause_ok db hconditions hclause
  rw [hargs, ← hcols] at hcs
  rw [hvalue, paramPlace_storedKey hdb hp hcolumn hcell] at hsel
  obtain ⟨got, hpage⟩ := keyPage hdb hp hcolumn hcells (ha.select sql') hcs horder hcell hsel
  rw [ho] at hend ⊢
  set f := a.select sql' with hf
  obtain ⟨herror, hmsgs, hbookmark⟩ := runSelect_record hargs hconfig hend
  obtain ⟨hkey', cell', hcell', hvalue', hmax⟩ :=
    bookmark_of_page hk hkey hcells hcs hcell hvalue hpage hbookmark
  have hreturned : returnedKeys k (runSelect e args a st sql') = f.column k := by
    rw [returnedKeys]
    exact List.append_nil _
  refine ⟨hkey', ⟨cell', hcell', hvalue'⟩, ?_, fun r hr hle => ?_⟩
  · rw [hvalue', hvalue, bookmarkKey_storedKey hcell', bookmarkKey_storedKey hcell, hmax,
      hreturned]
  · rw [hvalue, bookmarkKey_storedKey hcell] at hle
    rcases hpage.left r hr hle with hr | ⟨hferr, hlater⟩
    · refine Or.inl ?_
      have hin : tableRecord db e none sql'.columns r ∈
          (published (runSelect e args a st sql').messages).map Except.ok := by
        rw [hmsgs, hpage.rows, (ha.select sql').names, selectColumns_names hcs, List.map_map]
        exact List.mem_map_of_mem hr
      obtain ⟨record, hrecord, heq⟩ := List.mem_map.mp hin
      exact ⟨_, record, hcs, heq.symm, hrecord⟩
    · refine Or.inr ⟨herror ▸ hferr, ?_⟩
      rw [hvalue', bookmarkKey_storedKey hcell', hmax, sup_le_iff, highest_le_iff, hpage.column,
        List.forall_mem_map]
      exact ⟨hle, hlater⟩

theorem Advances.andThen {o next : Outcome}
    (h : Advances db kind e k table v o)
    (hnext : Advances db kind e k table
      (o.state.getBookmark e.tapStreamId "replication_key_value") next) :
    Advances db kind e k table v (o.andThen next) where
  key := hnext.key
  stored := hnext.stored
  highest := by
    have hkeys : returnedKeys k (o.andThen next) = returnedKeys k o ++ returnedKeys k next :=
      List.flatMap_append
    rw [hkeys, max_highest_append, ← h.highest]
    exact hnext.highest
  emitted := by
    intro r hr hle
    have hmsgs : (o.andThen next).messages = o.messages ++ next.messages := rfl
    rcases h.emitted r hr hle with hemitted | ⟨-, hlater⟩
    · exact Or.inl (hemitted.append [] next.messages)
    · refine (hnext.emitted r hr hlater).imp_left fun hemitted => ?_
      have hin := hemitted.append o.messages []
      rwa [List.append_nil, ← hmsgs] at hin

/-! ### A whole run -/

theorem tried_advances (hdb : db.OrdersDateTimes) (hk : KeyedStream kind k e)
    (hcells : ∀ r ∈ table, kind.Cell (r.cell k)) {args : SyncArgs}
    (hargs : args.columns = e.schema.keys) (hconfig : args.config = none)
    {server : Nat → Attempt} (hserver : ∀ n, Answers db e table (server n)) {n : Nat}
    {o : Outcome} (h : Tried none (body e args server) n st o)
    (hkey : st.getBookmark e.tapStreamId "replication_key" = .str k)
    (hstored : kind.Stored (st.getBookmark e.tapStreamId "replication_key_value")) :
    Advances db kind e k table (st.getBookmark e.tapStreamId "replication_key_value") o := by
  induction h with
  | @returned n st hret =>
    refine attempt_advances hdb hk hcells hargs hconfig (hserver n) hkey hstored fun err herr => ?_
    rw [← body, hret] at herr
    cases herr
  | @retried n st err o herr hretry _ ih =>
    have hfirst := attempt_advances hdb hk hcells hargs hconfig (hserver n) hkey hstored
      fun err' herr' => by
        rw [← body, herr, Option.some.injEq] at herr'
        exact herr' ▸ retryable_isOperational hretry
    exact hfirst.andThen (ih hfirst.key hfirst.stored)

/-- The value that a run with the replication key `k` starts from. -/
def bookmarkValue (tapStreamId k : String) (st : State) : Val :=
  if st.getBookmark tapStreamId "replication_key" = .str k then
    st.getBookmark tapStreamId "replication_key_value"
  else .null

theorem startState_value (hkey : e.streamMetadata "replication-key" = .str k) (st : State) :
    (startState e st).2 = bookmarkValue e.tapStreamId k st := by
  rw [startState, bookmarkValue]
  simp only [hkey, getBookmark_whitelistBookmarkKeys, bookmarkKeys, eq_comm]
  split_ifs <;> simp_all

theorem syncTable_advances (hdb : db.OrdersDateTimes) (hk : KeyedStream kind k e)
    (hcells : ∀ r ∈ table, kind.Cell (r.cell k)) {args : SyncArgs}
    (hargs : args.columns = e.schema.keys) (hconfig : args.config = none)
    {server : Nat → Attempt} (hserver : ∀ n, Answers db e table (server n)) {now : Int}
    (hstored : kind.Stored (bookmarkValue e.tapStreamId k st))
    (hret : (syncTable e server args now st).error = none) :
    Advances db kind e k table (bookmarkValue e.tapStreamId k st)
      (syncTable e server args now st) := by
  obtain ⟨hsync, -⟩ := syncTable_loop server args now st hk.key
  obtain ⟨hat, hvalue⟩ := versioned_at db st now hk.key
  rw [startState_value hk.key] at hvalue
  rw [hsync] at hret ⊢
  have htried := attempts_returns (by decide) hret
  rw [hconfig] at htried ⊢
  have hversioned : (versionedArgs e args now st).columns = e.schema.keys := hargs
  have hloop := tried_advances hdb hk hcells hversioned hconfig
    hserver htried hat.key (hvalue ▸ hstored)
  rw [hvalue] at hloop
  refine ⟨hloop.key, hloop.stored, hloop.highest, fun r hr hle => ?_⟩
  exact (hloop.emitted r hr hle).imp_left fun hemitted => by
    simpa using hemitted.append [.activateVersion e.stream _] []

/-! ### Many runs -/

/-- A run with the catalog and the table as they are at its time. -/
structure KeyRun where
  entry : CatalogEntry
  table : List TableRow
  server : Nat → Attempt
  args : SyncArgs
  now : Int

def KeyRun.outcome (r : KeyRun) (st : State) : Outcome :=
  syncTable r.entry r.server r.args r.now st

/-- The run from the state is completed, in RECORD mode, with the replication key `k`. -/
structure KeyRun.Completes (db : Mysql κ) (kind : KeyKind) (tapStreamId k : String) (r : KeyRun)
    (st : State) : Prop where
  stream : r.entry.tapStreamId = tapStreamId
  keyed : KeyedStream kind k r.entry
  cells : ∀ row ∈ r.table, kind.Cell (row.cell k)
  columns : r.args.columns = r.entry.schema.keys
  recordMode : r.args.config = none
  answers : ∀ n, Answers db r.entry r.table (r.server n)
  returns : (r.outcome st).error = none

/-- Completed runs, each from the state that the one before it left. -/
inductive KeyRuns (db : Mysql κ) (kind : KeyKind) (tapStreamId k : String) :
    State → List KeyRun → State → Prop
  | start (st : State) : KeyRuns db kind tapStreamId k st [] st
  | run {st st' : State} {runs : List KeyRun} {r : KeyRun} :
      KeyRuns db kind tapStreamId k st runs st' → r.Completes db kind tapStreamId k st' →
      KeyRuns db kind tapStreamId k st (runs ++ [r]) (r.outcome st').state

variable {tapStreamId : String} {r : KeyRun}

theorem bookmarkValue_of_key (hkey : st.getBookmark tapStreamId "replication_key" = .str k) :
    bookmarkValue tapStreamId k st = st.getBookmark tapStreamId "replication_key_value" :=
  if_pos hkey

theorem KeyRun.Completes.advances (hdb : db.OrdersDateTimes)
    (h : r.Completes db kind tapStreamId k st)
    (hstored : kind.Stored (bookmarkValue tapStreamId k st)) :
    Advances db kind r.entry k r.table (bookmarkValue tapStreamId k st) (r.outcome st) ∧
      bookmarkValue tapStreamId k (r.outcome st).state =
        (r.outcome st).state.getBookmark tapStreamId "replication_key_value" := by
  obtain ⟨rfl, hkeyed, hcells, hcolumns, hrecord, hanswers, hreturns⟩ := h
  have hadvances := syncTable_advances hdb hkeyed hcells hcolumns hrecord hanswers hstored hreturns
  exact ⟨hadvances, bookmarkValue_of_key hadvances.key⟩

/-- What every sequence of runs keeps of the bookmark that it starts from. -/
theorem keyRuns_stored (hdb : db.OrdersDateTimes) {st₀ : State} {runs : List KeyRun}
    (hstart : kind.Stored (bookmarkValue tapStreamId k st₀))
    (h : KeyRuns db kind tapStreamId k st₀ runs st) :
    kind.Stored (bookmarkValue tapStreamId k st) ∧
      bookmarkKey (bookmarkValue tapStreamId k st₀) ≤
        bookmarkKey (bookmarkValue tapStreamId k st) := by
  induction h with
  | start => exact ⟨hstart, le_rfl⟩
  | @run st' _ r _ hr ih =>
    obtain ⟨hstored, hle⟩ := ih
    obtain ⟨hadvances, hvalue⟩ := hr.advances hdb hstored
    have hhighest := hadvances.highest
    have hstored' := hadvances.stored
    rw [hr.stream, ← hvalue] at hhighest hstored'
    exact ⟨hstored', hhighest ▸ hle.trans le_sup_left⟩

end Page

end Incremental

open Incremental

/-- After any completed runs the bookmark has not decreased, and the next run sets it to the
largest of its value and the keys that the run returned, and emits every row that has a key from
the value on. The next run binds a time stamp as the date and time that it was written for, and
a bookmark of another key counts as none. -/
theorem replication_key_high_water {κ : Type*} [LinearOrder κ] {db : Mysql κ}
    (hdb : db.OrdersDateTimes) {kind : KeyKind} {tapStreamId k : String} {st₀ st : State}
    {runs : List KeyRun} (hstart : kind.Stored (bookmarkValue tapStreamId k st₀))
    (hruns : KeyRuns db kind tapStreamId k st₀ runs st) :
    bookmarkKey (bookmarkValue tapStreamId k st₀) ≤
        bookmarkKey (bookmarkValue tapStreamId k st) ∧
      ∀ r : KeyRun, r.Completes db kind tapStreamId k st →
        bookmarkKey (bookmarkValue tapStreamId k (r.outcome st).state) =
            max (bookmarkKey (bookmarkValue tapStreamId k st))
              (highest (returnedKeys k (r.outcome st))) ∧
          (∀ row ∈ r.table, bookmarkKey (bookmarkValue tapStreamId k st) ≤ cellKey (row.cell k) →
            Emitted db r.entry (r.outcome st).messages row) ∧
          (kind = .dateTime → bookmarkValue tapStreamId k st ≠ .null → ∃ d : DateTime,
            bookmarkValue tapStreamId k st = .str (d.isoformat ++ "+00:00") ∧
              boundValue r.entry k (bookmarkValue tapStreamId k st) = .ok (.datetime d)) ∧
          (startState r.entry st).2 = bookmarkValue tapStreamId k st ∧
          (st.getBookmark tapStreamId "replication_key" ≠ .str k →
            (startState r.entry st).2 = .null) := by
  obtain ⟨hstored, hle⟩ := keyRuns_stored hdb hstart hruns
  refine ⟨hle, fun r hr => ?_⟩
  obtain ⟨hadvances, hvalue⟩ := hr.advances hdb hstored
  have hstartState : (startState r.entry st).2 = bookmarkValue tapStreamId k st := by
    rw [startState_value hr.keyed.key, hr.stream]
  refine ⟨?_, fun row hrow hb => ?_, fun hkind hne => ?_, hstartState, fun hother => ?_⟩
  · have hhighest := hadvances.highest
    rwa [hr.stream, ← hvalue] at hhighest
  · rcases hadvances.emitted row hrow hb with hemitted | ⟨herr, -⟩
    · exact hemitted
    · exact absurd hr.returns herr
  · subst hkind
    obtain ⟨cell, hcell, hcellValue⟩ := hstored
    obtain ⟨p, hp, hcolumn⟩ := hr.keyed.column
    rw [hcellValue] at hne ⊢
    cases hcell with
    | null => exact absurd rfl hne
    | @datetime d hd =>
      have hformat : p.format = some "date-time" := DateTimeColumn.format hcolumn
      exact ⟨d, rfl, by simp [storedKey, boundValue, hp, hformat, fromisoformat_isoformat hd]⟩
  · rw [hstartState, bookmarkValue, if_neg hother]

/-! ### A run over a time stamp key -/

namespace Sample

/-- A run over rows with these seconds and one with NULL. -/
def stampRun (seconds : List Nat) : KeyRun where
  entry := stampStream
  table := stampRow .null :: seconds.map fun n => stampRow (.datetime (second n))
  server := fun _ => ⟨.error connectionLost, keyServer.deliver
    (stampRow .null :: seconds.map fun n => stampRow (.datetime (second n))) none⟩
  args := ⟨["at"], .null, "2024-03-01T00:00:00Z", none⟩
  now := 7

theorem stampRun_completes {seconds : List Nat} (hseconds : ∀ n ∈ seconds, n < 60) {st : State}
    (hreturns : ((stampRun seconds).outcome st).error = none) :
    (stampRun seconds).Completes keyServer .dateTime "db-t" "at" st where
  stream := rfl
  keyed := stampStream_keyed
  cells := by
    intro row hrow
    rcases List.mem_cons.mp hrow with rfl | hrow
    · exact .null _
    · obtain ⟨n, hn, rfl⟩ := List.mem_map.mp hrow
      exact .datetime (valid_second (hseconds n hn))
  columns := rfl
  recordMode := rfl
  answers := by
    intro n
    refine ⟨fun result h => ?_, fun sql => keyServer.deliver_spec _ none sql⟩
    cases h
  returns := hreturns

/-- A state with the bookmark of a row. -/
def atSecond (n : Nat) : State :=
  (State.empty.writeBookmark "db-t" "replication_key" (.str "at")).writeBookmark "db-t"
    "replication_key_value" (.str ((second n).isoformat ++ "+00:00"))

end Sample

open Sample

/-- The table holds the seconds 4 and 9 when the bookmark is at 5. -/
theorem replication_key_high_water_atFive :
    bookmarkValue "db-t" "at" ((stampRun [4, 9]).outcome (atSecond 5)).state =
        storedKey (.datetime (second 9)) ∧
      cellKey (.datetime (second 9)) =
        max (cellKey (.datetime (second 5))) (highest [.datetime (second 9)]) := by
  have hstart : KeyKind.dateTime.Stored (bookmarkValue "db-t" "at" (atSecond 5)) :=
    ⟨.datetime (second 5), .datetime (valid_second (by decide)), by decide⟩
  have hcompletes : (stampRun [4, 9]).Completes keyServer .dateTime "db-t" "at" (atSecond 5) :=
    stampRun_completes (by decide) (by decide)
  have h := ((replication_key_high_water keyServer_ordersDateTimes hstart (.start _)).2 _
    hcompletes).1
  have hbefore : bookmarkValue "db-t" "at" (atSecond 5) = storedKey (.datetime (second 5)) := by
    decide
  have hafter : bookmarkValue "db-t" "at" ((stampRun [4, 9]).outcome (atSecond 5)).state =
      storedKey (.datetime (second 9)) := by decide
  have hreturned : returnedKeys "at" ((stampRun [4, 9]).outcome (atSecond 5)) =
      [.datetime (second 9)] := by decide +kernel
  rw [hbefore, hafter, hreturned, bookmarkKey_storedKey (.datetime (valid_second (by decide))),
    bookmarkKey_storedKey (.datetime (valid_second (by decide)))] at h
  exact ⟨hafter, h⟩

end TapMysql
