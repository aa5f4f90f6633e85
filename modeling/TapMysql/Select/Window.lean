import TapMysql.Lib.Paging
import TapMysql.Select.Incremental
import TapMysql.Select.Published

/-!
# The rows that a bookmark asks for

The statement that a bookmark leads to returns the rows whose key lies above the bookmark: above
`last_pk_fetched` and up to `max_pk_values` for an auto-incrementing key, at or above
`replication_key_value` for a replication key. The bookmark that a record leaves is read back by
the server as the place of the row's key, for integers always.
-/

namespace TapMysql

/-! ### Rows of a table as records -/

section Records

variable {κ : Type*} [LinearOrder κ] (db : Mysql κ)

/-- Every column that discovery lets a stream take has a type. -/
def TypedSchema (e : CatalogEntry) : Prop := ∀ p ∈ e.schema.entries, p.2.type.isSome

/-- The record of a stored row, as a statement on the columns `cs` returns it. -/
def tableRecord (e : CatalogEntry) (config : Option BatchConfig) (cs : List SelectColumn)
    (r : TableRow) : Except Err Record :=
  rowRecord e e.schema.keys config e.schema.keys (cs.map (db.columnValue r))

theorem selectColumns_names {schema : Schema} {names : List String} {cs : List SelectColumn}
    (h : selectColumns schema names = .ok cs) : cs.map Mysql.columnName = names := by
  induction names generalizing cs with
  | nil =>
    cases h
    rfl
  | cons name rest ih =>
    obtain ⟨c, more, hc, hmore, rfl⟩ := selectColumns_cons_iff.mp h
    obtain ⟨-, p, -, -, rfl⟩ := selectColumn_ok_iff.mp hc
    rw [List.map_cons, ih hmore]
    split_ifs <;> rfl

theorem selectColumns_plain {schema : Schema} {names : List String} {cs : List SelectColumn}
    (h : selectColumns schema names = .ok cs) {k : String} {p : PropSchema} (hk : k ∈ names)
    (hp : schema.get? k = some p) (hbinary : p.format ≠ some "binary")
    (hspatial : p.format ≠ some "spatial") : .plain k ∈ cs := by
  induction names generalizing cs with
  | nil => simp at hk
  | cons name rest ih =>
    obtain ⟨c, more, hc, hmore, rfl⟩ := selectColumns_cons_iff.mp h
    rcases List.mem_cons.mp hk with rfl | hk
    · obtain ⟨-, q, -, hq, rfl⟩ := selectColumn_ok_iff.mp hc
      obtain rfl := Option.some.inj (hp.symm.trans hq)
      rw [if_neg hbinary, if_neg hspatial]
      exact List.mem_cons_self
    · exact List.mem_cons_of_mem _ (ih hmore hk)

theorem generateSelectSql_eq {e : CatalogEntry} {columns : List String} {sql : SelectSql}
    (h : generateSelectSql e columns = .ok sql) :
    selectColumns e.schema columns = .ok sql.columns ∧ sql.conditions = [] ∧
      sql.orderBy = [] := by
  obtain ⟨database, table, cs, -, -, hcs, rfl⟩ := generateSelectSql_ok_iff.mp h
  exact ⟨hcs, rfl, rfl⟩

/-- A column of the integer types, as discovery describes it. -/
structure IntegerColumn (p : PropSchema) : Prop where
  type : p.type = some ["null", "integer"]
  format : p.format = none

theorem renderElem_integer {p : PropSchema} (hp : IntegerColumn p) {v : Val}
    (hv : v = .null ∨ ∃ n, v = .int n) : renderElem p v = .ok v := by
  rcases hv with rfl | ⟨n, rfl⟩ <;> simp [renderElem, hp.type]

theorem renderElem_ok {p : PropSchema} (hp : p.type.isSome) (v : Val) :
    ∃ x, renderElem p v = .ok x := by
  obtain ⟨types, ht⟩ := Option.isSome_iff_exists.mp hp
  unfold renderElem
  split
  · exact ⟨_, rfl⟩
  · split_ifs
    · exact ⟨_, rfl⟩
    · exact ⟨_, rfl⟩
  · rw [ht]
    simp only
    split_ifs
    · exact ⟨_, rfl⟩
    · exact ⟨_, rfl⟩

theorem renderItems_ok {schema : Schema} (htyped : ∀ p ∈ schema.entries, p.2.type.isSome)
    {cells : List (String × Val)} (hcells : ∀ c ∈ cells, c.1 ∈ schema.keys) :
    ∃ items, renderItems schema (cells.map Prod.fst) (cells.map Prod.snd) = .ok items ∧
      items.map Prod.fst = cells.map Prod.fst ∧
      ∀ c v p x, (c, v) ∈ cells → schema.get? c = some p → renderElem p v = .ok x →
        (c, x) ∈ items := by
  induction cells with
  | nil => exact ⟨[], rfl, rfl, by simp⟩
  | cons cell rest ih =>
    obtain ⟨c, v⟩ := cell
    obtain ⟨items, hitems, hnames, hmem⟩ := ih fun d hd => hcells d (List.mem_cons_of_mem _ hd)
    obtain ⟨p, hp⟩ := Dict.mem_keys_iff.mp (hcells (c, v) List.mem_cons_self)
    obtain ⟨x, hx⟩ := renderElem_ok (htyped (c, p) (Dict.get?_eq_some.mp hp)) v
    refine ⟨(c, x) :: items, by simp [renderItems, hp, hx, hitems], by simp [hnames], ?_⟩
    intro c' v' p' x' hin hp' hx'
    rcases List.mem_cons.mp hin with heq | hin
    · cases heq
      rw [hp] at hp'
      cases hp'
      rw [hx] at hx'
      cases hx'
      exact List.mem_cons_self
    · exact List.mem_cons_of_mem _ (hmem c' v' p' x' hin hp' hx')

/-- The value of a column in a record, from the one that the client delivers. -/
def fieldValue (config : Option BatchConfig) (p : PropSchema) (v : Val) : Except Err Val :=
  if isArrow config then
    .ok (if (p.type.getD []).contains "boolean" then castBoolean v else v)
  else renderElem p v

theorem fieldValue_integer (config : Option BatchConfig) {p : PropSchema} (hp : IntegerColumn p)
    {v : Val} (hv : v = .null ∨ ∃ n, v = .int n) : fieldValue config p v = .ok v := by
  rw [fieldValue, renderElem_integer hp hv]
  simp [hp.type]

theorem fieldValue_boolean (config : Option BatchConfig) {p : PropSchema} (hp : BooleanColumn p)
    (n : Int) : fieldValue config p (.int n) = .ok (.bool !(Val.int n).isZero) := by
  rw [fieldValue]
  simp [hp.type, renderElem, castBoolean]

/-- The record of a stored row has all columns, and of a column that is selected as it is the
value that the path makes of the delivered one. -/
theorem tableRecord_ok {e : CatalogEntry} (htyped : TypedSchema e) {cs : List SelectColumn}
    (hcs : selectColumns e.schema e.schema.keys = .ok cs) (config : Option BatchConfig)
    (r : TableRow) :
    ∃ rec, tableRecord db e config cs r = .ok rec ∧
      (∀ k ∈ e.schema.keys, ∃ v, rec.get? k = some v) ∧
      ∀ k p x, e.schema.get? k = some p → p.format ≠ some "binary" →
        p.format ≠ some "spatial" → fieldValue config p (r.cell k) = .ok x →
        rec.get? k = some x := by
  have hnames := selectColumns_names hcs
  set cells := cs.map fun c => (Mysql.columnName c, db.columnValue r c) with hcells
  have hfst : cells.map Prod.fst = e.schema.keys := by simp [hcells, ← hnames, Function.comp_def]
  have hsnd : cells.map Prod.snd = cs.map (db.columnValue r) := by
    simp [hcells, Function.comp_def]
  have hkey : ∀ k p, e.schema.get? k = some p → p.format ≠ some "binary" →
      p.format ≠ some "spatial" → (k, r.cell k) ∈ cells := by
    intro k p hp hbinary hspatial
    have hin := selectColumns_plain hcs (Dict.mem_keys_iff.mpr ⟨p, hp⟩) hp hbinary hspatial
    exact List.mem_map.mpr ⟨_, hin, rfl⟩
  have hget : ∀ items : List (String × Val), items.map Prod.fst = e.schema.keys →
      (∀ k ∈ e.schema.keys, ∃ v, (Dict.ofList items).get? k = some v) ∧
      ∀ k v, (k, v) ∈ items → (Dict.ofList items).get? k = some v := by
    intro items hitems
    have hnodup : (items.map Prod.fst).Nodup := hitems ▸ e.schema.keys_nodup
    refine ⟨fun k hk => ?_, fun k v hkv => Dict.get?_ofList_of_mem hnodup hkv⟩
    rw [← hitems] at hk
    obtain ⟨⟨k', v⟩, hkv, rfl⟩ := List.mem_map.mp hk
    exact ⟨v, Dict.get?_ofList_of_mem hnodup hkv⟩
  unfold tableRecord rowRecord fieldValue
  rw [← hfst, ← hsnd]
  split_ifs with ha
  · -- Arrow: the boolean columns are cast, the others stay
    rw [hfst]
    have hzip : e.schema.keys.zip (cells.map Prod.snd) = cells := by
      rw [← hfst]
      simp [List.zip_map']
    obtain ⟨hall, hmem⟩ := hget (cells.map fun item =>
        (item.1, if (booleanColumns e).contains item.1 then castBoolean item.2 else item.2))
      (by rw [List.map_map]; exact hfst)
    refine ⟨_, rfl, ?_, fun k p x hp hbinary hspatial hx => ?_⟩
    · rw [castBooleanColumns, hzip]
      exact hall
    · rw [castBooleanColumns, hzip]
      refine hmem k _ (List.mem_map.mpr ⟨(k, r.cell k), hkey k p hp hbinary hspatial, ?_⟩)
      obtain ⟨types, htypes⟩ := Option.isSome_iff_exists.mp
        (htyped (k, p) (Dict.get?_eq_some.mp hp))
      have hboolean := mem_booleanColumns hp htypes
      rw [htypes, Except.ok.injEq] at hx
      simp only [← hx, List.contains_iff_mem, hboolean, Option.getD_some]
  · have hcells : ∀ c ∈ cells, c.1 ∈ e.schema.keys := fun c hc => by
      rw [← hfst]
      exact List.mem_map_of_mem hc
    obtain ⟨items, hitems, hkeys, hcell⟩ := renderItems_ok htyped hcells
    obtain ⟨hall, hmem⟩ := hget items (hkeys.trans hfst)
    refine ⟨Dict.ofList items, by rw [rowToSingerRecord, hitems], ?_, ?_⟩
    · rw [hfst]
      exact hall
    · intro k p x hp hbinary hspatial hx
      exact hmem k _ (hcell k _ p _ (hkey k p hp hbinary hspatial) hp hx)

/-- An integer key stands in its record as it is stored. -/
theorem tableRecord_integer {e : CatalogEntry} (htyped : TypedSchema e) {cs : List SelectColumn}
    (hcs : selectColumns e.schema e.schema.keys = .ok cs) (config : Option BatchConfig)
    {k : String} {p : PropSchema} (hp : e.schema.get? k = some p) (hint : IntegerColumn p)
    {r : TableRow} (hr : r.cell k = .null ∨ ∃ n, r.cell k = .int n) :
    ∃ rec, tableRecord db e config cs r = .ok rec ∧ rec.get? k = some (r.cell k) := by
  obtain ⟨rec, hrec, -, hget⟩ := tableRecord_ok db htyped hcs config r
  exact ⟨rec, hrec, hget k p _ hp (by simp [hint.format]) (by simp [hint.format])
    (fieldValue_integer config hint hr)⟩

/-! ### Places of keys -/

/-- The key of a record, as the bookmark stores it. -/
def recordKey (k : String) : Except Err Record → Val
  | .ok r => (r.get? k).getD .null
  | .error _ => .null

/-- Where the server finds a bookmark value among the keys; NULL stands below them all. -/
def Mysql.boundPlace (v : Val) : WithBot κ := if v = .null then ⊥ else ↑(db.bound v)

theorem Mysql.boundPlace_int {v : Val} (hv : v = .null ∨ ∃ n, v = .int n) :
    db.boundPlace v = db.place v := by
  rcases hv with rfl | ⟨n, rfl⟩
  · simp [Mysql.boundPlace, (db.place_eq_bot .null).mpr rfl]
  · simp [Mysql.boundPlace, db.place_int]

theorem boundPlace_tableRecord {e : CatalogEntry} (htyped : TypedSchema e)
    {cs : List SelectColumn} (hcs : selectColumns e.schema e.schema.keys = .ok cs)
    {config : Option BatchConfig} {k : String} {p : PropSchema} (hp : e.schema.get? k = some p)
    (hint : IntegerColumn p) {r : TableRow} (hr : r.cell k = .null ∨ ∃ n, r.cell k = .int n) :
    db.boundPlace (recordKey k (tableRecord db e config cs r)) = db.place (r.cell k) := by
  obtain ⟨rec, hrec, hget⟩ := tableRecord_integer db htyped hcs config hp hint hr
  rw [hrec, recordKey, hget]
  exact db.boundPlace_int hr

end Records

/-! ### The window of an auto-incrementing key -/

namespace FullTable

section Window

variable {κ : Type*} [LinearOrder κ] (db : Mysql κ) {e : CatalogEntry} {k : String} {st : State}

/-- The place above which the statement of a state asks for keys. -/
def pkFloor (e : CatalogEntry) (k : String) (st : State) : WithBot κ :=
  if (st.getBookmark e.tapStreamId "last_pk_fetched").truthy then
    match pkValue (st.getBookmark e.tapStreamId "last_pk_fetched") k with
    | .ok v => ↑(db.bound v)
    | .error _ => ⊥
  else ⊥

def inWindow (k : String) (floor : WithBot κ) (max : Val) (r : TableRow) : Prop :=
  floor < db.place (r.cell k) ∧ db.place (r.cell k) ≤ ↑(db.bound max)

theorem generatePkClause_ok (hkeys : e.getKeyProperties = [k]) {sql sql' : SelectSql}
    (h : generatePkClause e st sql = .ok sql') :
    sql'.columns = sql.columns ∧ sql'.orderBy = [k] ∧
      ∃ max, pkValue (st.getBookmark e.tapStreamId "max_pk_values") k = .ok max ∧
        ∀ r, db.selects sql' r = true ↔ inWindow db k (pkFloor db e k st) max r := by
  rw [generatePkClause] at h
  rw [hkeys] at h
  cases he : escapeAll [k] with
  | error err => simp [he] at h
  | ok u =>
    simp only [he, pkConditions, pkComparisons] at h
    unfold inWindow pkFloor
    cases hm : pkValue (st.getBookmark e.tapStreamId "max_pk_values") k with
    | error err =>
      cases hl : pkValue (st.getBookmark e.tapStreamId "last_pk_fetched") k <;>
        · simp only [hm, hl] at h
          split_ifs at h
    | ok max =>
      by_cases ht : (st.getBookmark e.tapStreamId "last_pk_fetched").truthy = true
      · cases hl : pkValue (st.getBookmark e.tapStreamId "last_pk_fetched") k with
        | error err => simp [ht, hl] at h
        | ok v =>
          simp only [ht, hm, hl, if_true, Except.ok.injEq] at h
          subst h
          refine ⟨rfl, rfl, max, rfl, fun r => ?_⟩
          simp only [Mysql.selects, Mysql.holds, List.append_nil, List.all_cons, List.all_nil,
            Bool.and_true, Bool.and_eq_true, decide_eq_true_eq, ht, if_true]
          exact ⟨fun hr => ⟨hr.1, hr.2.2⟩, fun hr => ⟨hr.1, bot_lt_of_lt hr.1, hr.2⟩⟩
      · simp only [ht, hm, if_false, Except.ok.injEq, Bool.false_eq_true] at h
        subst h
        refine ⟨rfl, rfl, max, rfl, fun r => ?_⟩
        simp [Mysql.selects, Mysql.holds, ht]

theorem assocGet_str (k : String) (l : List (String × Val)) :
    Dict.assocGet (Val.str k) (l.map fun item => (Val.str item.1, item.2)) =
      Dict.assocGet k l := by
  induction l with
  | nil => rfl
  | cons item rest ih =>
    by_cases hk : item.1 = k <;> simp [Dict.assocGet, hk, ih]

theorem pkFetched_key (config : Option BatchConfig) {r : Record} {v : Val}
    (hv : r.get? k = some v) :
    ∃ fetched, (if isArrow config then lastPkFetchedArrow else lastPkFetched) [k] r =
        .ok (some fetched) ∧ fetched.truthy = true ∧ pkValue fetched k = .ok v := by
  split_ifs
  · refine ⟨.dict [(.str k, v)], ?_, rfl, by simp [pkValue, Dict.assocGet]⟩
    simp [lastPkFetchedArrow, pkItems, recordField, hv, Dict.ofList, Dict.set, Dict.empty,
      Dict.assocSet]
  · have hget : Dict.assocGet k (r.filterKeys [k].contains).entries = some v := by
      have hf := Dict.get?_filterKeys r [k].contains k
      rw [hv] at hf
      simpa [Dict.get?] using hf
    have hfetched := assocGet_str k (r.filterKeys [k].contains).entries
    refine ⟨_, rfl, ?_, by rw [pkValue, hfetched, hget]⟩
    cases hent : (r.filterKeys [k].contains).entries with
    | nil => simp [hent, Dict.assocGet] at hget
    | cons item rest => simp [Val.truthy]

/-- After the rows of a query the floor is the key of the last of them; the rest of the state is
as it was. -/
theorem bookmarkOf_window (hkeys : e.getKeyProperties = [k])
    (hmethod : e.replicationMethod = .fullTable ∨ e.replicationMethod = .logBased)
    {columns names : List String} {config : Option BatchConfig} {rows : List Row} {st' : State}
    (hmax : (st.getBookmark e.tapStreamId "max_pk_values").truthy = true)
    (hrows : ∀ row ∈ rows, ∃ r v, rowRecord e columns config names row = .ok r ∧
      r.get? k = some v ∧ v ≠ .null)
    (h : BookmarkOf e columns config names st rows st') :
    (∀ key, key ≠ "last_pk_fetched" →
      st'.getBookmark e.tapStreamId key = st.getBookmark e.tapStreamId key) ∧
    pkFloor db e k st' = match rows.getLast? with
      | none => pkFloor db e k st
      | some row => db.boundPlace (recordKey k (rowRecord e columns config names row)) := by
  unfold BookmarkOf After at h
  cases hl : rows.getLast? with
  | none =>
    rw [hl] at h
    subst h
    exact ⟨fun key _ => rfl, rfl⟩
  | some row =>
    rw [hl] at h
    obtain ⟨r, hr, hupdate⟩ := h
    obtain ⟨r', v, hr', hv, hnull⟩ := hrows row (List.mem_of_getLast? hl)
    rw [hr] at hr'
    cases hr'
    obtain ⟨fetched, hf, htruthy, hpk⟩ := pkFetched_key config hv
    have hst : st' = st.writeBookmark e.tapStreamId "last_pk_fetched" fetched := by
      unfold bookmarkUpdate advance at hupdate
      rcases hmethod with hm | hm <;>
        · rw [hm] at hupdate
          simp only [advancePk, hmax, if_true, hkeys, hf, Prod.mk.injEq, and_true] at hupdate
          exact hupdate.symm
    subst hst
    refine ⟨fun key hkey => by simp [State.getBookmark_writeBookmark, hkey.symm], ?_⟩
    simp [pkFloor, htruthy, hpk, hr, recordKey, hv, Mysql.boundPlace, hnull]

end Window

end FullTable

/-! ### The window of a replication key -/

namespace Incremental

section Window

variable {κ : Type*} [LinearOrder κ] (db : Mysql κ) {e : CatalogEntry} {k : String} {st : State}

/-- Where the server finds a bookmark value that the tap binds as a parameter. -/
def paramPlace (e : CatalogEntry) (k : String) (v : Val) : WithBot κ :=
  match v with
  | .null => ⊥
  | v =>
    match boundValue e k v with
    | .error _ => ⊥
    | .ok b => ↑(db.bound b)

/-- The place from which the statement of a state asks for keys. -/
def keyFloor (e : CatalogEntry) (k : String) (st : State) : WithBot κ :=
  paramPlace db e k (st.getBookmark e.tapStreamId "replication_key_value")

theorem paramPlace_ok {v b : Val} (hv : v ≠ .null) (hb : boundValue e k v = .ok b) :
    paramPlace db e k v = ↑(db.bound b) := by
  cases v with
  | null => exact absurd rfl hv
  | _ => simp [paramPlace, hb]

theorem whereClause_ok {value : Val} {sql sql' : SelectSql} (hsql : sql.conditions = [])
    (h : whereClause e (.str k) value sql = .ok sql') :
    sql'.columns = sql.columns ∧ sql'.orderBy = [k] ∧
      ∀ r, db.selects sql' r = true ↔ paramPlace db e k value ≤ db.place (r.cell k) := by
  by_cases hnull : value = .null
  · simp only [whereClause, hnull, keyName, Except.ok.injEq] at h
    subst h
    exact ⟨rfl, rfl, fun r => by simp [Mysql.selects, hsql, hnull, paramPlace]⟩
  · simp only [whereClause, keyName] at h
    cases hb : boundValue e k value with
    | error err => simp [hb] at h
    | ok b =>
      simp only [hb, Except.ok.injEq] at h
      subst h
      refine ⟨rfl, rfl, fun r => ?_⟩
      rw [paramPlace_ok db hnull hb]
      simp only [Mysql.selects, Mysql.holds, List.all_cons, List.all_nil, Bool.and_true,
        decide_eq_true_eq]

theorem bookmarkOf_value (hmethod : e.replicationMethod = .incremental)
    (hkey : st.getBookmark e.tapStreamId "replication_key" = .str k)
    {columns names : List String} {config : Option BatchConfig} {rows : List Row} {st' : State}
    (h : BookmarkOf e columns config names st rows st') :
    st'.getBookmark e.tapStreamId "replication_key" = .str k ∧
    st'.getBookmark e.tapStreamId "replication_key_value" = match rows.getLast? with
      | none => st.getBookmark e.tapStreamId "replication_key_value"
      | some row => recordKey k (rowRecord e columns config names row) := by
  unfold BookmarkOf After at h
  cases hl : rows.getLast? with
  | none =>
    rw [hl] at h
    subst h
    exact ⟨hkey, rfl⟩
  | some row =>
    rw [hl] at h
    obtain ⟨r, hr, hupdate⟩ := h
    unfold bookmarkUpdate advance at hupdate
    rw [hmethod, hkey] at hupdate
    simp only [advanceReplicationKey, recordField] at hupdate
    cases hv : r.get? k with
    | none => simp [hv] at hupdate
    | some v =>
      simp only [hv, Prod.mk.injEq, and_true] at hupdate
      subst hupdate
      refine ⟨by simp [State.getBookmark_writeBookmark], ?_⟩
      simp [hr, recordKey, hv]

theorem bookmarkOf_key (hmethod : e.replicationMethod = .incremental)
    (hkey : st.getBookmark e.tapStreamId "replication_key" = .str k)
    {columns names : List String} {config : Option BatchConfig} {rows : List Row} {st' : State}
    (h : BookmarkOf e columns config names st rows st') :
    st'.getBookmark e.tapStreamId "replication_key" = .str k ∧
    keyFloor db e k st' = match rows.getLast? with
      | none => keyFloor db e k st
      | some row => paramPlace db e k (recordKey k (rowRecord e columns config names row)) := by
  obtain ⟨hkey', hvalue⟩ := bookmarkOf_value hmethod hkey h
  refine ⟨hkey', ?_⟩
  rw [keyFloor, hvalue]
  cases rows.getLast? <;> rfl

/-- The server finds the key of every stored row at the same place when it comes back from the
bookmark of the row's record. -/
def KeyReadBack (e : CatalogEntry) (k : String) (config : Option BatchConfig)
    (cs : List SelectColumn) (table : List TableRow) : Prop :=
  ∀ r ∈ table, paramPlace db e k (recordKey k (tableRecord db e config cs r)) =
    db.place (r.cell k)

theorem paramPlace_int {p : PropSchema} (hp : e.schema.get? k = some p) {v : Val}
    (hv : v = .null ∨ ∃ n, v = .int n) : paramPlace db e k v = db.place v := by
  rcases hv with rfl | ⟨n, rfl⟩
  · simp [paramPlace, (db.place_eq_bot .null).mpr rfl]
  · simp [paramPlace, boundValue, hp, db.place_int]

theorem keyReadBack_int (htyped : TypedSchema e) {cs : List SelectColumn}
    (hcs : selectColumns e.schema e.schema.keys = .ok cs) {config : Option BatchConfig}
    {p : PropSchema} (hp : e.schema.get? k = some p) (hint : IntegerColumn p)
    {table : List TableRow}
    (htable : ∀ r ∈ table, r.cell k = .null ∨ ∃ n, r.cell k = .int n) :
    KeyReadBack db e k config cs table := by
  intro r hr
  obtain ⟨rec, hrec, hget⟩ := tableRecord_integer db htyped hcs config hp hint (htable r hr)
  rw [hrec, recordKey, hget]
  exact paramPlace_int db hp (htable r hr)

end Window

end Incremental

end TapMysql
