import Mathlib.Data.Int.ConditionallyCompleteOrder
import Mathlib.Data.Sum.Lattice
import Mathlib.Order.ConditionallyCompleteLattice.Basic
import TapMysql.Select.Timestamps
import TapMysql.Select.Window

/-!
# The kinds of replication keys that come back from a bookmark

An integer stands in the bookmark as it is, a time stamp as its ISO text or, on the Arrow path,
as it is. Either way the server finds it where the key of the row is.
-/

namespace TapMysql

/-- The types of a replication key. -/
inductive KeyKind
  | integer
  | dateTime
  deriving DecidableEq

/-- A column of the types with a date and a time, as discovery describes it. -/
structure DateTimeColumn (p : PropSchema) : Prop where
  type : p.type = some ["null", "string"]
  format : p.format = some "date-time"

def KeyKind.Column : KeyKind → PropSchema → Prop
  | .integer => IntegerColumn
  | .dateTime => DateTimeColumn

/-- The values that a client delivers for a column of the kind. -/
inductive KeyKind.Cell : KeyKind → Val → Prop
  | null (kind : KeyKind) : Cell kind .null
  | int (n : Int) : Cell .integer (.int n)
  | datetime {d : DateTime} : d.Valid → Cell .dateTime (.datetime d)

/-- A key that is not NULL; integers and time stamps never meet in one column. -/
abbrev Key := Lex (Int ⊕ DateTime)

/-- The key in a delivered value; NULL is below all keys. -/
def cellKey : Val → WithBot Key
  | .int n => ↑(toLex (Sum.inl n) : Key)
  | .datetime d => ↑(toLex (Sum.inr d) : Key)
  | _ => ⊥

@[simp] theorem cellKey_null : cellKey .null = ⊥ := rfl

/-- The value that the record and the bookmark hold for a delivered one. -/
def storedKey : Val → Val
  | .datetime d => .str (d.isoformat ++ "+00:00")
  | v => v

/-- The key in a bookmark value. -/
def bookmarkKey : Val → WithBot Key
  | .int n => ↑(toLex (Sum.inl n) : Key)
  | .str s => match fromisoformat s with
    | none => ⊥
    | some d => ↑(toLex (Sum.inr d) : Key)
  | _ => ⊥

/-- A bookmark value that a run over a column of the kind leaves. -/
def KeyKind.Stored (kind : KeyKind) (v : Val) : Prop := ∃ cell, kind.Cell cell ∧ v = storedKey cell

/-- The server orders a column of time stamps by time, and a bound time stamp with it. -/
structure Mysql.OrdersDateTimes {κ : Type*} [LinearOrder κ] (db : Mysql κ) : Prop where
  place : ∀ d, db.place (.datetime d) = db.bound (.datetime d)
  lt_iff : ∀ c d : DateTime, c.Valid → d.Valid →
    (db.bound (.datetime c) < db.bound (.datetime d) ↔ c < d)

theorem bookmarkKey_storedKey {kind : KeyKind} {cell : Val} (h : kind.Cell cell) :
    bookmarkKey (storedKey cell) = cellKey cell := by
  cases h with
  | null => rfl
  | int n => rfl
  | datetime hd => rw [storedKey, bookmarkKey, fromisoformat_isoformat hd, cellKey]

theorem KeyKind.Column.formats {kind : KeyKind} {p : PropSchema} (h : kind.Column p) :
    p.format ≠ some "binary" ∧ p.format ≠ some "spatial" := by
  cases kind with
  | integer => simp [IntegerColumn.format h]
  | dateTime => simp [DateTimeColumn.format h]

theorem renderElem_cell {kind : KeyKind} {p : PropSchema} (hcolumn : kind.Column p) {cell : Val}
    (h : kind.Cell cell) :
    renderElem p cell = .ok (storedKey cell) := by
  cases h with
  | datetime hd => rfl
  | int n => exact renderElem_integer hcolumn (Or.inr ⟨n, rfl⟩)
  | null =>
    cases kind with
    | integer => exact renderElem_integer hcolumn (Or.inl rfl)
    | dateTime => simp [renderElem, DateTimeColumn.type hcolumn, storedKey]

section Server

variable {κ : Type*} [LinearOrder κ] {db : Mysql κ} {kind : KeyKind}

theorem place_lt_iff (hdb : db.OrdersDateTimes) {v w : Val} (hv : kind.Cell v)
    (hw : kind.Cell w) : db.place v < db.place w ↔ cellKey v < cellKey w := by
  have hnull : db.place .null = ⊥ := (db.place_eq_bot .null).mpr rfl
  cases hv with
  | null =>
    rw [hnull, cellKey_null, bot_lt_iff_ne_bot, bot_lt_iff_ne_bot, ne_eq, db.place_eq_bot]
    cases hw <;> simp [cellKey]
  | int m =>
    cases hw with
    | null => simp [hnull, cellKey]
    | int n =>
      rw [db.place_int, db.place_int, WithBot.coe_lt_coe, db.bound_int_lt, cellKey, cellKey,
        WithBot.coe_lt_coe, Sum.Lex.inl_lt_inl_iff]
  | datetime hc =>
    cases hw with
    | null => simp [hnull, cellKey]
    | datetime hd =>
      rw [hdb.place, hdb.place, WithBot.coe_lt_coe, hdb.lt_iff _ _ hc hd, cellKey, cellKey,
        WithBot.coe_lt_coe, Sum.Lex.inr_lt_inr_iff]

theorem place_le_iff (hdb : db.OrdersDateTimes) {v w : Val} (hv : kind.Cell v)
    (hw : kind.Cell w) : db.place v ≤ db.place w ↔ cellKey v ≤ cellKey w := by
  rw [← not_lt, ← not_lt, place_lt_iff hdb hw hv]

/-- The server finds a key where it is when the next run binds it. -/
theorem paramPlace_storedKey (hdb : db.OrdersDateTimes) {e : CatalogEntry} {k : String}
    {p : PropSchema} (hp : e.schema.get? k = some p) (hcolumn : kind.Column p) {cell : Val}
    (h : kind.Cell cell) :
    Incremental.paramPlace db e k (storedKey cell) = db.place cell := by
  cases h with
  | null => exact ((db.place_eq_bot .null).mpr rfl).symm
  | int n => simp [storedKey, Incremental.paramPlace, Incremental.boundValue, hp, db.place_int]
  | datetime hd =>
    have hformat : p.format = some "date-time" := DateTimeColumn.format hcolumn
    simp [storedKey, Incremental.paramPlace, Incremental.boundValue, hp, hformat,
      fromisoformat_isoformat hd, hdb.place]

end Server

/-! ### Keys that come back from a bookmark -/

/-- A stream with a replication key of the kind. -/
structure KeyedStream (kind : KeyKind) (k : String) (e : CatalogEntry) : Prop where
  method : e.replicationMethod = .incremental
  key : e.streamMetadata "replication-key" = .str k
  column : ∃ p, e.schema.get? k = some p ∧ kind.Column p

theorem fieldValue_cell (config : Option BatchConfig) {kind : KeyKind} {p : PropSchema}
    (hcolumn : kind.Column p) {cell : Val} (h : kind.Cell cell) :
    fieldValue config p cell = .ok (if isArrow config then cell else storedKey cell) := by
  have hboolean : (p.type.getD []).contains "boolean" = false := by
    cases kind with
    | integer => simp [IntegerColumn.type hcolumn]
    | dateTime => simp [DateTimeColumn.type hcolumn]
  rw [fieldValue, hboolean, renderElem_cell hcolumn h, if_neg Bool.false_ne_true]
  split_ifs <;> rfl

section ReadBack

variable {κ : Type*} [LinearOrder κ] {db : Mysql κ} {kind : KeyKind} {e : CatalogEntry}
  {k : String} {p : PropSchema}

/-- The Arrow path binds the delivered value itself. -/
theorem paramPlace_cell (hdb : db.OrdersDateTimes) (hp : e.schema.get? k = some p) {cell : Val}
    (h : kind.Cell cell) : Incremental.paramPlace db e k cell = db.place cell := by
  cases h with
  | null => exact ((db.place_eq_bot .null).mpr rfl).symm
  | int n => simp [Incremental.paramPlace, Incremental.boundValue, hp, db.place_int]
  | datetime hd => simp [Incremental.paramPlace, Incremental.boundValue, hp, hdb.place]

/-- The server finds the keys of a column of the kind again, in every output mode. -/
theorem keyReadBack_kind (hdb : db.OrdersDateTimes) (htyped : TypedSchema e)
    {cs : List SelectColumn} (hcs : selectColumns e.schema e.schema.keys = .ok cs)
    {config : Option BatchConfig} (hp : e.schema.get? k = some p) (hcolumn : kind.Column p)
    {table : List TableRow} (htable : ∀ r ∈ table, kind.Cell (r.cell k)) :
    Incremental.KeyReadBack db e k config cs table := by
  intro r hr
  obtain ⟨rec, hrec, -, hget⟩ := tableRecord_ok db htyped hcs config r
  obtain ⟨hbinary, hspatial⟩ := hcolumn.formats
  have hfield := fieldValue_cell config hcolumn (htable r hr)
  rw [hrec, recordKey, hget k p _ hp hbinary hspatial hfield]
  split_ifs
  · exact paramPlace_cell hdb hp (htable r hr)
  · exact paramPlace_storedKey hdb hp hcolumn (htable r hr)

end ReadBack

/-! ### A server for both kinds of keys -/

/-- A server whose columns hold integers or time stamps. -/
def keyServer : Mysql Key where
  place v := match v with
    | .null => ⊥
    | .int n => ↑(toLex (Sum.inl n) : Key)
    | .datetime d => ↑(toLex (Sum.inr d) : Key)
    | _ => ↑(toLex (Sum.inl 0) : Key)
  bound v := match v with
    | .int n => toLex (Sum.inl n)
    | .datetime d => toLex (Sum.inr d)
    | _ => toLex (Sum.inl 0)
  hex v := v
  asGeoJson v := v
  place_eq_bot v := by cases v <;> simp
  place_int n := rfl
  bound_int_lt m n := Sum.Lex.inl_lt_inl_iff

theorem keyServer_ordersDateTimes : keyServer.OrdersDateTimes :=
  ⟨fun _ => rfl, fun _ _ _ _ => Sum.Lex.inr_lt_inr_iff⟩

namespace Sample

def stampSchema : Schema :=
  Dict.ofList [("at", { PropSchema.blank with
    type := some ["null", "string"], format := some "date-time", inclusion := some .available })]

def stampStream : CatalogEntry where
  tapStreamId := "db-t"
  stream := "db-t"
  table := "t"
  metadata := Dict.ofList [([], Dict.ofList [("database-name", .str "db"),
    ("replication-method", .str "INCREMENTAL"), ("replication-key", .str "at")])]
  schema := stampSchema

def second (n : Nat) : DateTime := ⟨⟨2024, 2, 29⟩, 23, 59, n, 0⟩

theorem valid_second {n : Nat} (h : n < 60) : (second n).Valid :=
  ⟨by simp [second], by simp [second], by simp [second], by simp [second], by simp [second], h,
    by simp [second]⟩

def stampRow (v : Val) : TableRow := Dict.ofList [("at", v)]

theorem stampStream_keyed : KeyedStream .dateTime "at" stampStream where
  method := by decide
  key := by decide
  column := ⟨{ PropSchema.blank with
    type := some ["null", "string"], format := some "date-time", inclusion := some .available },
    by decide, rfl, rfl⟩

end Sample

end TapMysql
