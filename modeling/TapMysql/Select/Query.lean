import Mathlib.Data.List.Sort
import Mathlib.Order.WithBot
import TapMysql.Singer

/-!
# SELECT statements and the server that answers them

A statement is kept as its parts: the selected columns, the comparisons of its WHERE clause and
the columns of its ORDER BY. What the server does with values (the order of a column, the
comparison with a literal, `hex`, `ST_AsGeoJSON`) is a parameter; NULL comes first in the order
and satisfies no comparison, and integers are ordered as integers.
-/

namespace TapMysql

/-! ### The statements of the tap -/

inductive SelectColumn
  | plain (name : String)
  | hex (name : String)
  | geoJson (name : String)
  deriving DecidableEq

inductive Comparison
  | gt
  | ge
  | le
  deriving DecidableEq

structure Condition where
  column : String
  comparison : Comparison
  value : Val
  deriving DecidableEq

structure SelectSql where
  database : String
  table : String
  columns : List SelectColumn
  conditions : List Condition
  orderBy : List String
  deriving DecidableEq

def escape (s : String) : Except Err String :=
  if s.toList.contains '`' then
    .error ⟨.exception, "Can't escape identifier " ++ s ++ " because it contains a backtick"⟩
  else .ok s

/-- `escape` of a value that may be missing: `in` needs a string. -/
def escapeVal : Val → Except Err String
  | .str s => escape s
  | _ => .error ⟨.typeError, "argument of type 'NoneType' is not iterable"⟩

def escapeAll : List String → Except Err Unit
  | [] => .ok ()
  | s :: rest =>
    match escape s with
    | .error err => .error err
    | .ok _ => escapeAll rest

def selectColumn (schema : Schema) (name : String) : Except Err SelectColumn :=
  match escape name with
  | .error err => .error err
  | .ok _ =>
    match schema.get? name with
    | none => .error (.keyError name)
    | some p =>
      if p.format = some "binary" then .ok (.hex name)
      else if p.format = some "spatial" then .ok (.geoJson name)
      else .ok (.plain name)

def selectColumns (schema : Schema) : List String → Except Err (List SelectColumn)
  | [] => .ok []
  | name :: rest =>
    match selectColumn schema name with
    | .error err => .error err
    | .ok c =>
      match selectColumns schema rest with
      | .error err => .error err
      | .ok cs => .ok (c :: cs)

def generateSelectSql (e : CatalogEntry) (columns : List String) : Except Err SelectSql :=
  match escapeVal e.getDatabaseName with
  | .error err => .error err
  | .ok database =>
    match escape e.table with
    | .error err => .error err
    | .ok table =>
      match selectColumns e.schema columns with
      | .error err => .error err
      | .ok cs => .ok ⟨database, table, cs, [], []⟩

theorem selectColumn_ok_iff {schema : Schema} {name : String} {c : SelectColumn} :
    selectColumn schema name = .ok c ↔
      ∃ s p, escape name = .ok s ∧ schema.get? name = some p ∧
        c = if p.format = some "binary" then .hex name
          else if p.format = some "spatial" then .geoJson name else .plain name := by
  rw [selectColumn]
  cases escape name with
  | error err => simp
  | ok s =>
    cases schema.get? name with
    | none => simp
    | some p =>
      simp only [Except.ok.injEq, Option.some.injEq, exists_and_left, exists_eq_left']
      split_ifs <;> simp [eq_comm]

theorem selectColumns_cons_iff {schema : Schema} {name : String} {rest : List String}
    {cs : List SelectColumn} :
    selectColumns schema (name :: rest) = .ok cs ↔
      ∃ c more, selectColumn schema name = .ok c ∧ selectColumns schema rest = .ok more ∧
        cs = c :: more := by
  rw [selectColumns]
  cases selectColumn schema name with
  | error err => simp
  | ok c => cases selectColumns schema rest <;> simp [eq_comm]

theorem generateSelectSql_ok_iff {e : CatalogEntry} {columns : List String} {sql : SelectSql} :
    generateSelectSql e columns = .ok sql ↔
      ∃ database table cs, escapeVal e.getDatabaseName = .ok database ∧
        escape e.table = .ok table ∧ selectColumns e.schema columns = .ok cs ∧
        sql = ⟨database, table, cs, [], []⟩ := by
  rw [generateSelectSql]
  cases escapeVal e.getDatabaseName with
  | error err => simp
  | ok database =>
    cases escape e.table with
    | error err => simp
    | ok table => cases selectColumns e.schema columns <;> simp [eq_comm]

/-! ### Tables and answers -/

/-- A stored row: its columns with the values that the client delivers for them. -/
abbrev TableRow := Dict String Val

/-- A row of a result, in the order of the selected columns. -/
abbrev Row := List Val

def TableRow.cell (r : TableRow) (column : String) : Val := (r.get? column).getD .null

/-- What a client receives for one statement: the names of the columns, the rows in the chunks
of `fetchmany` or of the Arrow reader, and the exception that ended them early, if any. -/
structure Fetch where
  names : List String
  chunks : List (List Row)
  error : Option Err
  deriving DecidableEq

def Fetch.rows (f : Fetch) : List Row := f.chunks.flatten

structure Mysql (κ : Type*) [LinearOrder κ] where
  /-- the place of a stored value in the order of its column -/
  place : Val → WithBot κ
  /-- the place of a literal or of a bound parameter in that order -/
  bound : Val → κ
  hex : Val → Val
  asGeoJson : Val → Val
  place_eq_bot : ∀ v, place v = ⊥ ↔ v = .null
  place_int : ∀ n, place (.int n) = bound (.int n)
  bound_int_lt : ∀ m n, bound (.int m) < bound (.int n) ↔ m < n

namespace Mysql

variable {κ : Type*} [LinearOrder κ] (db : Mysql κ)

def holds (c : Condition) (r : TableRow) : Bool :=
  match c.comparison with
  | .gt => decide (↑(db.bound c.value) < db.place (r.cell c.column))
  | .ge => decide (↑(db.bound c.value) ≤ db.place (r.cell c.column))
  | .le => decide (⊥ < db.place (r.cell c.column) ∧ db.place (r.cell c.column) ≤ db.bound c.value)

def selects (q : SelectSql) (r : TableRow) : Bool := q.conditions.all fun c => db.holds c r

/-- The rows of a table that a statement returns. -/
def matching (q : SelectSql) (table : List TableRow) : List TableRow := table.filter (db.selects q)

/-- `ORDER BY a, b` puts `r` before `s`, or leaves it open. -/
def ordered : List String → TableRow → TableRow → Prop
  | [], _, _ => True
  | k :: ks, r, s => db.place (r.cell k) < db.place (s.cell k) ∨
      (db.place (r.cell k) = db.place (s.cell k) ∧ ordered ks r s)

def columnValue (r : TableRow) : SelectColumn → Val
  | .plain name => r.cell name
  | .hex name => db.hex (r.cell name)
  | .geoJson name => db.asGeoJson (r.cell name)

def project (q : SelectSql) (r : TableRow) : Row := q.columns.map (db.columnValue r)

def columnName : SelectColumn → String
  | .plain name => name
  | .hex name => name
  | .geoJson name => name

/-- The rows of the answer to a statement, in an order that its ORDER BY allows. -/
structure Answer (table : List TableRow) (q : SelectSql) (rows : List TableRow) : Prop where
  perm : rows.Perm (db.matching q table)
  sorted : rows.Pairwise (db.ordered q.orderBy)

/-- A client receives a first part of an answer, and all of it unless an exception comes. -/
structure Delivers (table : List TableRow) (q : SelectSql) (f : Fetch) : Prop where
  names : f.names = q.columns.map columnName
  rows : ∃ got rest, db.Answer table q (got ++ rest) ∧ f.rows = got.map (db.project q) ∧
    (f.error = none → rest = [])

/-- The first row of `SELECT keys … ORDER BY keys DESC LIMIT 1`. -/
def IsMaxPk (table : List TableRow) (keys : List String) (answer : Option Row) : Prop :=
  match answer with
  | none => table = []
  | some row => ∃ r ∈ table, row = keys.map r.cell ∧ ∀ s ∈ table, db.ordered keys s r

theorem bound_int_inj {m n : Int} : db.bound (.int m) = db.bound (.int n) ↔ m = n := by
  constructor
  · intro h
    have h1 := (db.bound_int_lt m n).not.mp (by simp [h])
    have h2 := (db.bound_int_lt n m).not.mp (by simp [h])
    omega
  · rintro rfl
    rfl

/-! ### A server that answers -/

instance decidableOrdered : ∀ keys : List String, DecidableRel (db.ordered keys)
  | [], _, _ => isTrue trivial
  | _ :: ks, r, s =>
    have := decidableOrdered ks r s
    inferInstanceAs (Decidable (_ ∨ _))

theorem ordered_total (keys : List String) (r s : TableRow) :
    db.ordered keys r s ∨ db.ordered keys s r := by
  induction keys with
  | nil => exact Or.inl trivial
  | cons k ks ih =>
    rcases lt_trichotomy (db.place (r.cell k)) (db.place (s.cell k)) with h | h | h
    · exact Or.inl (Or.inl h)
    · exact ih.imp (fun hrs => Or.inr ⟨h, hrs⟩) fun hsr => Or.inr ⟨h.symm, hsr⟩
    · exact Or.inr (Or.inl h)

theorem ordered_trans {keys : List String} {r s t : TableRow} (hrs : db.ordered keys r s)
    (hst : db.ordered keys s t) : db.ordered keys r t := by
  induction keys with
  | nil => trivial
  | cons k ks ih =>
    rcases hrs with hrs | ⟨hrs, hrs'⟩ <;> rcases hst with hst | ⟨hst, hst'⟩
    · exact Or.inl (hrs.trans hst)
    · exact Or.inl (hst ▸ hrs)
    · exact Or.inl (hrs ▸ hst)
    · exact Or.inr ⟨hrs.trans hst, ih hrs' hst'⟩

instance (keys : List String) : Std.Total (db.ordered keys) := ⟨db.ordered_total keys⟩

instance (keys : List String) : IsTrans TableRow (db.ordered keys) :=
  ⟨fun _ _ _ => db.ordered_trans⟩

def answer (table : List TableRow) (q : SelectSql) : List TableRow :=
  (db.matching q table).insertionSort (db.ordered q.orderBy)

/-- A fetch of the answer, cut off after some rows if `cut` says so. -/
def deliver (table : List TableRow) (cut : Option (Nat × Err)) (q : SelectSql) : Fetch :=
  match cut with
  | none => ⟨q.columns.map columnName, [(db.answer table q).map (db.project q)], none⟩
  | some (n, err) => ⟨q.columns.map columnName,
      [((db.answer table q).take n).map (db.project q)], some err⟩

def maxPk (table : List TableRow) (keys : List String) : Option Row :=
  (table.insertionSort (db.ordered keys)).getLast?.map fun r => keys.map r.cell

theorem answer_spec (table : List TableRow) (q : SelectSql) :
    db.Answer table q (db.answer table q) :=
  ⟨List.perm_insertionSort _ _, List.pairwise_insertionSort _ _⟩

theorem deliver_spec (table : List TableRow) (cut : Option (Nat × Err)) (q : SelectSql) :
    db.Delivers table q (db.deliver table cut q) := by
  cases cut with
  | none => exact ⟨rfl, db.answer table q, [], by simpa using db.answer_spec table q,
      by simp [deliver, Fetch.rows], fun _ => rfl⟩
  | some c =>
    refine ⟨rfl, (db.answer table q).take c.1, (db.answer table q).drop c.1, ?_,
      by simp [deliver, Fetch.rows], fun h => by simp [deliver] at h⟩
    rw [List.take_append_drop]
    exact db.answer_spec table q

theorem maxPk_spec (table : List TableRow) (keys : List String) :
    db.IsMaxPk table keys (db.maxPk table keys) := by
  rw [maxPk]
  rcases List.eq_nil_or_concat (table.insertionSort (db.ordered keys)) with h | ⟨ini, r, h⟩
  · have hnil : table = [] := List.nil_perm.mp (h ▸ List.perm_insertionSort _ table)
    simpa [h, IsMaxPk] using hnil
  · rw [List.concat_eq_append] at h
    have hmem : ∀ s, s ∈ table ↔ s ∈ ini ++ [r] := fun s => by
      rw [← h, List.mem_insertionSort]
    have hsorted := List.pairwise_insertionSort (db.ordered keys) table
    rw [h] at hsorted
    simp only [h, List.getLast?_append, List.getLast?_singleton, Option.some_or, Option.map_some,
      IsMaxPk]
    refine ⟨r, (hmem r).mpr (by simp), rfl, fun s hs => ?_⟩
    rcases List.mem_append.mp ((hmem s).mp hs) with hs | hs
    · exact (List.pairwise_append.mp hsorted).2.2 s hs r (by simp)
    · rw [List.mem_singleton.mp hs]
      exact (db.ordered_total keys r r).elim id id

end Mysql

/-- A server with integer columns only. -/
def intServer : Mysql Int where
  place v := match v with
    | .null => ⊥
    | .int n => (n : WithBot Int)
    | _ => ((0 : Int) : WithBot Int)
  bound v := match v with
    | .int n => n
    | _ => 0
  hex v := v
  asGeoJson v := v
  place_eq_bot v := by cases v <;> simp
  place_int n := rfl
  bound_int_lt m n := Iff.rfl

end TapMysql
