import TapMysql.Lib.Quoting
import TapMysql.Lib.Template
import TapMysql.Select.KeyPages

/-!
# The text of a statement

`generate_select_sql` spells the statement and doubles all its percent signs, `sync_table` of
`incremental.py` appends its clauses with one named placeholder, and `_to_qmark` of `adbc.py`
replaces whatever looks like a named placeholder. Backticks keep the names apart, so each name can
be followed through the three steps by itself. Which characters `\w` matches beyond ASCII is a
parameter.
-/

namespace TapMysql

open Quoting Template

/-! ### Spelling -/

def SelectColumn.text : SelectColumn → String
  | .plain name => "`" ++ name ++ "`"
  | .hex name => "hex(`" ++ name ++ "`) as `" ++ name ++ "`"
  | .geoJson name => "ST_AsGeoJSON(`" ++ name ++ "`) as `" ++ name ++ "`"

def SelectSql.selectText (sql : SelectSql) : String :=
  "SELECT " ++ String.intercalate "," (sql.columns.map SelectColumn.text) ++
    " FROM `" ++ sql.database ++ "`.`" ++ sql.table ++ "`"

/-- `select_sql.replace('%', '%%')`. -/
def escapePercent (s : String) : String := String.ofList (double '%' s.toList)

/-- The text that `generate_select_sql` returns. -/
def generateSelectText (e : CatalogEntry) (columns : List String) : Except Err String :=
  match generateSelectSql e columns with
  | .error err => .error err
  | .ok sql => .ok (escapePercent sql.selectText)

namespace Incremental

/-- The statement of an attempt and its parameters, for the value of the bookmark. -/
def statement (e : CatalogEntry) (columns : List String) (key : String) (value : Val) :
    Except Err (String × Dict String Val) :=
  match generateSelectText e columns with
  | .error err => .error err
  | .ok text =>
    match value with
    | .null => .ok (text ++ (" ORDER BY `" ++ key ++ "` ASC"), Dict.empty)
    | value =>
      match boundValue e key value with
      | .error err => .error err
      | .ok v => .ok (text ++ (" WHERE `" ++ key ++ "` >= %(replication_key_value)s ORDER BY `" ++
          key ++ "` ASC"), Dict.ofList [("replication_key_value", v)])

end Incremental

/-! ### Translation -/

/-- `\w` of a regular expression on text: letters, digits and the underscore among ASCII. -/
def AsciiWords (isWord : Char → Bool) : Prop :=
  ∀ c : Char, c.toNat < 128 → isWord c = (c.isAlphanum || decide (c = '_'))

/-- `[params[name] for name in names]`. -/
def boundValues (params : Dict String Val) : List (List Char) → Except Err (List Val)
  | [] => .ok []
  | name :: names =>
    match params.get? (String.ofList name) with
    | none => .error (.keyError (String.ofList name))
    | some v =>
      match boundValues params names with
      | .error err => .error err
      | .ok vs => .ok (v :: vs)

/-- `_to_qmark`: the text for ADBC and the values of its marks. -/
def toQmark (isWord : Char → Bool) (sql : String) (params : Dict String Val) :
    Except Err (String × List Val) :=
  match boundValues params (Template.params isWord sql.toList) with
  | .error err => .error err
  | .ok values => .ok (String.ofList (fill isWord '?' sql.toList), values)

def asciiWord (c : Char) : Bool := c.isAlphanum || decide (c = '_')

example : toQmark asciiWord "SELECT * FROM t WHERE a >= %(a)s AND b <= %(b)s"
    (Dict.ofList [("b", .int 2), ("a", .int 1)]) =
      .ok ("SELECT * FROM t WHERE a >= ? AND b <= ?", [.int 1, .int 2]) := by decide

/-! ### The names in a statement -/

/-- The names that a column contributes: its alias repeats the name. -/
def columnNames (e : CatalogEntry) (name : String) : List String :=
  match (e.schema.get? name).bind PropSchema.format with
  | some "binary" => [name, name]
  | some "spatial" => [name, name]
  | _ => [name]

/-- Each selected column as names behind the text before them; `glue` comes before the first. -/
def columnPairs : String → List SelectColumn → List (List Char × List Char)
  | _, [] => []
  | glue, .plain name :: cs => (glue.toList, name.toList) :: columnPairs "," cs
  | glue, .hex name :: cs => ((glue ++ "hex(").toList, name.toList) ::
      (") as ".toList, name.toList) :: columnPairs "," cs
  | glue, .geoJson name :: cs => ((glue ++ "ST_AsGeoJSON(").toList, name.toList) ::
      (") as ".toList, name.toList) :: columnPairs "," cs

def selectPairs (sql : SelectSql) : List (List Char × List Char) :=
  columnPairs "SELECT " sql.columns ++
    [(" FROM ".toList, sql.database.toList), (".".toList, sql.table.toList)]

def clausePairs (key : String) (value : Val) : List (List Char × List Char) :=
  match value with
  | .null => [(" ORDER BY ".toList, key.toList)]
  | _ => [(" WHERE ".toList, key.toList),
      (" >= %(replication_key_value)s ORDER BY ".toList, key.toList)]

theorem clausePairs_of_ne {value : Val} (hne : value ≠ .null) (key : String) :
    clausePairs key value = [(" WHERE ".toList, key.toList),
      (" >= %(replication_key_value)s ORDER BY ".toList, key.toList)] := by
  unfold clausePairs
  split
  · exact absurd rfl hne
  · rfl

/-- The statement as its names and the text around them. -/
def statementQuoted (sql : SelectSql) (key : String) (value : Val) : Quoted Char :=
  ⟨(selectPairs sql).map (fun p => (double '%' p.1, double '%' p.2)) ++ clausePairs key value,
    " ASC".toList⟩

/-- A column wrapped in a function, under its own name. -/
theorem toList_wrapped (glue call : String) {quoted : String} (name : String)
    (hquoted : quoted.toList = call.toList ++ ['`']) :
    (glue ++ (quoted ++ name ++ "`) as `" ++ name ++ "`")).toList =
      (Quoted.mk [((glue ++ call).toList, name.toList), (") as ".toList, name.toList)]
        []).spell '`' := by
  have hquote : "`".toList = ['`'] := by decide
  have has : "`) as `".toList = '`' :: (") as ".toList ++ ['`']) := by decide
  rw [Quoted.spell_cons, Quoted.spell_cons, String.toList_append, String.toList_append,
    String.toList_append, String.toList_append, String.toList_append, String.toList_append,
    hquote, has, hquoted]
  simp only [List.append_assoc, List.cons_append, List.nil_append]
  rfl

theorem toList_column (glue : String) (c : SelectColumn) :
    (glue ++ c.text).toList = (Quoted.mk (columnPairs glue [c]) []).spell '`' := by
  cases c with
  | plain name =>
    have hquote : "`".toList = ['`'] := by decide
    have htext : (SelectColumn.plain name).text = "`" ++ name ++ "`" := rfl
    rw [htext, columnPairs, Quoted.spell_cons, String.toList_append, String.toList_append,
      String.toList_append, hquote]
    rfl
  | hex name => exact toList_wrapped glue "hex(" name (by decide)
  | geoJson name => exact toList_wrapped glue "ST_AsGeoJSON(" name (by decide)

theorem columnPairs_cons (glue : String) (c : SelectColumn) (cs : List SelectColumn) :
    columnPairs glue (c :: cs) = columnPairs glue [c] ++ columnPairs "," cs := by
  cases c <;> rfl

theorem toList_columns (glue : String) {cs : List SelectColumn} (hne : cs ≠ []) :
    (glue ++ String.intercalate "," (cs.map SelectColumn.text)).toList =
      (Quoted.mk (columnPairs glue cs) []).spell '`' := by
  induction cs generalizing glue with
  | nil => exact absurd rfl hne
  | cons c cs ih =>
    cases cs with
    | nil => exact toList_column glue c
    | cons d ds =>
      have hrest := ih "," (List.cons_ne_nil d ds)
      rw [List.map_cons, List.map_cons, String.intercalate_cons_cons, ← List.map_cons,
        String.append_assoc, ← String.append_assoc, String.toList_append, hrest, toList_column,
        columnPairs_cons glue c (d :: ds), Quoted.spell_append]

theorem toList_selectText {sql : SelectSql} (hne : sql.columns ≠ []) :
    sql.selectText.toList = (Quoted.mk (selectPairs sql) []).spell '`' := by
  have hquote : "`".toList = ['`'] := by decide
  have hfrom : " FROM `".toList = " FROM ".toList ++ ['`'] := by decide
  have hdot : "`.`".toList = '`' :: (".".toList ++ ['`']) := by decide
  rw [SelectSql.selectText, String.toList_append, String.toList_append, String.toList_append,
    String.toList_append, String.toList_append, toList_columns "SELECT " hne, hquote, hfrom, hdot,
    selectPairs, Quoted.spell_append, Quoted.spell_cons, Quoted.spell_cons]
  simp only [List.append_assoc, List.cons_append, List.nil_append]
  rfl

theorem toList_orderBy (key : String) :
    (" ORDER BY `" ++ key ++ "` ASC").toList =
      (Quoted.mk (clausePairs key .null) " ASC".toList).spell '`' := by
  have horder : " ORDER BY `".toList = " ORDER BY ".toList ++ ['`'] := by decide
  have hasc : "` ASC".toList = '`' :: " ASC".toList := by decide
  rw [clausePairs, Quoted.spell_cons, String.toList_append, String.toList_append, horder, hasc]
  simp only [List.append_assoc, List.cons_append, List.nil_append]
  rfl

theorem toList_where (key : String) {value : Val} (hne : value ≠ .null) :
    (" WHERE `" ++ key ++ "` >= %(replication_key_value)s ORDER BY `" ++ key ++ "` ASC").toList =
      (Quoted.mk (clausePairs key value) " ASC".toList).spell '`' := by
  have hwhere : " WHERE `".toList = " WHERE ".toList ++ ['`'] := by decide
  have horder : "` >= %(replication_key_value)s ORDER BY `".toList =
      '`' :: (" >= %(replication_key_value)s ORDER BY ".toList ++ ['`']) := by decide
  have hasc : "` ASC".toList = '`' :: " ASC".toList := by decide
  rw [clausePairs_of_ne hne, Quoted.spell_cons, Quoted.spell_cons, String.toList_append,
    String.toList_append, String.toList_append, String.toList_append, hwhere, horder, hasc]
  simp only [List.append_assoc, List.cons_append, List.nil_append]
  rfl

/-- A statement is that of the parts: its text spells the selection and one clause for the key,
and its parameter is the value of the condition. -/
theorem statement_spec {e : CatalogEntry} {columns : List String} {key : String} {value : Val}
    {text : String} {params : Dict String Val} (hne : columns ≠ [])
    (h : Incremental.statement e columns key value = .ok (text, params)) :
    ∃ sql sql', generateSelectSql e columns = .ok sql ∧
      Incremental.whereClause e (.str key) value sql = .ok sql' ∧
      text.toList = (statementQuoted sql key value).spell '`' ∧
      params.entries = sql'.conditions.map fun c => ("replication_key_value", c.value) := by
  rw [Incremental.statement, generateSelectText] at h
  cases hsql : generateSelectSql e columns with
  | error err => simp [hsql] at h
  | ok sql =>
    obtain ⟨hcs, hconditions, -⟩ := generateSelectSql_eq hsql
    have hcolumns : sql.columns ≠ [] := by
      intro hnil
      have hnames := selectColumns_names hcs
      rw [hnil] at hnames
      exact hne hnames.symm
    have hselect : (escapePercent sql.selectText).toList =
        (Quoted.mk ((selectPairs sql).map fun p => (double '%' p.1, double '%' p.2)) []).spell
          '`' := by
      rw [escapePercent, String.toList_ofList, toList_selectText hcolumns,
        map_spell (double_append (by decide))]
      rfl
    have hspell : ∀ (clause : String) (pairs : List (List Char × List Char)),
        clause.toList = (Quoted.mk pairs " ASC".toList).spell '`' →
        (escapePercent sql.selectText ++ clause).toList =
          (Quoted.mk ((selectPairs sql).map (fun p => (double '%' p.1, double '%' p.2)) ++ pairs)
            " ASC".toList).spell '`' := by
      intro clause pairs hclause
      rw [String.toList_append, hselect, hclause, Quoted.spell_append]
    simp only [hsql] at h
    split at h
    · obtain ⟨rfl, rfl⟩ := Prod.mk.inj (Except.ok.inj h)
      exact ⟨sql, _, rfl, rfl, hspell _ _ (toList_orderBy key), by simp [hconditions, Dict.empty]⟩
    · rename_i hnull
      split at h
      · cases h
      · rename_i v hv
        obtain ⟨rfl, rfl⟩ := Prod.mk.inj (Except.ok.inj h)
        refine ⟨sql, { sql with conditions := [⟨key, .ge, v⟩], orderBy := [key] }, rfl, ?_,
          hspell _ _ (toList_where key hnull), rfl⟩
        rw [Incremental.whereClause]
        · simp [Incremental.keyName, hv]
        · exact hnull

/-! ### Pieces of a statement -/

/-- Text of the statement itself, in which no step changes anything. -/
def isPlain (text : List Char) : Bool :=
  text.all fun c => c != '%' && c != '?' && c != '`'

theorem isPlain_append (xs ys : List Char) : isPlain (xs ++ ys) = (isPlain xs && isPlain ys) :=
  List.all_append

theorem isPlain_spec {text : List Char} (h : isPlain text = true) :
    '%' ∉ text ∧ '?' ∉ text ∧ '`' ∉ text := by
  have hall := List.all_eq_true.mp h
  refine ⟨fun hmem => ?_, fun hmem => ?_, fun hmem => ?_⟩ <;>
    · have := hall _ hmem
      simp at this

theorem isPlain_columnPairs {glue : String} (hglue : isPlain glue.toList = true)
    (cs : List SelectColumn) : ∀ p ∈ columnPairs glue cs, isPlain p.1 = true := by
  have has : isPlain ") as ".toList = true := by decide
  have hhex : isPlain (glue ++ "hex(").toList = true := by
    rw [String.toList_append, isPlain_append, hglue]
    decide
  have hgeo : isPlain (glue ++ "ST_AsGeoJSON(").toList = true := by
    rw [String.toList_append, isPlain_append, hglue]
    decide
  induction cs generalizing glue with
  | nil => simp [columnPairs]
  | cons c cs ih =>
    have hrest : ∀ p ∈ columnPairs "," cs, isPlain p.1 = true :=
      ih (by decide) (by decide) (by decide)
    cases c with
    | plain name => exact List.forall_mem_cons.mpr ⟨hglue, hrest⟩
    | hex name =>
      exact List.forall_mem_cons.mpr ⟨hhex, List.forall_mem_cons.mpr ⟨has, hrest⟩⟩
    | geoJson name =>
      exact List.forall_mem_cons.mpr ⟨hgeo, List.forall_mem_cons.mpr ⟨has, hrest⟩⟩

theorem isPlain_selectPairs (sql : SelectSql) : ∀ p ∈ selectPairs sql, isPlain p.1 = true := by
  intro p hp
  rcases List.mem_append.mp hp with hp | hp
  · exact isPlain_columnPairs (by decide) sql.columns p hp
  · simp only [List.mem_cons, List.not_mem_nil, or_false] at hp
    rcases hp with rfl | rfl
    · exact (by decide : isPlain " FROM ".toList = true)
    · exact (by decide : isPlain ".".toList = true)

theorem escape_ok {s t : String} (h : escape s = .ok t) : '`' ∉ s.toList ∧ t = s := by
  rw [escape] at h
  split_ifs at h with hmem
  exact ⟨by simpa using hmem, (Except.ok.inj h).symm⟩

theorem selectColumn_names {e : CatalogEntry} {name : String} {c : SelectColumn}
    (h : selectColumn e.schema name = .ok c) (glue : String) :
    (columnPairs glue [c]).map Prod.snd = (columnNames e name).map String.toList ∧
      '`' ∉ name.toList := by
  obtain ⟨s, p, hs, hp, rfl⟩ := selectColumn_ok_iff.mp h
  refine ⟨?_, (escape_ok hs).1⟩
  rw [columnNames, hp, Option.bind_some]
  split_ifs with hbinary hspatial
  · rw [hbinary]
    rfl
  · rw [hspatial]
    rfl
  · split
    · exact absurd ‹_› hbinary
    · exact absurd ‹_› hspatial
    · rfl

theorem columnPairs_names {e : CatalogEntry} {columns : List String} {cs : List SelectColumn}
    (h : selectColumns e.schema columns = .ok cs) (glue : String) :
    (columnPairs glue cs).map Prod.snd = (columns.flatMap (columnNames e)).map String.toList ∧
      ∀ name ∈ columns, '`' ∉ name.toList := by
  induction columns generalizing cs glue with
  | nil =>
    cases h
    exact ⟨rfl, by simp⟩
  | cons name rest ih =>
    obtain ⟨c, more, hc, hmore, rfl⟩ := selectColumns_cons_iff.mp h
    obtain ⟨hname, hfree⟩ := selectColumn_names hc glue
    obtain ⟨hrest, hfrees⟩ := ih hmore ","
    refine ⟨?_, List.forall_mem_cons.mpr ⟨hfree, hfrees⟩⟩
    rw [columnPairs_cons, List.map_append, hname, hrest, List.flatMap_cons, List.map_append]

theorem mem_columnNames {e : CatalogEntry} {columns : List String} {name : String} :
    name ∈ columns.flatMap (columnNames e) ↔ name ∈ columns := by
  have hself : ∀ c, ∀ n ∈ columnNames e c, n = c := by
    intro c n hn
    rw [columnNames] at hn
    split at hn <;> simpa using hn
  have hmem : ∀ c, c ∈ columnNames e c := by
    intro c
    rw [columnNames]
    split <;> simp
  rw [List.mem_flatMap]
  constructor
  · intro h
    obtain ⟨c, hc, hn⟩ := h
    exact hself c name hn ▸ hc
  · exact fun h => ⟨name, h, hmem name⟩

theorem selectPairs_names {e : CatalogEntry} {columns : List String} {sql : SelectSql}
    {database : String} (hdatabase : e.getDatabaseName = .str database)
    (h : generateSelectSql e columns = .ok sql) :
    (selectPairs sql).map Prod.snd =
        (columns.flatMap (columnNames e) ++ [database, e.table]).map String.toList ∧
      ∀ name ∈ columns.flatMap (columnNames e) ++ [database, e.table], '`' ∉ name.toList := by
  obtain ⟨d, t, cs, hd, ht, hcs, rfl⟩ := generateSelectSql_ok_iff.mp h
  rw [hdatabase, escapeVal] at hd
  obtain ⟨hdfree, rfl⟩ := escape_ok hd
  obtain ⟨htfree, rfl⟩ := escape_ok ht
  obtain ⟨hnames, hfree⟩ := columnPairs_names hcs "SELECT "
  refine ⟨?_, ?_⟩
  · rw [selectPairs, List.map_append, hnames, List.map_append]
    rfl
  · refine List.forall_mem_append.mpr ⟨fun name hname => hfree name ?_, ?_⟩
    · exact mem_columnNames.mp hname
    · exact List.forall_mem_cons.mpr ⟨hdfree, List.forall_mem_singleton.mpr htfree⟩

/-! ### The statement that is sent -/

/-- The names between the backticks of a statement. -/
def quotedNames (sql : String) : List String := (namesIn '`' sql.toList).map String.ofList

/-- The number of marks outside the names. -/
def markCount (sql : String) : ℕ := (outsideOf '`' sql.toList).count '?'

/-- The names of the clause for the replication key. -/
def keyNames (key : String) (value : Val) : List String :=
  match value with
  | .null => [key]
  | _ => [key, key]

/-- The translation succeeds, names exactly the names of the catalog and has one mark outside
them for each value bound, in the order of the parameters. -/
def SendsExactly (isWord : Char → Bool) (names : List String) (text : String)
    (params : Dict String Val) : Prop :=
  ∃ sql values, toQmark isWord text params = .ok (sql, values) ∧ quotedNames sql = names ∧
    markCount sql = values.length ∧ values = params.entries.map Prod.snd

theorem AsciiWords.foreign {isWord : Char → Bool} (hword : AsciiWords isWord) :
    isWord ')' = false ∧ Foreign isWord '`' ∧ Foreign isWord '?' := by
  have hparen := hword ')' (by decide)
  have hquote := hword '`' (by decide)
  have hmark := hword '?' (by decide)
  exact ⟨hparen.trans (by decide), ⟨hquote.trans (by decide), by decide⟩,
    ⟨hmark.trans (by decide), by decide⟩⟩

section Sent

variable {isWord : Char → Bool} {sql : SelectSql} {key : String} {value : Val}
  {names : List String}

theorem clausePairs_names (key : String) (value : Val) :
    (clausePairs key value).map Prod.snd = (keyNames key value).map String.toList := by
  unfold clausePairs keyNames
  split <;> rfl

theorem mem_keyNames {k : String} : k ∈ keyNames key value ↔ k = key := by
  unfold keyNames
  split <;> simp

theorem mem_selectPairs (hnames : (selectPairs sql).map Prod.snd = names.map String.toList)
    {p : List Char × List Char} (hp : p ∈ selectPairs sql) :
    isPlain p.1 = true ∧ ∃ name ∈ names, name.toList = p.2 := by
  have hname : p.2 ∈ names.map String.toList := hnames ▸ List.mem_map_of_mem hp
  exact ⟨isPlain_selectPairs sql p hp, List.mem_map.mp hname⟩

theorem mem_clausePairs {p : List Char × List Char} (hp : p ∈ clausePairs key value) :
    '`' ∉ p.1 ∧ '?' ∉ p.1 ∧ p.2 = key.toList := by
  have horder : '`' ∉ " ORDER BY ".toList ∧ '?' ∉ " ORDER BY ".toList := by decide
  have hwhere : '`' ∉ " WHERE ".toList ∧ '?' ∉ " WHERE ".toList := by decide
  have hvalue : '`' ∉ " >= %(replication_key_value)s ORDER BY ".toList ∧
      '?' ∉ " >= %(replication_key_value)s ORDER BY ".toList := by decide
  unfold clausePairs at hp
  split at hp <;> simp only [List.mem_cons, List.not_mem_nil, or_false] at hp
  · rw [hp]
    exact ⟨horder.1, horder.2, rfl⟩
  · rcases hp with rfl | rfl
    · exact ⟨hwhere.1, hwhere.2, rfl⟩
    · exact ⟨hvalue.1, hvalue.2, rfl⟩

theorem statementQuoted_names (hnames : (selectPairs sql).map Prod.snd = names.map String.toList) :
    ((statementQuoted sql key value).map (fill isWord '?')).names =
      (names.map fun name => fill isWord '?' (double '%' name.toList)) ++
        (keyNames key value).map fun name => fill isWord '?' name.toList := by
  have hclause := congrArg (List.map (fill isWord '?')) (clausePairs_names key value)
  have hselect := congrArg (List.map fun n => fill isWord '?' (double '%' n)) hnames
  rw [List.map_map, List.map_map] at hclause hselect
  simp only [statementQuoted, Quoted.map, Quoted.names, List.map_append, List.map_map]
  exact congrArg₂ (· ++ ·) hselect hclause

variable (isWord value) in
theorem statementQuoted_free (hnames : (selectPairs sql).map Prod.snd = names.map String.toList)
    (hfree : ∀ name ∈ names, '`' ∉ name.toList) (hkey : '`' ∉ key.toList) :
    ((statementQuoted sql key value).map (fill isWord '?')).Free '`' := by
  have hfill : ∀ text : List Char, '`' ∉ text → '`' ∉ fill isWord '?' text := fun text hno hmem =>
    (mem_fill hmem).elim (by decide) hno
  have hdouble : ∀ text : List Char, '`' ∉ text → '`' ∉ double '%' text := by
    intro text hno
    rw [← List.count_eq_zero, count_double (by decide)]
    exact List.count_eq_zero.mpr hno
  have hpairs : ∀ p ∈ (statementQuoted sql key value).pairs, '`' ∉ p.1 ∧ '`' ∉ p.2 := by
    intro p hp
    rcases List.mem_append.mp hp with hp | hp
    · obtain ⟨p', hp', rfl⟩ := List.mem_map.mp hp
      obtain ⟨hplain, name, hname, heq⟩ := mem_selectPairs hnames hp'
      exact ⟨hdouble _ (isPlain_spec hplain).2.2, hdouble _ (heq ▸ hfree name hname)⟩
    · obtain ⟨hglue, -, hname⟩ := mem_clausePairs hp
      exact ⟨hglue, hname ▸ hkey⟩
  refine ⟨fun p hp => ?_, hfill _ (show '`' ∉ " ASC".toList by decide)⟩
  obtain ⟨p', hp', rfl⟩ := List.mem_map.mp hp
  exact ⟨hfill _ (hpairs p' hp').1, hfill _ (hpairs p' hp').2⟩

variable (value) in
/-- The names come out as they are in the catalog exactly when none of the SELECT holds a percent
sign and the key holds no placeholder. -/
theorem names_unchanged_iff (hword : AsciiWords isWord) :
    ((names.map fun name => fill isWord '?' (double '%' name.toList)) ++
        (keyNames key value).map fun name => fill isWord '?' name.toList) =
        (names ++ keyNames key value).map String.toList ↔
      (∀ name ∈ names, '%' ∉ name.toList) ∧ ¬HasPlaceholder isWord key.toList := by
  obtain ⟨hparen, -, hmark⟩ := hword.foreign
  have hkey : key ∈ keyNames key value := mem_keyNames.mpr rfl
  have hsplit : ∀ as bs cs ds : List (List Char), as.length = cs.length →
      (as ++ bs = cs ++ ds ↔ as = cs ∧ bs = ds) := fun as bs cs ds hlength =>
    ⟨fun h => List.append_inj h hlength, fun h => congrArg₂ _ h.1 h.2⟩
  rw [List.map_append, hsplit _ _ _ _ (by simp), List.map_inj_left, List.map_inj_left]
  refine and_congr ?_ ?_
  · exact forall_congr' fun name => imp_congr_right fun _ =>
      fill_double_eq_iff hparen hmark name.toList
  · rw [← fill_eq_self_iff hparen hmark]
    refine ⟨fun h => h key hkey, fun h k hk => ?_⟩
    rw [mem_keyNames.mp hk]
    exact h

/-- The one placeholder of the clause is that of the value. -/
theorem clausePairs_params (hword : AsciiWords isWord) :
    ((clausePairs key value).flatMap fun p => Template.params isWord p.1) =
      match value with
      | .null => []
      | _ => ["replication_key_value".toList] := by
  have hparen := hword.foreign.1
  unfold clausePairs
  split
  · rw [List.flatMap_cons, params_of_notMem hparen (show '%' ∉ " ORDER BY ".toList by decide)]
    rfl
  · have hwords : ∀ c ∈ "replication_key_value".toList, isWord c = true := by
      have hall : ("replication_key_value".toList).all
          (fun c => decide (c.toNat < 128) && (c.isAlphanum || decide (c = '_'))) = true := by
        decide
      intro c hc
      have hc := List.all_eq_true.mp hall c hc
      rw [Bool.and_eq_true, decide_eq_true_eq] at hc
      exact (hword c hc.1).trans hc.2
    have htext : " >= %(replication_key_value)s ORDER BY ".toList = " >= ".toList ++
        ((Token.param "replication_key_value".toList).spell ++ " ORDER BY ".toList) := by decide
    rw [List.flatMap_cons, List.flatMap_cons,
      params_of_notMem hparen (show '%' ∉ " WHERE ".toList by decide), htext,
      params_single hparen (by decide) (by decide) hwords (by decide)]
    rfl

variable (value) in
/-- The placeholders of the statement, when the names hold none. -/
theorem statementQuoted_params (hword : AsciiWords isWord)
    (hnames : (selectPairs sql).map Prod.snd = names.map String.toList)
    (hplain : ∀ name ∈ names, '%' ∉ name.toList) (hkey : ¬HasPlaceholder isWord key.toList) :
    Template.params isWord ((statementQuoted sql key value).spell '`') =
        ((statementQuoted sql key value).pairs.flatMap fun p => Template.params isWord p.1) ∧
      Template.params isWord ((statementQuoted sql key value).spell '`') =
        match value with
        | .null => []
        | _ => ["replication_key_value".toList] := by
  set quoted := statementQuoted sql key value with hquoted
  obtain ⟨hparen, hquote, -⟩ := hword.foreign
  have hselect : ∀ p ∈ (selectPairs sql).map (fun p => (double '%' p.1, double '%' p.2)),
      Template.params isWord p.1 = [] ∧ Template.params isWord p.2 = [] := by
    intro p hp
    obtain ⟨p', hp', rfl⟩ := List.mem_map.mp hp
    obtain ⟨hglue, name, hname, heq⟩ := mem_selectPairs hnames hp'
    have hglue := (isPlain_spec hglue).1
    have hname := heq ▸ hplain name hname
    rw [double_of_notMem hglue, double_of_notMem hname]
    exact ⟨params_of_notMem hparen hglue, params_of_notMem hparen hname⟩
  have hclause : ∀ p ∈ clausePairs key value, Template.params isWord p.2 = [] := by
    intro p hp
    rw [(mem_clausePairs hp).2.2]
    exact (params_eq_nil_iff hparen _).mpr hkey
  have hall : ∀ p ∈ quoted.pairs,
      Template.params isWord p.1 ++ Template.params isWord p.2 = Template.params isWord p.1 := by
    intro p hp
    rcases List.mem_append.mp hp with hp | hp
    · rw [(hselect p hp).2, List.append_nil]
    · rw [hclause p hp, List.append_nil]
  have hspell : Template.params isWord (quoted.spell '`') =
      quoted.pairs.flatMap fun p => Template.params isWord p.1 := by
    have hrest : Template.params isWord quoted.rest = [] :=
      params_of_notMem hparen (show '%' ∉ " ASC".toList by decide)
    have hcollect := collect_spell (params_append hparen hquote) quoted
    rw [hrest, List.append_nil] at hcollect
    exact hcollect.trans (congrArg List.flatten (List.map_congr_left hall))
  refine ⟨hspell, hspell.trans ?_⟩
  have hnil : ((selectPairs sql).map fun p => (double '%' p.1, double '%' p.2)).flatMap
      (fun p => Template.params isWord p.1) = [] :=
    List.flatMap_eq_nil_iff.mpr fun p hp => (hselect p hp).1
  rw [show quoted.pairs = _ ++ clausePairs key value from rfl, List.flatMap_append, hnil,
    List.nil_append, clausePairs_params hword]

theorem count_outside (ps : List (List Char × List Char)) (hmark : Foreign isWord '?')
    (hno : ∀ p ∈ ps, '?' ∉ p.1) (rest : List Char) (hrest : '?' ∉ rest)
    (hparams : Template.params isWord rest = []) :
    ((Quoted.mk ps rest).map (fill isWord '?')).outside.count '?' =
      (ps.flatMap fun p => Template.params isWord p.1).length := by
  have hcount : ∀ text : List Char, '?' ∉ text →
      (fill isWord '?' text).count '?' = (Template.params isWord text).length := by
    intro text htext
    rw [count_fill hmark, List.count_eq_zero.mpr htext, Nat.zero_add]
  rw [Quoted.map, Quoted.outside, List.count_append, hcount rest hrest, hparams,
    List.length_nil, Nat.add_zero]
  induction ps with
  | nil => rfl
  | cons p ps ih =>
    obtain ⟨hp, hps⟩ := List.forall_mem_cons.mp hno
    rw [List.map_cons, List.flatMap_cons, List.flatMap_cons, List.count_append, ih hps,
      List.length_append, hcount _ hp]

theorem statementQuoted_noMarks : ∀ p ∈ (statementQuoted sql key value).pairs, '?' ∉ p.1 := by
  intro p hp
  rcases List.mem_append.mp hp with hp | hp
  · obtain ⟨p', hp', rfl⟩ := List.mem_map.mp hp
    have hplain := isPlain_spec (isPlain_selectPairs sql p' hp')
    rw [double_of_notMem hplain.1]
    exact hplain.2.1
  · exact (mem_clausePairs hp).2.1

theorem whereClause_conditions {e : CatalogEntry} {sql' : SelectSql} (hsql : sql.conditions = [])
    (h : Incremental.whereClause e (.str key) value sql = .ok sql') :
    (value = .null ∧ sql'.conditions = []) ∨
      (value ≠ .null ∧ ∃ v, sql'.conditions = [⟨key, .ge, v⟩]) := by
  unfold Incremental.whereClause at h
  split at h
  · rw [← Except.ok.inj h]
    exact Or.inl ⟨rfl, hsql⟩
  · rename_i hnull
    split at h
    · cases h
    · rename_i v hv
      rw [← Except.ok.inj h]
      exact Or.inr ⟨hnull, v, rfl⟩

/-- The values that are bound are those of the parameters, one for each placeholder. -/
theorem boundValues_clause {e : CatalogEntry} {sql' : SelectSql} {params : Dict String Val}
    {words : List (List Char)}
    (hwords : words = match value with
      | .null => []
      | _ => ["replication_key_value".toList])
    (hsql : sql.conditions = []) (h : Incremental.whereClause e (.str key) value sql = .ok sql')
    (hentries : params.entries = sql'.conditions.map fun c => ("replication_key_value", c.value)) :
    ∃ values, boundValues params words = .ok values ∧ values = params.entries.map Prod.snd ∧
      values.length = words.length := by
  rw [hwords]
  rcases whereClause_conditions hsql h with ⟨rfl, hconditions⟩ | ⟨hnull, v, hconditions⟩
  · rw [hconditions] at hentries
    exact ⟨[], rfl, by rw [hentries]; rfl, rfl⟩
  · rw [hconditions] at hentries
    have hget : params.get? "replication_key_value" = some v := by
      rw [Dict.get?, hentries]
      rfl
    split
    · exact absurd rfl hnull
    · exact ⟨[v], by simp [boundValues, hget], by rw [hentries]; rfl, rfl⟩

end Sent

/-- The statement of `sync_table` reaches ADBC with the names of the catalog, a mark for each
value and no exception exactly when no name of the SELECT holds a percent sign and the
replication key holds no placeholder. -/
theorem statement_sent_exactly_iff {isWord : Char → Bool} (hword : AsciiWords isWord)
    {e : CatalogEntry} {columns : List String} {database key : String} {value : Val}
    {text : String} {params : Dict String Val} (hdatabase : e.getDatabaseName = .str database)
    (hne : columns ≠ []) (hkey : '`' ∉ key.toList)
    (h : Incremental.statement e columns key value = .ok (text, params)) :
    SendsExactly isWord (columns.flatMap (columnNames e) ++ [database, e.table] ++
        keyNames key value) text params ↔
      '%' ∉ database.toList ∧ '%' ∉ e.table.toList ∧ (∀ name ∈ columns, '%' ∉ name.toList) ∧
        ¬HasPlaceholder isWord key.toList := by
  obtain ⟨hparen, hquote, hmark⟩ := hword.foreign
  obtain ⟨sql, sql', hsql, hclause, htext, hentries⟩ := statement_spec hne h
  obtain ⟨hnames, hfree⟩ := selectPairs_names hdatabase hsql
  set names := columns.flatMap (columnNames e) ++ [database, e.table] with hnamesDef
  have hcondition : ((∀ name ∈ names, '%' ∉ name.toList) ∧ ¬HasPlaceholder isWord key.toList) ↔
      '%' ∉ database.toList ∧ '%' ∉ e.table.toList ∧ (∀ name ∈ columns, '%' ∉ name.toList) ∧
        ¬HasPlaceholder isWord key.toList := by
    rw [hnamesDef, List.forall_mem_append, List.forall_mem_cons, List.forall_mem_singleton]
    simp only [mem_columnNames]
    constructor
    · exact fun h => ⟨h.1.2.1, h.1.2.2, h.1.1, h.2⟩
    · exact fun h => ⟨⟨h.2.2.1, h.1, h.2.1⟩, h.2.2.2⟩
  rw [← hcondition]
  -- the text that is sent, as its names and the text around them
  set quoted := (statementQuoted sql key value).map (fill isWord '?') with hquoted
  have hsent : fill isWord '?' text.toList = quoted.spell '`' := by
    rw [htext, map_spell (fill_append hparen hquote)]
  have hfreeSent := statementQuoted_free isWord value hnames hfree hkey
  have hread : ∀ out : String, out.toList = quoted.spell '`' →
      (quotedNames out = names ++ keyNames key value ↔
        (∀ name ∈ names, '%' ∉ name.toList) ∧ ¬HasPlaceholder isWord key.toList) := by
    intro out hout
    rw [← names_unchanged_iff value hword, ← statementQuoted_names hnames, quotedNames,
      hout, namesIn_spell hfreeSent]
    constructor
    · intro h
      rw [← h, List.map_map]
      simp [Function.comp_def]
    · intro h
      rw [h, List.map_map]
      simp [Function.comp_def]
  constructor
  · intro hexact
    obtain ⟨out, values, hout, hnamesOut, -, -⟩ := hexact
    rw [toQmark] at hout
    split at hout
    · cases hout
    · obtain ⟨rfl, -⟩ := Prod.mk.inj (Except.ok.inj hout)
      exact (hread _ (by rw [String.toList_ofList, hsent])).mp hnamesOut
  · intro hcond
    obtain ⟨hglue, hparams⟩ := statementQuoted_params value hword hnames hcond.1 hcond.2
    rw [← htext] at hglue hparams
    have hcount : markCount (String.ofList (fill isWord '?' text.toList)) =
        (Template.params isWord text.toList).length := by
      rw [markCount, String.toList_ofList, hsent, outsideOf_spell hfreeSent, hglue]
      exact count_outside _ hmark statementQuoted_noMarks _ (by decide)
        (params_of_notMem hparen (by decide))
    obtain ⟨values, hbound, hvalues, hlength⟩ :=
      boundValues_clause hparams (generateSelectSql_eq hsql).2.1 hclause hentries
    refine ⟨String.ofList (fill isWord '?' text.toList), values, ?_, ?_, ?_, hvalues⟩
    · rw [toQmark, hbound]
    · exact (hread _ (by rw [String.toList_ofList, hsent])).mpr hcond
    · rw [hcount, hlength]

namespace Sample

/-- A stream whose key column has this name. -/
def keyedBy (column : String) : CatalogEntry where
  tapStreamId := "db-t"
  stream := "db-t"
  table := "t"
  metadata := Dict.ofList [([], Dict.ofList [("database-name", .str "db"),
    ("replication-method", .str "INCREMENTAL"), ("replication-key", .str column)])]
  schema := Dict.ofList [(column, { PropSchema.blank with
    type := some ["null", "integer"], inclusion := some .automatic })]

theorem asciiWords : AsciiWords asciiWord := fun _ _ => rfl

end Sample

open Sample

/-- A name with a question mark is sent as it is, next to the mark of the value. -/
theorem statement_sent_exactly_iff_mark :
    SendsExactly asciiWord ["n?", "db", "t", "n?", "n?"]
      "SELECT `n?` FROM `db`.`t` WHERE `n?` >= %(replication_key_value)s ORDER BY `n?` ASC"
      (Dict.ofList [("replication_key_value", .int 3)]) := by
  have hplain : ¬HasPlaceholder asciiWord "n?".toList := fun h =>
    absurd (percent_mem_of_hasPlaceholder h) (by decide)
  exact (@statement_sent_exactly_iff _ asciiWords (keyedBy "n?") ["n?"] "db" "n?" (.int 3) _ _
    (by decide) (by decide) (by decide) (by decide)).mpr ⟨by decide, by decide, by decide, hplain⟩

/-- The percent sign of a column stays doubled: ADBC is asked for a column of another name. -/
theorem percent_stays_doubled :
    Incremental.statement (keyedBy "a%b") ["a%b"] "a%b" .null =
        .ok ("SELECT `a%%b` FROM `db`.`t` ORDER BY `a%b` ASC", Dict.empty) ∧
      toQmark asciiWord "SELECT `a%%b` FROM `db`.`t` ORDER BY `a%b` ASC" Dict.empty =
        .ok ("SELECT `a%%b` FROM `db`.`t` ORDER BY `a%b` ASC", []) ∧
      ¬SendsExactly asciiWord ["a%b", "db", "t", "a%b"]
        "SELECT `a%%b` FROM `db`.`t` ORDER BY `a%b` ASC" Dict.empty := by
  have htranslated : toQmark asciiWord "SELECT `a%%b` FROM `db`.`t` ORDER BY `a%b` ASC" Dict.empty =
      .ok ("SELECT `a%%b` FROM `db`.`t` ORDER BY `a%b` ASC", []) := by decide
  refine ⟨by decide, htranslated, fun h => ?_⟩
  obtain ⟨sql, values, hsql, hnames, -, -⟩ := h
  rw [htranslated] at hsql
  obtain ⟨rfl, rfl⟩ := Prod.mk.inj (Except.ok.inj hsql)
  exact absurd hnames (by decide)

end TapMysql
