import Mathlib.Data.List.Infix
import Mathlib.Data.List.Sort
import Mathlib.Data.List.SplitBy
import Mathlib.Data.Rat.Lemmas
import Mathlib.Data.String.Basic
import TapMysql.Discovery

/-!
# The catalog of a server

`discover_catalog` on the answers of its two queries of `information_schema`, with the schema and
the metadata that it makes of each column. `str.lower()` is a parameter.
-/

namespace TapMysql

/-- A row of `information_schema.columns`. -/
structure Column where
  tableSchema : String
  tableName : String
  columnName : String
  dataType : String
  characterMaximumLength : Option Nat
  numericPrecision : Option Nat
  numericScale : Option Nat
  columnType : String
  columnKey : String
  deriving DecidableEq

/-- A row of `information_schema.tables`. -/
structure TableInfo where
  tableSchema : String
  tableName : String
  tableType : String
  tableRows : Option Nat
  deriving DecidableEq

structure InformationSchema where
  tables : List TableInfo
  columns : List Column

/-! ### Types -/

/-- `_normalize_data_type`. -/
def normalizeDataType (dataType : String) : String :=
  if dataType = "geomcollection" then "geometrycollection" else dataType

def strip (s : String) : String :=
  String.ofList ((s.toList.dropWhile isSpace).reverse.dropWhile isSpace).reverse

/-- `^(tinyint|smallint|mediumint|int|bigint|year)\((\d+)\)(.*)`, with its three groups. -/
def integerDisplayWidth (columnType : String) : Option (String × String × String) :=
  ["tinyint", "smallint", "mediumint", "int", "bigint", "year"].findSome? fun base =>
    match (base ++ "(").toList.isPrefixOf? columnType.toList with
    | none => none
    | some rest =>
      match rest.takeWhile Char.isDigit, rest.dropWhile Char.isDigit with
      | d :: ds, ')' :: modifiers => some
          (base, String.ofList (d :: ds), String.ofList (modifiers.takeWhile fun c => c ≠ '\n'))
      | _, _ => none

def normalizeColumnType (lower : String → String) (c : Column) : String :=
  let columnType := lower c.columnType
  if columnType = "geomcollection" then "geometrycollection"
  else
    match integerDisplayWidth columnType with
    | none => columnType
    | some (base, width, modifiers) =>
      let modifiers := strip modifiers
      if base = "tinyint" ∧ width = "1" ∧ modifiers = "unsigned" then columnType
      else strip (base ++ if modifiers = "" then "" else " " ++ modifiers)

def bytesForIntegerType (dataType : String) : Option Nat :=
  [("tinyint", 1), ("smallint", 2), ("mediumint", 3), ("int", 4), ("bigint", 8)].lookup dataType

def jsonAsTypes : List String := ["object", "string"]

def datetimeFormat (dataType : String) : String :=
  if dataType = "time" then "time" else if dataType = "date" then "date" else "date-time"

/-- The schema of a column whose inclusion is known and whose type is one of the supported ones. -/
def supportedSchema (result : PropSchema) (jsonAsType dataType columnType : String) (c : Column) :
    Option (Except Err PropSchema) :=
  if boolTypes.contains dataType || "tinyint(1)".toList.isPrefixOf columnType.toList then
    some (.ok { result with type := some ["null", "boolean"] })
  else if let some bytes := bytesForIntegerType dataType then
    let bits := bytes * 8
    let result := { result with type := some ["null", "integer"] }
    if "unsigned".toList <:+: columnType.toList then
      some (.ok { result with minimum := some 0, maximum := some (2 ^ bits - 1) })
    else some (.ok { result with
      minimum := some (0 - 2 ^ (bits - 1))
      maximum := some (2 ^ (bits - 1) - 1) })
  else if floatTypes.contains dataType then
    let result := { result with type := some ["null", "number"] }
    if dataType = "decimal" then
      match c.numericScale with
      | some scale => some (.ok { result with multipleOf := some (1 / 10 ^ scale) })
      | none => some (.error
          ⟨.typeError, "unsupported operand type(s) for -: 'int' and 'NoneType'"⟩)
    else some (.ok result)
  else if jsonTypes.contains dataType then
    some (.ok { result with type := some ["null", jsonAsType] })
  else if stringTypes.contains dataType then
    some (.ok { result with
      type := some ["null", "string"]
      maxLength := c.characterMaximumLength })
  else if datetimeTypes.contains dataType then
    some (.ok { result with
      type := some ["null", "string"]
      format := some (datetimeFormat dataType) })
  else if binaryTypes.contains dataType then
    some (.ok { result with type := some ["null", "string"], format := some "binary" })
  else if spatialTypes.contains dataType then
    some (.ok { result with type := some ["null", "object"], format := some "spatial" })
  else none

def schemaForColumn (lower : String → String) (jsonAsType : String) (c : Column) :
    Except Err PropSchema :=
  if jsonAsTypes.contains jsonAsType then
    let columnType := lower c.columnType
    -- primary key columns are included automatically
    let inclusion := if lower c.columnKey = "pri" then Inclusion.automatic else .available
    match supportedSchema { PropSchema.blank with inclusion := some inclusion } jsonAsType
        (normalizeDataType (lower c.dataType)) columnType c with
    | some result => result
    | none => .ok { PropSchema.blank with
        inclusion := some .unsupported
        description := some ("Unsupported column type " ++ columnType) }
  else .error ⟨.valueError,
    "json_as_type must be one of ['object', 'string'], got '" ++ jsonAsType ++ "'"⟩

/-- Every supported type of a column has a type in the schema. -/
theorem supportedSchema_type {result p : PropSchema} {jsonAsType dataType columnType : String}
    {c : Column} (h : supportedSchema result jsonAsType dataType columnType c = some (.ok p)) :
    ∃ types, p.type = some types := by
  rw [supportedSchema] at h
  cases hbytes : bytesForIntegerType dataType with
  | some bytes =>
    simp only [hbytes] at h
    split_ifs at h <;> cases h <;> exact ⟨_, rfl⟩
  | none =>
    simp only [hbytes] at h
    cases hscale : c.numericScale <;> simp only [hscale] at h <;> split_ifs at h <;> cases h <;>
      exact ⟨_, rfl⟩

/-- Only a column that is not supported has no type. -/
theorem schemaForColumn_type {lower : String → String} {jsonAsType : String} {c : Column}
    {p : PropSchema} (h : schemaForColumn lower jsonAsType c = .ok p)
    (hsupported : p.inclusion ≠ some .unsupported) : ∃ types, p.type = some types := by
  simp only [schemaForColumn] at h
  split at h
  · split at h
    · rename_i result hresult
      exact supportedSchema_type (hresult.trans (congrArg some h))
    · obtain rfl := Except.ok.inj h
      exact absurd rfl hsupported
  · cases h

theorem schemaForColumn_json {lower : String → String} {jsonAsType : String} {c : Column}
    {p : PropSchema} (h : schemaForColumn lower jsonAsType c = .ok p)
    (hdata : lower c.dataType = "json") (hcolumn : lower c.columnType = "json") :
    p.type = some ["null", jsonAsType] ∧ (jsonAsType = "object" ∨ jsonAsType = "string") := by
  simp only [schemaForColumn] at h
  split at h
  · rename_i hjson
    rw [hdata, hcolumn] at h
    obtain rfl := Except.ok.inj h
    exact ⟨rfl, by simpa [jsonAsTypes] using hjson⟩
  · cases h

/-! ### Metadata -/

/-- `metadata.write`. -/
def MdMap.write (md : MdMap) (breadcrumb : List String) (key : String) (v : Val) : MdMap :=
  md.set breadcrumb (((md.get? breadcrumb).getD Dict.empty).set key v)

theorem MdMap.field_write (md : MdMap) (b c : List String) (k j : String) (v : Val) :
    (md.write b k v).field c j = if b = c ∧ k = j then v else md.field c j := by
  by_cases hb : b = c
  · subst hb
    by_cases hk : k = j <;> simp [MdMap.write, MdMap.field, Dict.get?_set, hk]
  · simp [MdMap.write, MdMap.field, Dict.get?_set, hb]

def writeColumnMetadata (lower : String → String) (md : MdMap) (c : Column)
    (schema : PropSchema) : MdMap :=
  let breadcrumb := ["properties", c.columnName]
  let supported := decide (schema.inclusion ≠ some .unsupported)
  let md := md.write breadcrumb "selected-by-default" (.bool supported)
  let md := md.write breadcrumb "sql-datatype" (.str (normalizeColumnType lower c))
  md.write breadcrumb "datatype" (.str (normalizeDataType (lower c.dataType)))

def columnMetadataLoop (lower : String → String) : List Column → MdMap → Except Err MdMap
  | [], md => .ok md
  | c :: cols, md =>
    match schemaForColumn lower "object" c with
    | .error e => .error e
    | .ok schema => columnMetadataLoop lower cols (writeColumnMetadata lower md c schema)

def createColumnMetadata (lower : String → String) (cols : List Column) : Except Err MdMap :=
  columnMetadataLoop lower cols (MdMap.write Dict.empty [] "selected-by-default" (.bool false))

/-! ### Entries -/

/-- What `table_info` keeps of a table. -/
structure TableFacts where
  rowCount : Option Nat
  isView : Bool

def addTableInfo (info : Dict String (Dict String TableFacts)) (t : TableInfo) :
    Dict String (Dict String TableFacts) :=
  info.set t.tableSchema (((info.get? t.tableSchema).getD Dict.empty).set t.tableName
    ⟨t.tableRows, decide (t.tableType = "VIEW")⟩)

def tableInfo (tables : List TableInfo) : Dict String (Dict String TableFacts) :=
  tables.foldl addTableInfo Dict.empty

/-- `table_info[table_schema][table_name]`. -/
def tableFacts (info : Dict String (Dict String TableFacts)) (tableSchema tableName : String) :
    Except Err TableFacts :=
  match info.get? tableSchema with
  | none => .error (.keyError tableSchema)
  | some tables =>
    match tables.get? tableName with
    | none => .error (.keyError tableName)
    | some facts => .ok facts

def columnSchemas (lower : String → String) (jsonAsType : String) :
    List Column → Except Err (List (String × PropSchema))
  | [] => .ok []
  | c :: cols =>
    match schemaForColumn lower jsonAsType c with
    | .error e => .error e
    | .ok p =>
      match columnSchemas lower jsonAsType cols with
      | .error e => .error e
      | .ok ps => .ok ((c.columnName, p) :: ps)

def columnIsKeyProp (schema : Schema) (c : Column) : Bool :=
  decide (c.columnKey = "PRI") &&
    decide ((schema.get? c.columnName).bind PropSchema.inclusion ≠ some .unsupported)

def entryMetadata (md : MdMap) (tableSchema : String) (facts : TableFacts)
    (keyProperties : List String) : MdMap :=
  let md := md.write [] "database-name" (.str tableSchema)
  let md := match facts.rowCount with
    | some n => md.write [] "row-count" (.int n)
    | none => md
  let md := md.write [] "is-view" (.bool facts.isView)
  if facts.isView then md
  else md.write [] "table-key-properties" (.list (keyProperties.map Val.str))

/-- The entry of one table, made of its columns. -/
def discoverEntry (lower : String → String) (jsonAsType : String)
    (info : Dict String (Dict String TableFacts)) (table : String × String) (cols : List Column) :
    Except Err CatalogEntry :=
  match columnSchemas lower jsonAsType cols with
  | .error e => .error e
  | .ok properties =>
    match createColumnMetadata lower cols with
    | .error e => .error e
    | .ok md =>
      match tableFacts info table.1 table.2 with
      | .error e => .error e
      | .ok facts =>
        let schema := Dict.ofList properties
        let keyProperties := (cols.filter (columnIsKeyProp schema)).map Column.columnName
        .ok
          { tapStreamId := generateTapStreamId table.1 table.2
            stream := table.2
            table := table.2
            metadata := entryMetadata md table.1 facts keyProperties
            schema := schema }

def Column.table (c : Column) : String × String := (c.tableSchema, c.tableName)

/-- `itertools.groupby` by schema and table. -/
def groupByTable (columns : List Column) : List (List Column) :=
  columns.splitBy fun a b => decide (a.table = b.table)

def discoverGroups (lower : String → String) (jsonAsType : String)
    (info : Dict String (Dict String TableFacts)) :
    List (List Column) → Except Err (List CatalogEntry)
  | [] => .ok []
  | [] :: groups => discoverGroups lower jsonAsType info groups
  | (c :: cols) :: groups =>
    match discoverEntry lower jsonAsType info c.table (c :: cols) with
    | .error e => .error e
    | .ok entry =>
      match discoverGroups lower jsonAsType info groups with
      | .error e => .error e
      | .ok entries => .ok (entry :: entries)

/-- The catalog that `discover_catalog` makes of the answers of the two queries. -/
def discoverAnswers (lower : String → String) (jsonAsType : String) (tables : List TableInfo)
    (columns : List Column) : Except Err (List CatalogEntry) :=
  discoverGroups lower jsonAsType (tableInfo tables) (groupByTable columns)

/-! ### The two queries -/

def systemSchemas : List String := ["information_schema", "performance_schema", "mysql", "sys"]

/-- `table_schema_clause`. -/
def schemaMatches (dbs : Option String) (tableSchema : String) : Bool :=
  match dbs.filter fun d => decide (d ≠ "") with
  | some d => (splitOn ',' d).contains tableSchema
  | none => !systemSchemas.contains tableSchema

/-- `tables_clause`. -/
def tableMatches (tables : Option String) (tableName : String) : Bool :=
  match tables.filter fun t => decide (t ≠ "") with
  | some t => (splitOn ',' t).contains tableName
  | none => true

def filterMatches (dbs tables : Option String) (table : String × String) : Bool :=
  schemaMatches dbs table.1 && tableMatches tables table.2

/-- `ORDER BY table_schema, table_name`. -/
def tableLE (a b : Column) : Prop :=
  a.tableSchema < b.tableSchema ∨ a.tableSchema = b.tableSchema ∧ a.tableName ≤ b.tableName

instance : DecidableRel tableLE := fun _ _ => inferInstanceAs (Decidable (_ ∨ _))

def tablesQuery (server : InformationSchema) (dbs tables : Option String) : List TableInfo :=
  server.tables.filter fun t => filterMatches dbs tables (t.tableSchema, t.tableName)

def columnsQuery (server : InformationSchema) (dbs tables : Option String) : List Column :=
  (server.columns.filter fun c => filterMatches dbs tables c.table).insertionSort tableLE

def discoverCatalog (lower : String → String) (server : InformationSchema)
    (dbs tables : Option String) (jsonAsType : String) : Except Err (List CatalogEntry) :=
  discoverAnswers lower jsonAsType (tablesQuery server dbs tables) (columnsQuery server dbs tables)

theorem mem_columnsQuery {server : InformationSchema} {dbs tables : Option String} {c : Column}
    (h : c ∈ columnsQuery server dbs tables) : c ∈ server.columns := by
  rw [columnsQuery, List.mem_insertionSort] at h
  exact (List.mem_filter.mp h).1

/-! ### What an entry says of its table -/

/-- The property `name` with the schema `p` comes from a column of the table. -/
def ColumnOf (lower : String → String) (jsonAsType : String) (columns : List Column)
    (table : String × String) (name : String) (p : PropSchema) : Prop :=
  ∃ c ∈ columns, c.table = table ∧ c.columnName = name ∧ schemaForColumn lower jsonAsType c = .ok p

/-- The entry is that of the table `t`. -/
structure DescribesTable (lower : String → String) (jsonAsType : String) (columns : List Column)
    (t : String × String) (e : CatalogEntry) : Prop where
  tapStreamId : e.tapStreamId = generateTapStreamId t.1 t.2
  table : e.table = t.2
  databaseName : e.getDatabaseName = .str t.1
  schema : ∀ name p, e.schema.get? name = some p → ColumnOf lower jsonAsType columns t name p
  keyProperties : ∀ name ∈ e.getKeyProperties, ∃ c ∈ columns,
    c.table = t ∧ c.columnName = name ∧ c.columnKey = "PRI"

variable {lower : String → String} {jsonAsType : String}
  {info : Dict String (Dict String TableFacts)} {table : String × String} {cols : List Column}
  {e : CatalogEntry}

theorem columnSchemas_cons_iff {c : Column} {properties : List (String × PropSchema)} :
    columnSchemas lower jsonAsType (c :: cols) = .ok properties ↔
      ∃ p rest, schemaForColumn lower jsonAsType c = .ok p ∧
        columnSchemas lower jsonAsType cols = .ok rest ∧
        properties = (c.columnName, p) :: rest := by
  rw [columnSchemas]
  cases schemaForColumn lower jsonAsType c with
  | error err => simp
  | ok p => cases columnSchemas lower jsonAsType cols <;> simp [eq_comm]

theorem columnSchemas_mem {properties : List (String × PropSchema)}
    (h : columnSchemas lower jsonAsType cols = .ok properties) {name : String} {p : PropSchema}
    (hmem : (name, p) ∈ properties) :
    ∃ c ∈ cols, c.columnName = name ∧ schemaForColumn lower jsonAsType c = .ok p := by
  induction cols generalizing properties with
  | nil =>
    cases h
    simp at hmem
  | cons c cols ih =>
    obtain ⟨q, rest, hq, hrest, rfl⟩ := columnSchemas_cons_iff.mp h
    rcases List.mem_cons.mp hmem with heq | hmem
    · obtain ⟨rfl, rfl⟩ := Prod.mk.inj heq
      exact ⟨c, List.mem_cons_self, rfl, hq⟩
    · obtain ⟨c', hc', hp⟩ := ih hrest hmem
      exact ⟨c', List.mem_cons_of_mem c hc', hp⟩

theorem field_entryMetadata (md : MdMap) (tableSchema : String) (facts : TableFacts)
    (keyProperties : List String) (key : String) :
    (entryMetadata md tableSchema facts keyProperties).field [] key =
      if facts.isView = false ∧ key = "table-key-properties" then
        .list (keyProperties.map Val.str)
      else if key = "is-view" then .bool facts.isView
      else if key = "row-count" ∧ facts.rowCount.isSome then .int (facts.rowCount.getD 0)
      else if key = "database-name" then .str tableSchema
      else md.field [] key := by
  obtain ⟨rowCount, isView⟩ := facts
  cases isView <;> cases rowCount <;>
    simp [entryMetadata, MdMap.field_write, eq_comm (b := key)]

theorem namesOf_map_str (names : List String) :
    CatalogEntry.namesOf (.list (names.map Val.str)) = names := by
  induction names with
  | nil => rfl
  | cons name names ih =>
    simp only [CatalogEntry.namesOf] at ih
    simp [CatalogEntry.namesOf, ih]

theorem columnMetadataLoop_field {md md' : MdMap} (h : columnMetadataLoop lower cols md = .ok md')
    (key : String) : md'.field [] key = md.field [] key := by
  induction cols generalizing md with
  | nil =>
    cases h
    rfl
  | cons c cols ih =>
    rw [columnMetadataLoop] at h
    split at h
    · cases h
    · rw [ih h]
      simp [writeColumnMetadata, MdMap.field_write]

/-- What a discovered entry is made of. -/
theorem discoverEntry_eq_ok_iff :
    discoverEntry lower jsonAsType info table cols = .ok e ↔
      ∃ properties md facts, columnSchemas lower jsonAsType cols = .ok properties ∧
        createColumnMetadata lower cols = .ok md ∧ tableFacts info table.1 table.2 = .ok facts ∧
        e =
          { tapStreamId := generateTapStreamId table.1 table.2
            stream := table.2
            table := table.2
            metadata := entryMetadata md table.1 facts
              ((cols.filter (columnIsKeyProp (Dict.ofList properties))).map Column.columnName)
            schema := Dict.ofList properties } := by
  rw [discoverEntry]
  cases columnSchemas lower jsonAsType cols with
  | error err => simp
  | ok properties =>
    cases createColumnMetadata lower cols with
    | error err => simp
    | ok md =>
      cases tableFacts info table.1 table.2 with
      | error err => simp
      | ok facts => simp [eq_comm]

theorem discoverEntry_ok {columns : List Column} (hcols : ∀ c ∈ cols, c ∈ columns ∧ c.table = table)
    (h : discoverEntry lower jsonAsType info table cols = .ok e) :
    DescribesTable lower jsonAsType columns table e := by
  obtain ⟨properties, md, facts, hproperties, hmd, hfacts, rfl⟩ := discoverEntry_eq_ok_iff.mp h
  refine ⟨rfl, rfl, ?_, fun name p hp => ?_, fun name hname => ?_⟩
  · simp [CatalogEntry.getDatabaseName, CatalogEntry.streamMetadata, field_entryMetadata]
  · obtain ⟨c, hc, hname, hschema⟩ := columnSchemas_mem hproperties (Dict.mem_of_get?_ofList hp)
    exact ⟨c, (hcols c hc).1, (hcols c hc).2, hname, hschema⟩
  · have hview : md.field [] "view-key-properties" = .null := by
      rw [columnMetadataLoop_field hmd]
      rfl
    simp only [CatalogEntry.getKeyProperties, CatalogEntry.getIsView,
      CatalogEntry.streamMetadata, field_entryMetadata] at hname
    cases hisView : facts.isView with
    | true => simp [hisView, hview, Val.truthy, CatalogEntry.namesOf] at hname
    | false =>
      simp only [hisView, Val.truthy, if_true, if_false, false_and, true_and,
        String.reduceEq, namesOf_map_str, Bool.false_eq_true, List.mem_map,
        List.mem_filter] at hname
      obtain ⟨c, ⟨hc, hkey⟩, rfl⟩ := hname
      rw [columnIsKeyProp, Bool.and_eq_true, decide_eq_true_eq] at hkey
      exact ⟨c, (hcols c hc).1, (hcols c hc).2, rfl, hkey.1⟩

/-! ### Groups -/

theorem groupByTable_table {columns group : List Column} (h : group ∈ groupByTable columns) :
    ∀ c ∈ group, ∀ d ∈ group, c.table = d.table := by
  have hchain := List.isChain_of_mem_splitBy h
  have htables : (group.map Column.table).IsChain (· = ·) := by
    rw [List.isChain_map]
    exact hchain.imp fun c d hcd => by simpa using hcd
  have hpairwise := List.isChain_iff_pairwise.mp htables
  intro c hc d hd
  exact hpairwise.forall_of_forall (fun _ _ => rfl) (List.mem_map_of_mem hc)
    (List.mem_map_of_mem hd)

theorem mem_of_mem_groupByTable {columns group : List Column} (h : group ∈ groupByTable columns) :
    ∀ c ∈ group, c ∈ columns := by
  intro c hc
  rw [← List.flatten_splitBy (fun a b => decide (a.table = b.table)) columns]
  exact List.mem_flatten_of_mem h hc

theorem discoverGroups_cons_iff {c : Column} {groups : List (List Column)}
    {entries : List CatalogEntry} :
    discoverGroups lower jsonAsType info ((c :: cols) :: groups) = .ok entries ↔
      ∃ entry rest, discoverEntry lower jsonAsType info c.table (c :: cols) = .ok entry ∧
        discoverGroups lower jsonAsType info groups = .ok rest ∧ entries = entry :: rest := by
  rw [discoverGroups]
  cases discoverEntry lower jsonAsType info c.table (c :: cols) with
  | error err => simp
  | ok entry => cases discoverGroups lower jsonAsType info groups <;> simp [eq_comm]

/-- The entry that is made of a group describes the table of its first column. -/
theorem describesTable_of_group {columns : List Column} {c : Column}
    (hgroup : c :: cols ∈ groupByTable columns)
    (h : discoverEntry lower jsonAsType info c.table (c :: cols) = .ok e) :
    DescribesTable lower jsonAsType columns c.table e := by
  refine discoverEntry_ok (fun d hd => ⟨mem_of_mem_groupByTable hgroup d hd, ?_⟩) h
  exact groupByTable_table hgroup d hd c List.mem_cons_self

theorem discoverGroups_mem {columns : List Column} {groups : List (List Column)}
    (hgroups : ∀ g ∈ groups, g ∈ groupByTable columns) {entries : List CatalogEntry}
    (h : discoverGroups lower jsonAsType info groups = .ok entries) (he : e ∈ entries) :
    ∃ c ∈ columns, DescribesTable lower jsonAsType columns c.table e := by
  induction groups generalizing entries with
  | nil =>
    cases h
    simp at he
  | cons g groups ih =>
    obtain ⟨hg, hrest⟩ := List.forall_mem_cons.mp hgroups
    obtain _ | ⟨c, cols⟩ := g
    · exact ih hrest h he
    · obtain ⟨entry, rest, hentry, hrestEntries, rfl⟩ := discoverGroups_cons_iff.mp h
      rcases List.mem_cons.mp he with rfl | he
      · exact ⟨c, mem_of_mem_groupByTable hg c List.mem_cons_self,
          describesTable_of_group hg hentry⟩
      · exact ih hrest hrestEntries he

theorem discoverAnswers_head {tables : List TableInfo} {columns : List Column}
    {rest : List CatalogEntry}
    (h : discoverAnswers lower jsonAsType tables columns = .ok (e :: rest)) :
    ∃ c cs, columns = c :: cs ∧ DescribesTable lower jsonAsType columns c.table e := by
  obtain _ | ⟨c, cs⟩ := columns
  · cases h
  · refine ⟨c, cs, rfl, ?_⟩
    rw [discoverAnswers] at h
    cases hgroups : groupByTable (c :: cs) with
    | nil => exact absurd hgroups (List.splitBy_ne_nil.mpr (List.cons_ne_nil c cs))
    | cons g groups =>
      have hmem : g ∈ groupByTable (c :: cs) := by
        rw [hgroups]
        exact List.mem_cons_self
      have hflatten : (g :: groups).flatten = c :: cs := by
        rw [← hgroups]
        exact List.flatten_splitBy _ _
      obtain _ | ⟨c', cols⟩ := g
      · exact absurd rfl (List.ne_nil_of_mem_splitBy hmem)
      · obtain ⟨rfl, -⟩ := List.cons.inj hflatten
        rw [hgroups] at h
        obtain ⟨entry, rest', hentry, -, heq⟩ := discoverGroups_cons_iff.mp h
        obtain ⟨rfl, -⟩ := List.cons.inj heq
        exact describesTable_of_group hmem hentry

end TapMysql
