import TapMysql.DiscoverCatalog
import TapMysql.Lib.Runs

/-!
# The tables of the two queries

`discover_catalog` joins the answers of two queries, between which a table may be created or
dropped. Discovery makes one entry for each table of the second answer, or raises.
-/

namespace TapMysql

variable {lower : String → String} {jsonAsType : String}
  {info : Dict String (Dict String TableFacts)} {table : String × String}
  {columns cols : List Column} {e : CatalogEntry}

/-! ### Schemas -/

/-- A column that is described as a decimal has its scale. -/
def ScaleGiven (lower : String → String) (c : Column) : Prop :=
  normalizeDataType (lower c.dataType) = "decimal" →
    "tinyint(1)".toList.isPrefixOf (lower c.columnType).toList = false → c.numericScale.isSome

theorem supportedSchema_raises_iff (result : PropSchema) (jsonAsType dataType columnType : String)
    (c : Column) :
    (∃ err, supportedSchema result jsonAsType dataType columnType c = some (.error err)) ↔
      dataType = "decimal" ∧ "tinyint(1)".toList.isPrefixOf columnType.toList = false ∧
        c.numericScale = none := by
  by_cases hdecimal : dataType = "decimal"
  · subst hdecimal
    have hinteger : bytesForIntegerType "decimal" = none := by decide
    unfold supportedSchema
    generalize "tinyint(1)".toList.isPrefixOf columnType.toList = isBool
    cases isBool <;> cases c.numericScale <;> simp [hinteger, boolTypes, floatTypes]
  · simp only [hdecimal, false_and, iff_false, not_exists]
    intro err h
    simp only [supportedSchema, hdecimal, if_false] at h
    cases hbytes : bytesForIntegerType dataType <;> simp only [hbytes] at h <;>
      split_ifs at h <;> cases h

theorem schemaForColumn_ok_iff (hjson : jsonAsType ∈ jsonAsTypes) (c : Column) :
    (∃ p, schemaForColumn lower jsonAsType c = .ok p) ↔ ScaleGiven lower c := by
  have hraises := supportedSchema_raises_iff
    { PropSchema.blank with
      inclusion := some (if lower c.columnKey = "pri" then .automatic else .available) }
    jsonAsType (normalizeDataType (lower c.dataType)) (lower c.columnType) c
  have hcontains : jsonAsTypes.contains jsonAsType = true := by simpa using hjson
  have hgiven : ScaleGiven lower c ↔ ¬ (normalizeDataType (lower c.dataType) = "decimal" ∧
      "tinyint(1)".toList.isPrefixOf (lower c.columnType).toList = false ∧
        c.numericScale = none) := by
    rw [ScaleGiven, Option.isSome_iff_ne_none]
    tauto
  rw [hgiven, ← hraises]
  simp only [schemaForColumn, hcontains, if_true]
  split
  · rename_i r hr
    cases r with
    | error err => simp [hr]
    | ok p => simp [hr]
  · rename_i hr
    simp [hr]

theorem columnSchemas_ok_iff :
    (∃ ps, columnSchemas lower jsonAsType cols = .ok ps) ↔
      ∀ c ∈ cols, ∃ p, schemaForColumn lower jsonAsType c = .ok p := by
  induction cols with
  | nil => simp [columnSchemas]
  | cons c cols ih =>
    rw [List.forall_mem_cons, ← ih]
    cases hc : schemaForColumn lower jsonAsType c with
    | error err => simp [columnSchemas, hc]
    | ok p => cases hcols : columnSchemas lower jsonAsType cols <;> simp [columnSchemas, hc, hcols]

theorem columnSchemas_names {properties : List (String × PropSchema)}
    (h : columnSchemas lower jsonAsType cols = .ok properties) :
    properties.map Prod.fst = cols.map Column.columnName := by
  induction cols generalizing properties with
  | nil =>
    cases h
    rfl
  | cons c cols ih =>
    obtain ⟨p, rest, -, hrest, rfl⟩ := columnSchemas_cons_iff.mp h
    rw [List.map_cons, List.map_cons, ih hrest]

theorem createColumnMetadata_ok_iff :
    (∃ md, createColumnMetadata lower cols = .ok md) ↔
      ∀ c ∈ cols, ∃ p, schemaForColumn lower "object" c = .ok p := by
  rw [createColumnMetadata]
  generalize MdMap.write Dict.empty [] "selected-by-default" (.bool false) = md
  induction cols generalizing md with
  | nil => simp [columnMetadataLoop]
  | cons c cols ih =>
    rw [List.forall_mem_cons, columnMetadataLoop]
    cases hc : schemaForColumn lower "object" c with
    | error err => simp
    | ok p => simpa using ih (writeColumnMetadata lower md c p)

/-! ### Table facts -/

/-- The answer of the tables query has the table. -/
def Listed (tables : List TableInfo) (table : String × String) : Prop :=
  ∃ t ∈ tables, (t.tableSchema, t.tableName) = table

theorem tableFacts_ok_iff {tableSchema tableName : String} :
    (∃ facts, tableFacts info tableSchema tableName = .ok facts) ↔
      ∃ tables, info.get? tableSchema = some tables ∧ tableName ∈ tables.keys := by
  rw [tableFacts]
  cases info.get? tableSchema with
  | none => simp
  | some tables =>
    simp only [Option.some.injEq, exists_eq_left', Dict.mem_keys_iff]
    cases tables.get? tableName <;> simp

theorem tableFacts_addTableInfo (t : TableInfo) {tableSchema tableName : String} :
    (∃ facts, tableFacts (addTableInfo info t) tableSchema tableName = .ok facts) ↔
      (t.tableSchema, t.tableName) = (tableSchema, tableName) ∨
        ∃ facts, tableFacts info tableSchema tableName = .ok facts := by
  rw [tableFacts_ok_iff, tableFacts_ok_iff, addTableInfo, Dict.get?_set, Prod.mk.injEq]
  by_cases hschema : t.tableSchema = tableSchema
  · subst hschema
    simp only [if_true, Option.some.injEq, exists_eq_left', Dict.mem_keys_set, true_and,
      eq_comm (a := tableName)]
    cases info.get? t.tableSchema <;> simp
  · simp [hschema]

theorem tableFacts_tableInfo_iff (tables : List TableInfo) :
    (∃ facts, tableFacts (tableInfo tables) table.1 table.2 = .ok facts) ↔ Listed tables table := by
  induction tables using List.reverseRecOn with
  | nil => simp [tableInfo, tableFacts, Listed]
  | append_singleton tables t ih =>
    rw [tableInfo, List.foldl_append, List.foldl_cons, List.foldl_nil, tableFacts_addTableInfo,
      ← tableInfo, ih, Listed, Listed]
    simp [or_and_right, exists_or, or_comm]

/-! ### Entries -/

/-- The rows of a table in the answer of the columns query. -/
def tableColumns (columns : List Column) (table : String × String) : List Column :=
  columns.filter fun c => decide (c.table = table)

def hasSupportedType (schema : Schema) (c : Column) : Bool :=
  (schema.get? c.columnName).any fun p => decide (p.inclusion ≠ some .unsupported)

/-- The names of the `PRI` columns of the table that have a supported type, in their order. -/
def supportedKey (columns : List Column) (table : String × String) (schema : Schema) :
    List String :=
  ((tableColumns columns table).filter fun c =>
    decide (c.columnKey = "PRI") && hasSupportedType schema c).map Column.columnName

/-- The entry has a property for each column of the table and for no other name, and the key of
the table unless it is a view. -/
structure EntryOfTable (lower : String → String) (jsonAsType : String) (columns : List Column)
    (t : String × String) (e : CatalogEntry) : Prop
    extends DescribesTable lower jsonAsType columns t e where
  properties : ∀ name, name ∈ e.schema.keys ↔ ∃ c ∈ columns, c.table = t ∧ c.columnName = name
  tableKeyProperties : e.streamMetadata "table-key-properties" =
    if e.getIsView then .null else .list ((supportedKey columns t e.schema).map Val.str)

theorem mem_tableColumns {c : Column} :
    c ∈ tableColumns columns table ↔ c ∈ columns ∧ c.table = table := by
  rw [tableColumns, List.mem_filter, decide_eq_true_eq]

theorem discoverEntry_ok_iff (hjson : jsonAsType ∈ jsonAsTypes) :
    (∃ e, discoverEntry lower jsonAsType info table cols = .ok e) ↔
      (∀ c ∈ cols, ScaleGiven lower c) ∧ ∃ facts, tableFacts info table.1 table.2 = .ok facts := by
  have hschemas : (∃ ps, columnSchemas lower jsonAsType cols = .ok ps) ↔
      ∀ c ∈ cols, ScaleGiven lower c := by
    simp only [columnSchemas_ok_iff, schemaForColumn_ok_iff hjson]
  have hmetadata : (∃ md, createColumnMetadata lower cols = .ok md) ↔
      ∀ c ∈ cols, ScaleGiven lower c := by
    have hobject : "object" ∈ jsonAsTypes := List.mem_cons_self
    simp only [createColumnMetadata_ok_iff, schemaForColumn_ok_iff hobject]
  constructor
  · intro h
    obtain ⟨e, he⟩ := h
    obtain ⟨properties, md, facts, hproperties, -, hfacts, -⟩ := discoverEntry_eq_ok_iff.mp he
    exact ⟨hschemas.mp ⟨properties, hproperties⟩, facts, hfacts⟩
  · intro h
    obtain ⟨hscale, facts, hfacts⟩ := h
    obtain ⟨properties, hproperties⟩ := hschemas.mpr hscale
    obtain ⟨md, hmd⟩ := hmetadata.mpr hscale
    exact ⟨_, discoverEntry_eq_ok_iff.mpr ⟨properties, md, facts, hproperties, hmd, hfacts, rfl⟩⟩

theorem columnIsKeyProp_eq {schema : Schema} {c : Column} (h : c.columnName ∈ schema.keys) :
    columnIsKeyProp schema c =
      (decide (c.columnKey = "PRI") && hasSupportedType schema c) := by
  obtain ⟨p, hp⟩ := Dict.mem_keys_iff.mp h
  simp [columnIsKeyProp, hasSupportedType, hp]

theorem discoverEntry_entryOfTable
    (h : discoverEntry lower jsonAsType info table (tableColumns columns table) = .ok e) :
    EntryOfTable lower jsonAsType columns table e := by
  have hdescribes := discoverEntry_ok (fun c hc => mem_tableColumns.mp hc) h
  obtain ⟨properties, md, facts, hproperties, hmd, hfacts, rfl⟩ := discoverEntry_eq_ok_iff.mp h
  have hnames : ∀ name, name ∈ (Dict.ofList properties).keys ↔
      ∃ c ∈ columns, c.table = table ∧ c.columnName = name := by
    intro name
    rw [Dict.mem_keys_ofList, columnSchemas_names hproperties]
    simp only [List.mem_map, mem_tableColumns, and_assoc]
  refine ⟨hdescribes, hnames, ?_⟩
  have hkey : (tableColumns columns table).filter (columnIsKeyProp (Dict.ofList properties)) =
      (tableColumns columns table).filter fun c =>
        decide (c.columnKey = "PRI") && hasSupportedType (Dict.ofList properties) c := by
    apply List.filter_congr
    intro c hc
    obtain ⟨hmem, htable⟩ := mem_tableColumns.mp hc
    exact columnIsKeyProp_eq ((hnames c.columnName).mpr ⟨c, hmem, htable, rfl⟩)
  have habsent : md.field [] "table-key-properties" = .null := by
    rw [columnMetadataLoop_field hmd]
    rfl
  simp only [CatalogEntry.streamMetadata, CatalogEntry.getIsView, field_entryMetadata, hkey,
    supportedKey]
  cases facts.isView <;> simp [Val.truthy, habsent]

/-! ### Groups -/

theorem groupByTable_of_contiguous (h : Runs.Contiguous Column.table columns) :
    groupByTable columns = (columns.map Column.table).dedup.map (tableColumns columns) :=
  Runs.splitBy_eq_classes h

theorem discoverGroups_cons (h : ∃ c ∈ columns, c.table = table) {groups : List (List Column)}
    {entries : List CatalogEntry} :
    discoverGroups lower jsonAsType info (tableColumns columns table :: groups) = .ok entries ↔
      ∃ entry rest, discoverEntry lower jsonAsType info table (tableColumns columns table) =
        .ok entry ∧ discoverGroups lower jsonAsType info groups = .ok rest ∧
          entries = entry :: rest := by
  obtain ⟨c, hc, htable⟩ := h
  cases hcols : tableColumns columns table with
  | nil =>
    have hmem := mem_tableColumns.mpr ⟨hc, htable⟩
    rw [hcols] at hmem
    cases hmem
  | cons d cols =>
    have hd : d ∈ tableColumns columns table := by
      rw [hcols]
      exact List.mem_cons_self
    rw [discoverGroups_cons_iff, (mem_tableColumns.mp hd).2]

theorem discoverGroups_eq_ok_iff {tables : List (String × String)}
    (h : ∀ t ∈ tables, ∃ c ∈ columns, c.table = t) {entries : List CatalogEntry} :
    discoverGroups lower jsonAsType info (tables.map (tableColumns columns)) = .ok entries ↔
      List.Forall₂ (fun t e => discoverEntry lower jsonAsType info t (tableColumns columns t) =
        .ok e) tables entries := by
  induction tables generalizing entries with
  | nil =>
    rw [List.map_nil, discoverGroups, List.forall₂_nil_left_iff, Except.ok.injEq, eq_comm]
  | cons t tables ih =>
    obtain ⟨ht, hrest⟩ := List.forall_mem_cons.mp h
    rw [List.map_cons, discoverGroups_cons ht, List.forall₂_cons_left_iff]
    constructor
    · intro h
      obtain ⟨entry, rest, hentry, hgroups, rfl⟩ := h
      exact ⟨entry, rest, hentry, (ih hrest).mp hgroups, rfl⟩
    · intro h
      obtain ⟨entry, rest, hentry, hgroups, rfl⟩ := h
      exact ⟨entry, rest, hentry, (ih hrest).mpr hgroups, rfl⟩

theorem discoverGroups_ok_iff {tables : List (String × String)}
    (h : ∀ t ∈ tables, ∃ c ∈ columns, c.table = t) :
    (∃ entries, discoverGroups lower jsonAsType info (tables.map (tableColumns columns)) =
      .ok entries) ↔
      ∀ t ∈ tables, ∃ e, discoverEntry lower jsonAsType info t (tableColumns columns t) = .ok e := by
  induction tables with
  | nil => simp [discoverGroups]
  | cons t tables ih =>
    obtain ⟨ht, hrest⟩ := List.forall_mem_cons.mp h
    rw [List.forall_mem_cons, ← ih hrest]
    simp only [List.map_cons, discoverGroups_cons ht]
    constructor
    · intro h
      obtain ⟨-, entry, rest, hentry, hgroups, -⟩ := h
      exact ⟨⟨entry, hentry⟩, rest, hgroups⟩
    · intro h
      obtain ⟨⟨entry, hentry⟩, rest, hgroups⟩ := h
      exact ⟨entry :: rest, entry, rest, hentry, hgroups, rfl⟩

/-- The order of `ORDER BY table_schema, table_name` on tables. -/
def inTableOrder (s t : String × String) : Prop := s.1 < t.1 ∨ s.1 = t.1 ∧ s.2 ≤ t.2

theorem inTableOrder_antisymm (s t : String × String) (hst : inTableOrder s t)
    (hts : inTableOrder t s) : s = t := by
  rcases hst with hst | ⟨hst, hst'⟩ <;> rcases hts with hts | ⟨hts, hts'⟩
  · exact absurd hst (lt_asymm hts)
  · exact absurd hst (by rw [hts]; exact lt_irrefl _)
  · exact absurd hts (by rw [hst]; exact lt_irrefl _)
  · exact Prod.ext hst (le_antisymm hst' hts')

theorem table_of_mem_dedup {t : String × String} (h : t ∈ (columns.map Column.table).dedup) :
    ∃ c ∈ columns, c.table = t :=
  List.mem_map.mp (List.mem_dedup.mp h)

theorem discoverAnswers_entries (hcontiguous : Runs.Contiguous Column.table columns)
    {tables : List TableInfo} {entries : List CatalogEntry}
    (h : discoverAnswers lower jsonAsType tables columns = .ok entries) :
    List.Forall₂ (EntryOfTable lower jsonAsType columns) (columns.map Column.table).dedup
      entries := by
  rw [discoverAnswers, groupByTable_of_contiguous hcontiguous] at h
  have hentries := (discoverGroups_eq_ok_iff fun t ht => table_of_mem_dedup ht).mp h
  exact hentries.imp fun t e he => discoverEntry_entryOfTable he

/-- Discovery returns a catalog exactly when every table of the columns is one of the tables and
every decimal has its scale. -/
theorem discoverAnswers_ok_iff (hjson : jsonAsType ∈ jsonAsTypes)
    (hcontiguous : Runs.Contiguous Column.table columns) {tables : List TableInfo} :
    (∃ entries, discoverAnswers lower jsonAsType tables columns = .ok entries) ↔
      ∀ c ∈ columns, Listed tables c.table ∧ ScaleGiven lower c := by
  rw [discoverAnswers, groupByTable_of_contiguous hcontiguous,
    discoverGroups_ok_iff fun t ht => table_of_mem_dedup ht]
  simp only [discoverEntry_ok_iff hjson, tableFacts_tableInfo_iff]
  constructor
  · intro h c hc
    obtain ⟨hscale, hlisted⟩ := h c.table (List.mem_dedup.mpr (List.mem_map_of_mem hc))
    exact ⟨hlisted, hscale c (mem_tableColumns.mpr ⟨hc, rfl⟩)⟩
  · intro h t ht
    obtain ⟨c, hc, rfl⟩ := table_of_mem_dedup ht
    exact ⟨fun d hd => (h d (mem_tableColumns.mp hd).1).2, (h c hc).1⟩

/-- Discovery makes one entry for each table that has a column in the second answer, exactly when
the first answer lists all these tables and every decimal column has its scale. -/
theorem discoverAnswers_tables_iff (lower : String → String) {jsonAsType : String}
    (hjson : jsonAsType ∈ jsonAsTypes) (tables : List TableInfo) {columns : List Column}
    (hcontiguous : Runs.Contiguous Column.table columns) :
    (∃ entries, discoverAnswers lower jsonAsType tables columns = .ok entries ∧
      List.Forall₂ (EntryOfTable lower jsonAsType columns) (columns.map Column.table).dedup
        entries) ↔
      ∀ c ∈ columns, Listed tables c.table ∧ ScaleGiven lower c := by
  rw [← discoverAnswers_ok_iff hjson hcontiguous]
  constructor
  · intro h
    obtain ⟨entries, hentries, -⟩ := h
    exact ⟨entries, hentries⟩
  · intro h
    obtain ⟨entries, hentries⟩ := h
    exact ⟨entries, hentries, discoverAnswers_entries hcontiguous hentries⟩

namespace Sample

def lowerAscii (s : String) : String := String.ofList (s.toList.map Char.toLower)

/-- The one column of the table `db.t`. -/
def idColumn : Column where
  tableSchema := "db"
  tableName := "t"
  columnName := "id"
  dataType := "int"
  characterMaximumLength := none
  numericPrecision := some 10
  numericScale := some 0
  columnType := "int"
  columnKey := "PRI"

theorem idColumn_contiguous : Runs.Contiguous Column.table [idColumn] := by
  intro a b c habc _
  have := habc.length_le
  simp at this

theorem idColumn_scaleGiven : ScaleGiven lowerAscii idColumn := fun _ _ => rfl

end Sample

namespace Sample

def sampleColumn (table name dataType key : String) (scale : Option Nat) : Column where
  tableSchema := "db"
  tableName := table
  columnName := name
  dataType := dataType
  characterMaximumLength := none
  numericPrecision := scale.map fun _ => 10
  numericScale := scale
  columnType := dataType
  columnKey := key

/-- The columns of the view `db.names` and of the table `db.orders`, which has a key of two. -/
def twoTables : List Column :=
  [sampleColumn "names" "code" "char" "" none, sampleColumn "names" "name" "varchar" "" none,
    sampleColumn "orders" "id" "int" "PRI" (some 0),
    sampleColumn "orders" "line" "int" "PRI" (some 0),
    sampleColumn "orders" "price" "decimal" "" (some 2)]

/-- The tables of both, and one that was dropped before the columns were read. -/
def threeTables : List TableInfo :=
  [⟨"db", "dropped", "BASE TABLE", some 4⟩, ⟨"db", "names", "VIEW", none⟩,
    ⟨"db", "orders", "BASE TABLE", some 3⟩]

theorem twoTables_contiguous : Runs.Contiguous Column.table twoTables := by
  have hsorted : twoTables.Pairwise fun a b => inTableOrder a.table b.table := by
    unfold inTableOrder
    decide
  exact Runs.contiguous_of_pairwise inTableOrder_antisymm hsorted

end Sample

/-- The table that only the first answer names makes no entry. -/
theorem discoverAnswers_tables_iff_twoTables :
    (∃ entries, discoverAnswers Sample.lowerAscii "object" Sample.threeTables Sample.twoTables =
        .ok entries ∧
      List.Forall₂ (EntryOfTable Sample.lowerAscii "object" Sample.twoTables)
        (Sample.twoTables.map Column.table).dedup entries) ∧
    (Sample.twoTables.map Column.table).dedup = [("db", "names"), ("db", "orders")] := by
  have hlisted : ∀ c ∈ Sample.twoTables,
      Listed Sample.threeTables c.table ∧ ScaleGiven Sample.lowerAscii c := by
    unfold Listed ScaleGiven
    decide
  exact ⟨(discoverAnswers_tables_iff Sample.lowerAscii List.mem_cons_self _
    Sample.twoTables_contiguous).mpr hlisted, by decide⟩

/-- The table `db.t` was created between the two queries. -/
theorem created_between_queries :
    "object" ∈ jsonAsTypes ∧ Runs.Contiguous Column.table [Sample.idColumn] ∧
      ScaleGiven Sample.lowerAscii Sample.idColumn ∧
      discoverAnswers Sample.lowerAscii "object" [] [Sample.idColumn] =
        .error (.keyError "db") ∧
      ¬ ∃ entries, discoverAnswers Sample.lowerAscii "object" [] [Sample.idColumn] =
        .ok entries := by
  have hraises : discoverAnswers Sample.lowerAscii "object" [] [Sample.idColumn] =
      .error (.keyError "db") := rfl
  refine ⟨List.mem_cons_self, Sample.idColumn_contiguous, Sample.idColumn_scaleGiven, hraises, ?_⟩
  intro h
  obtain ⟨entries, hentries⟩ := h
  cases hraises.symm.trans hentries

/-! ### Answers of one moment -/

instance : Std.Total tableLE where
  total a b := by
    rcases lt_trichotomy a.tableSchema b.tableSchema with h | h | h
    · exact .inl (.inl h)
    · rcases le_total a.tableName b.tableName with hname | hname
      · exact .inl (.inr ⟨h, hname⟩)
      · exact .inr (.inr ⟨h.symm, hname⟩)
    · exact .inr (.inl h)

instance : IsTrans Column tableLE where
  trans a b c hab hbc := by
    rcases hab with hab | ⟨hab, hab'⟩ <;> rcases hbc with hbc | ⟨hbc, hbc'⟩
    · exact .inl (hab.trans hbc)
    · exact .inl (hbc ▸ hab)
    · exact .inl (hab ▸ hbc)
    · exact .inr ⟨hab.trans hbc, hab'.trans hbc'⟩

theorem columnsQuery_contiguous (server : InformationSchema) (dbs tables : Option String) :
    Runs.Contiguous Column.table (columnsQuery server dbs tables) := by
  have hsorted : (columnsQuery server dbs tables).Pairwise fun a b =>
      inTableOrder a.table b.table := List.pairwise_insertionSort tableLE _
  exact Runs.contiguous_of_pairwise inTableOrder_antisymm hsorted

theorem listed_tablesQuery {server : InformationSchema} {dbs tables : Option String} {c : Column}
    (hc : c ∈ columnsQuery server dbs tables) (h : Listed server.tables c.table) :
    Listed (tablesQuery server dbs tables) c.table := by
  obtain ⟨t, ht, htable⟩ := h
  refine ⟨t, ?_, htable⟩
  rw [columnsQuery, List.mem_insertionSort, List.mem_filter] at hc
  rw [tablesQuery, List.mem_filter, htable]
  exact ⟨ht, hc.2⟩

/-- A server that does not change between the two queries is discovered as a whole. -/
theorem discoverCatalog_entries (hjson : jsonAsType ∈ jsonAsTypes) {server : InformationSchema}
    (hserver : ∀ c ∈ server.columns, Listed server.tables c.table ∧ ScaleGiven lower c)
    (dbs tables : Option String) :
    ∃ entries, discoverCatalog lower server dbs tables jsonAsType = .ok entries ∧
      List.Forall₂ (EntryOfTable lower jsonAsType (columnsQuery server dbs tables))
        ((columnsQuery server dbs tables).map Column.table).dedup entries := by
  have hcontiguous := columnsQuery_contiguous server dbs tables
  have hanswers : ∀ c ∈ columnsQuery server dbs tables,
      Listed (tablesQuery server dbs tables) c.table ∧ ScaleGiven lower c := by
    intro c hc
    have hmem : c ∈ server.columns := mem_columnsQuery hc
    exact ⟨listed_tablesQuery hc (hserver c hmem).1, (hserver c hmem).2⟩
  obtain ⟨entries, hentries⟩ := (discoverAnswers_ok_iff hjson hcontiguous).mpr hanswers
  exact ⟨entries, hentries, discoverAnswers_entries hcontiguous hentries⟩

end TapMysql
