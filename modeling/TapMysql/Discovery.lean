import TapMysql.Singer

/-!
# Discovery and the columns of a stream

The column rules of `discover_utils`: which columns of a freshly discovered table a stream
takes, when a difference between an event and the schema asks for a new discovery, and how the
input catalog is matched with the discovered one. The discovery query itself is not modelled
here; its answer is a list of catalog entries. Python sets of column names are lists in the
order of the table, of which only membership is read.
-/

namespace TapMysql

def stringTypes : List String :=
  ["char", "enum", "tinytext", "longtext", "mediumtext", "text", "varchar"]

def integerTypes : List String := ["tinyint", "smallint", "mediumint", "int", "bigint"]

def boolTypes : List String := ["bit"]

def jsonTypes : List String := ["json"]

def floatTypes : List String := ["float", "double", "decimal"]

def datetimeTypes : List String := ["datetime", "timestamp", "time", "date"]

def binaryTypes : List String := ["binary", "varbinary"]

def spatialTypes : List String :=
  ["geometry", "point", "linestring", "polygon", "multipoint", "multilinestring",
    "multipolygon", "geometrycollection"]

def supportedColumnTypesAggregated : List String :=
  stringTypes ++ floatTypes ++ datetimeTypes ++ binaryTypes ++ spatialTypes ++ boolTypes ++
    jsonTypes ++ integerTypes

def isSupportedColumnType (columnDatatype : Val) : Bool :=
  match columnDatatype with
  | .str s => supportedColumnTypesAggregated.contains s
  | _ => false

/-- Does one column of the difference ask for discovery? -/
def columnNeedsDiscovery (md : MdMap) (columnName : String) : Bool :=
  match md.get? ["properties", columnName] with
  | none => true
  | some props =>
    if props.isEmpty then true
    else ((props.get? "selected-by-default").getD .null).truthy &&
      isSupportedColumnType ((props.get? "datatype").getD (.str ""))

def shouldRunDiscovery (columnNames : List String) (md : MdMap) : Bool :=
  columnNames.any (columnNeedsDiscovery md)

/-- Is the column wanted, given the columns selected and the schema of the table? -/
def columnIsDesired (selected : List String) (p : String × PropSchema) : Bool :=
  decide (p.2.inclusion = some .automatic) ||
    (decide (p.2.inclusion = some .available) && selected.contains p.1)

/-- `desired_columns`: the selected columns that are available, and the automatic ones. -/
def desiredColumns (selected : List String) (tableSchema : Schema) : Except Err (List String) :=
  if tableSchema.entries.any (fun p => p.2.inclusion.isNone) then
    .error ⟨.exception, "Unknown inclusion None"⟩
  else .ok ((tableSchema.entries.filter (columnIsDesired selected)).map Prod.fst)

/-- The names of the properties that the metadata of the entry selects. -/
def selectedProperties (e : CatalogEntry) : List String :=
  e.schema.keys.filter e.propertyIsSelected

/-- `Catalog.get_stream`. -/
def getStream (catalog : List CatalogEntry) (tapStreamId : String) : Option CatalogEntry :=
  catalog.find? fun e => decide (e.tapStreamId = tapStreamId)

/-- The properties of an input entry that are selected, its replication key included. -/
def inputSelection (entry : CatalogEntry) : List String :=
  entry.schema.keys.filter fun k =>
    entry.propertyIsSelected k || decide (Val.str k = entry.streamMetadata "replication-key")

def resolvedWith (entry discovered : CatalogEntry) (columns : List String) : CatalogEntry where
  tapStreamId := entry.tapStreamId
  stream := entry.tapStreamId
  table := entry.table
  metadata := entry.metadata
  schema := discovered.schema.filterKeys columns.contains

/-- The entry that `resolve_catalog` makes of an input entry and its discovered table. -/
def resolveEntry (entry discovered : CatalogEntry) : Except Err CatalogEntry :=
  match desiredColumns (inputSelection entry) discovered.schema with
  | .error e => .error e
  | .ok columns => .ok (resolvedWith entry discovered columns)

def resolveCatalog (discovered : List CatalogEntry) :
    List CatalogEntry → Except Err (List CatalogEntry)
  | [] => .ok []
  | entry :: rest =>
    match getStream discovered entry.tapStreamId with
    | none => resolveCatalog discovered rest
    | some table =>
      match resolveEntry entry table with
      | .error e => .error e
      | .ok resolved =>
        match resolveCatalog discovered rest with
        | .error e => .error e
        | .ok entries => .ok (resolved :: entries)

theorem mem_desiredColumns {selected columns : List String} {schema : Schema}
    (h : desiredColumns selected schema = .ok columns) (c : String) :
    c ∈ columns ↔ ∃ p, schema.get? c = some p ∧ columnIsDesired selected (c, p) = true := by
  rw [desiredColumns] at h
  split at h
  · cases h
  · cases h
    simp only [List.mem_map, List.mem_filter, Prod.exists, exists_and_right, exists_eq_right,
      Dict.get?_eq_some]

/-- Every discovered table has an inclusion for each of its columns. -/
def InclusionsKnown (catalog : List CatalogEntry) : Prop :=
  ∀ e ∈ catalog, ∀ p ∈ e.schema.entries, p.2.inclusion.isSome

theorem desiredColumns_ok {catalog : List CatalogEntry} (h : InclusionsKnown catalog)
    {e : CatalogEntry} (he : e ∈ catalog) (selected : List String) :
    ∃ columns, desiredColumns selected e.schema = .ok columns := by
  have hnone : e.schema.entries.any (fun p => p.2.inclusion.isNone) = false := by
    rw [List.any_eq_false]
    intro p hp
    simpa [Option.isSome_iff_ne_none] using h e he p hp
  exact ⟨_, by rw [desiredColumns, hnone]; rfl⟩

theorem getStream_mem {catalog : List CatalogEntry} {s : String} {e : CatalogEntry}
    (h : getStream catalog s = some e) : e ∈ catalog :=
  List.mem_of_find?_eq_some h

/-- Every resolved entry is one of the input with the wanted columns of its table. -/
theorem resolveCatalog_mem {discovered input streams : List CatalogEntry}
    (h : resolveCatalog discovered input = .ok streams) :
    ∀ e ∈ streams, ∃ entry ∈ input, ∃ table columns,
      getStream discovered entry.tapStreamId = some table ∧
      desiredColumns (inputSelection entry) table.schema = .ok columns ∧
      e = resolvedWith entry table columns := by
  induction input generalizing streams with
  | nil =>
    cases h
    simp
  | cons entry rest ih =>
    intro e he
    rw [resolveCatalog] at h
    cases ht : getStream discovered entry.tapStreamId with
    | none =>
      simp only [ht] at h
      obtain ⟨entry', hin, hrest⟩ := ih h e he
      exact ⟨entry', List.mem_cons_of_mem _ hin, hrest⟩
    | some table =>
      simp only [ht, resolveEntry] at h
      cases hc : desiredColumns (inputSelection entry) table.schema with
      | error err => simp [hc] at h
      | ok columns =>
        simp only [hc] at h
        cases hr : resolveCatalog discovered rest with
        | error err => simp [hr] at h
        | ok entries =>
          simp only [hr, Except.ok.injEq] at h
          subst h
          rcases List.mem_cons.mp he with rfl | he
          · exact ⟨entry, List.mem_cons_self, table, columns, ht, hc, rfl⟩
          · obtain ⟨entry', hin, hrest⟩ := ih hr e he
            exact ⟨entry', List.mem_cons_of_mem _ hin, hrest⟩

theorem resolveCatalog_ids {discovered : List CatalogEntry} (hinc : InclusionsKnown discovered)
    (streams : List CatalogEntry)
    (hex : ∀ s ∈ streams, (getStream discovered s.tapStreamId).isSome) :
    ∃ resolved, resolveCatalog discovered streams = .ok resolved ∧
      resolved.map CatalogEntry.tapStreamId = streams.map CatalogEntry.tapStreamId := by
  induction streams with
  | nil => exact ⟨[], rfl, rfl⟩
  | cons s rest ih =>
    obtain ⟨table, htable⟩ := Option.isSome_iff_exists.mp (hex s List.mem_cons_self)
    obtain ⟨resolved, hres, hids⟩ := ih fun t ht => hex t (List.mem_cons_of_mem s ht)
    obtain ⟨columns, hcols⟩ := desiredColumns_ok hinc (getStream_mem htable) (inputSelection s)
    have hentry : resolveEntry s table = .ok (resolvedWith s table columns) := by
      rw [resolveEntry, hcols]
    exact ⟨resolvedWith s table columns :: resolved,
      by simp only [resolveCatalog, htable, hentry, hres], by simp [resolvedWith, hids]⟩

end TapMysql
