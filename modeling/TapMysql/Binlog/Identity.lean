import TapMysql.Binlog.Routing

/-!
# The table behind an entry

A rediscovery asks for the table of a stream by its name only and takes the first entry of the
answer, which is ordered by schema and name. An entry stays that of the stream's own table as long
as this first entry is.
-/

namespace TapMysql.Binlog

open Loop (Reaches)

/-- What the discoveries of a run ask and see: the server at the discovery of the catalog, and at
each call of `discover_catalog` in the run. -/
structure Discoverer where
  lower : String → String
  jsonAsType : String
  filterDbs : Option String
  start : InformationSchema
  servers : ℕ → InformationSchema

namespace Discoverer

def discover (D : Discoverer) (n : ℕ) (table : String) : Except Err (List CatalogEntry) :=
  discoverCatalog D.lower (D.servers n) D.filterDbs (some table) D.jsonAsType

def Sees (D : Discoverer) (server : InformationSchema) : Prop :=
  server = D.start ∨ ∃ n, server = D.servers n

/-- The first table, by schema and name, that the filter of the call `n` matches. -/
def firstTable (D : Discoverer) (n : ℕ) (table : String) : Option TableName :=
  (columnsQuery (D.servers n) D.filterDbs (some table)).head?.map Column.table

end Discoverer

/-- The entry is that of the table `t`, as some discovery saw it, under the id `s`. -/
structure Own (D : Discoverer) (t : TableName) (s : String) (e : CatalogEntry) : Prop where
  tapStreamId : e.tapStreamId = s
  databaseName : e.getDatabaseName = .str t.1
  table : e.table = t.2
  schema : ∀ name p, name ≠ sdcDeletedAt → e.schema.get? name = some p →
    ∃ server, D.Sees server ∧ ColumnOf D.lower D.jsonAsType server.columns t name p
  keyProperties : ∀ name ∈ e.getKeyProperties, ∃ server, D.Sees server ∧
    ∃ c ∈ server.columns, c.table = t ∧ c.columnName = name ∧ c.columnKey = "PRI"

/-- At every loop head every stream has an entry, and it is that of its own table. -/
def IdentityKept (D : Discoverer) (origin : String → TableName) (env : Env) (v₀ : Vars)
    (ds : List Delivery) : Prop :=
  ∀ a out v, a <+: ds → Reaches (iteration env) v₀ a out v → ∀ s ∈ v₀.streamsMap.keys,
    ∃ entry, v.streamsMap.get? s = some entry ∧ Own D (origin s) s entry.catalogEntry

/-- Every discovery that puts a new entry into the map finds the stream's own table first. -/
def FindsOwnFirst (D : Discoverer) (origin : String → TableName) (env : Env) (v₀ : Vars)
    (ds : List Delivery) : Prop :=
  ∀ a d b out v em v' s entry new, ds = a ++ d :: b → Reaches (iteration env) v₀ a out v →
    iteration env v d = .next em v' → Replaces env v d s entry new →
    D.firstTable v.discoveries entry.catalogEntry.table = some (origin s)

/-! ### The answer of a discovery -/

/-- The entry of a rediscovery is made of the first entry of the answer, and names its table. -/
theorem rediscover_first {D : Discoverer} {env : Env} (henv : env.discover = D.discover)
    {calls : ℕ} {s table : String} {new : Rediscovery}
    (h : rediscover env calls s table = .ok new) :
    ∃ t, D.firstTable calls table = some t ∧ Own D t t.tapStreamId new.entry := by
  obtain ⟨found, rest, newColumns, hdiscover, hcolumns, rfl⟩ := rediscover_eq_ok_iff.mp h
  rw [henv] at hdiscover
  obtain ⟨c, cs, hquery, hfound⟩ := discoverAnswers_head hdiscover
  have hmem : ∀ c' ∈ c :: cs, c' ∈ (D.servers calls).columns := by
    rw [← hquery]
    exact fun c' hc' => mem_columnsQuery hc'
  refine ⟨c.table, by rw [Discoverer.firstTable, hquery]; rfl,
    ⟨hfound.tapStreamId, hfound.databaseName, hfound.table, ?_, ?_⟩⟩
  · intro name p hname hp
    have hkept : (found.schema.filterKeys newColumns.contains).get? name = some p := by
      rw [← hp]
      exact (Dict.get?_set_ne _ _ (Ne.symm hname)).symm
    rw [Dict.get?_filterKeys] at hkept
    split_ifs at hkept
    obtain ⟨c', hc', hcolumn⟩ := hfound.schema name p hkept
    rw [hquery] at hc'
    exact ⟨_, .inr ⟨calls, rfl⟩, c', hmem c' hc', hcolumn⟩
  · intro name hname
    obtain ⟨c', hc', hkey⟩ := hfound.keyProperties name hname
    rw [hquery] at hc'
    exact ⟨_, .inr ⟨calls, rfl⟩, c', hmem c' hc', hkey⟩

theorem Own.unique {D : Discoverer} {t u : TableName} {s s' : String} {e : CatalogEntry}
    (h : Own D t s e) (h' : Own D u s' e) : t = u := by
  have hdatabase := h.databaseName.symm.trans h'.databaseName
  rw [Val.str.injEq] at hdatabase
  exact Prod.ext hdatabase (h.table.symm.trans h'.table)

/-! ### Runs -/

section Run

variable {D : Discoverer} {origin : String → TableName} {env : Env} {m : StreamsMap} {st : State}
  {auto : Option String} {ds : List Delivery}

/-- The streams of the map keep their own entries exactly when every discovery that replaces one
finds the stream's own table first. -/
theorem identity_kept_iff (henv : env.discover = D.discover)
    (hids : ∀ s ∈ m.keys, (origin s).tapStreamId = s)
    (hown : ∀ s entry, m.get? s = some entry → Own D (origin s) s entry.catalogEntry) :
    IdentityKept D origin env (initialVars m st auto) ds ↔
      FindsOwnFirst D origin env (initialVars m st auto) ds := by
  have hkey : ∀ {a out v s entry}, Reaches (iteration env) (initialVars m st auto) a out v →
      v.streamsMap.get? s = some entry → s ∈ m.keys := by
    intro a out v s entry hr hget
    exact (reaches_progress hr).keys ▸ Dict.mem_keys_iff.mpr ⟨entry, hget⟩
  constructor
  · intro hkept a d b out v em v' s entry new hds hr hs hreplaces
    have hmap := hreplaces.map hs
    obtain ⟨⟨-, ev, entry', -, -, hget, -, -, -, hre⟩, hentry, -⟩ := hreplaces
    obtain rfl : entry' = entry := Option.some.inj (hget.symm.trans hentry)
    obtain ⟨t, hfirst, hnew⟩ := rediscover_first henv hre
    -- the new entry is in the map behind the event
    obtain ⟨entry'', hget', hown'⟩ := hkept (a ++ [d]) _ v' ⟨b, by rw [hds]; simp⟩ (hr.step hs) s
      (hkey hr hentry)
    rw [hmap, Dict.get?_set_self, Option.some.injEq] at hget'
    rw [← hget'] at hown'
    rw [hfirst, hnew.unique hown']
  · intro hfirst a out v ha hr s hs
    have h₀ : EntriesSatisfy (fun s entry => Own D (origin s) s entry.catalogEntry)
        (initialVars m st auto).streamsMap := hown
    have hentries := reaches_entries h₀
      (fun a d b out v em v' s entry new hds hr hs hreplaces => ?_) hr ha
    · obtain ⟨entry, hget⟩ := Dict.mem_keys_iff.mp ((reaches_progress hr).keys.symm ▸ hs)
      exact ⟨entry, hget, hentries s entry hget⟩
    · have hown' := hfirst a d b out v em v' s entry new hds hr hs hreplaces
      obtain ⟨⟨-, ev, entry', -, -, hget, -, -, -, hre⟩, hentry, -⟩ := hreplaces
      obtain rfl : entry' = entry := Option.some.inj (hget.symm.trans hentry)
      obtain ⟨t, ht, hnew⟩ := rediscover_first henv hre
      obtain rfl : t = origin s := Option.some.inj (ht.symm.trans hown')
      rwa [hids s (hkey hr hentry)] at hnew

end Run

namespace Sample

def intColumn (schema name key : String) : Column where
  tableSchema := schema
  tableName := "t"
  columnName := name
  dataType := "int"
  characterMaximumLength := none
  numericPrecision := some 10
  numericScale := some 0
  columnType := "int"
  columnKey := key

/-- A server with a table `t` in the schemas `da` and `db`. -/
def twoSchemas : InformationSchema where
  tables := [⟨"da", "t", "BASE TABLE", none⟩, ⟨"db", "t", "BASE TABLE", none⟩]
  columns := [intColumn "da" "n" "", intColumn "db" "id" "PRI", intColumn "db" "extra" ""]

def lower (s : String) : String := String.ofList (s.toList.map Char.toLower)

def discoverer (filterDbs : Option String) : Discoverer where
  lower := lower
  jsonAsType := "object"
  filterDbs := filterDbs
  start := twoSchemas
  servers _ := twoSchemas

def discovererEnv (filterDbs : Option String) : Env :=
  { env "bin.1" 500 with discover := (discoverer filterDbs).discover }

/-- The property of `db.t.id` as discovery describes it. -/
def keySchema : PropSchema :=
  { idSchema with minimum := some (-2147483648), maximum := some 2147483647 }

/-- The stream of `db.t`, before the column `extra` was added. -/
def keyMap : StreamsMap :=
  generateStreamsMap [{ entry with schema := Dict.ofList [("id", keySchema)] }]

/-- An insert after the column `extra` was added. -/
def extraInsert : Delivery :=
  ⟨.rows { insert "t" 0 with columns := [⟨some "id", 3, none⟩, ⟨some "extra", 3, none⟩] },
    "bin.1", 120, "now", 0⟩

theorem keyMap_own (filterDbs : Option String) (s : String) (e : StreamsMapEntry)
    (h : keyMap.get? s = some e) : Own (discoverer filterDbs) ("db", "t") s e.catalogEntry := by
  obtain ⟨e', he', rfl, rfl⟩ := generateStreamsMap_get? h
  rw [List.mem_singleton.mp he']
  refine ⟨rfl, rfl, rfl, fun name p hname hp => ?_, fun name hname => ?_⟩
  · have hget : (Dict.ofList [("id", keySchema)]).get? name = some p := by
      rw [← hp]
      exact (Dict.get?_set_ne _ _ (Ne.symm hname)).symm
    obtain ⟨rfl, rfl⟩ := Prod.mk.inj (List.mem_singleton.mp (Dict.mem_of_get?_ofList hget))
    have hschema : schemaForColumn lower "object" (intColumn "db" "id" "PRI") =
        .ok keySchema := by decide +kernel
    exact ⟨twoSchemas, .inl rfl, intColumn "db" "id" "PRI", by simp [twoSchemas], rfl, rfl, hschema⟩
  · have hkey : name = "id" := by
      have hkeys : (addAutomaticProperties
          { entry with schema := Dict.ofList [("id", keySchema)] }).getKeyProperties = ["id"] := by
        decide
      rw [hkeys] at hname
      exact List.mem_singleton.mp hname
    exact ⟨twoSchemas, .inl rfl, intColumn "db" "id" "PRI", by simp [twoSchemas], rfl,
      hkey.symm, rfl⟩

end Sample

theorem identity_kept_iff_filtered :
    IdentityKept (Sample.discoverer (some "db")) (fun _ => ("db", "t"))
        (Sample.discovererEnv (some "db")) (initialVars Sample.keyMap State.empty none)
        [Sample.extraInsert] ↔
      FindsOwnFirst (Sample.discoverer (some "db")) (fun _ => ("db", "t"))
        (Sample.discovererEnv (some "db")) (initialVars Sample.keyMap State.empty none)
        [Sample.extraInsert] :=
  identity_kept_iff rfl (by decide) (Sample.keyMap_own (some "db"))

/-- Without `filter_dbs` the discovery for `db.t` finds `da.t` first, and the stream of `db.t` gets
its entry. -/
theorem other_schema_taken :
    ¬ IdentityKept (Sample.discoverer none) (fun _ => ("db", "t")) (Sample.discovererEnv none)
      (initialVars Sample.keyMap State.empty none) [Sample.extraInsert] := by
  intro h
  have hother : (match iteration (Sample.discovererEnv none)
      (initialVars Sample.keyMap State.empty none) Sample.extraInsert with
    | .next _ v => (v.streamsMap.get? "db-t").map fun e => e.catalogEntry.getDatabaseName
    | .halt _ _ => none) = some (.str "da") := by decide +kernel
  cases hs : iteration (Sample.discovererEnv none) (initialVars Sample.keyMap State.empty none)
      Sample.extraInsert with
  | halt em t =>
    rw [hs] at hother
    cases hother
  | next em v =>
    rw [hs] at hother
    have hr : Reaches (iteration (Sample.discovererEnv none))
        (initialVars Sample.keyMap State.empty none) [Sample.extraInsert] em v := by
      simpa using Reaches.start.step hs
    obtain ⟨entry, hget, hown⟩ := h [Sample.extraInsert] em v ⟨[], rfl⟩ hr "db-t" (by decide)
    simp only [hget, Option.map_some, hown.databaseName] at hother
    exact absurd hother (by decide)

end TapMysql.Binlog
