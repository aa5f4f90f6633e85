import TapMysql.Binlog.Entries

/-!
# Wanted columns and schema

The desired columns of a stream and the properties of its schema are made in two places. They stay
in step at every loop head and in every call of a handler, so the lookups of
`row_to_singer_record` find the property of each column of a filtered row.
-/

namespace TapMysql.Binlog

open Loop (Reaches Passed)

/-- No desired column has an unsupported type. -/
def AllSupported (entry : StreamsMapEntry) : Prop :=
  ∀ c ∈ entry.desiredColumns, ∀ p, entry.catalogEntry.schema.get? c = some p →
    p.inclusion ≠ some .unsupported

/-- Every property that is looked up for a filtered row is in the schema, so only the rendering of
a value can raise. -/
def LookupsSucceed (lib : RenderLib) (entry : StreamsMapEntry) : Prop :=
  ∀ row : Record,
    (∀ c ∈ (row.filterKeys entry.desiredColumns.contains).keys,
      ∃ p, entry.catalogEntry.schema.get? c = some p) ∧
    ∀ version dbColumns time e, rowToSingerRecord lib entry.catalogEntry version dbColumns
        (row.filterKeys entry.desiredColumns.contains) time = .error e →
      ∃ c x p, row.get? c = some x ∧ entry.catalogEntry.schema.get? c = some p ∧
        renderValue lib p (dbColumn dbColumns c) x = .error e

theorem renderItems_error {lib : RenderLib} {schema : Schema} {columns : List DbColumn}
    {row : List (String × Val)} {e : Err} (h : renderItems lib schema columns row = .error e)
    (hrow : ∀ c ∈ row.map Prod.fst, ∃ p, schema.get? c = some p) :
    ∃ c x p, (c, x) ∈ row ∧ schema.get? c = some p ∧
      renderValue lib p (dbColumn columns c) x = .error e := by
  induction row with
  | nil => cases h
  | cons item row ih =>
    obtain ⟨c, x⟩ := item
    rw [List.map_cons, List.forall_mem_cons] at hrow
    obtain ⟨⟨p, hp⟩, hrest⟩ := hrow
    rw [renderItems] at h
    simp only [hp] at h
    cases hy : renderValue lib p (dbColumn columns c) x with
    | error e' =>
      simp only [hy] at h
      cases h
      exact ⟨c, x, p, List.mem_cons_self, hp, hy⟩
    | ok y =>
      simp only [hy] at h
      split at h
      · cases h
      · rename_i hrender
        cases h
        obtain ⟨c', x', q, hmem, hfound⟩ := ih hrender hrest
        exact ⟨c', x', q, List.mem_cons_of_mem _ hmem, hfound⟩

theorem InStep.lookupsSucceed {entry : StreamsMapEntry} (h : InStep entry) (lib : RenderLib) :
    LookupsSucceed lib entry := by
  intro row
  have hlookup : ∀ c ∈ (row.filterKeys entry.desiredColumns.contains).keys,
      ∃ p, entry.catalogEntry.schema.get? c = some p := by
    intro c hc
    obtain ⟨-, hdesired⟩ := Dict.mem_keys_filterKeys.mp hc
    exact Dict.mem_keys_iff.mp ((h.columns c).mp (by simpa using hdesired))
  refine ⟨hlookup, fun version dbColumns time e he => ?_⟩
  rw [rowToSingerRecord] at he
  split at he
  · cases he
  · rename_i hrender
    cases he
    obtain ⟨c, x, p, hmem, hp, hx⟩ := renderItems_error hrender hlookup
    have hget := Dict.get?_eq_some.mpr hmem
    rw [Dict.get?_filterKeys] at hget
    split_ifs at hget
    exact ⟨c, x, p, hget, hp, hx⟩

/-! ### The two places -/

theorem generateStreamsMap_inStep {streams : List CatalogEntry} {s : String}
    {entry : StreamsMapEntry} (h : (generateStreamsMap streams).get? s = some entry) :
    InStep entry := by
  obtain ⟨e, -, -, rfl⟩ := generateStreamsMap_get? h
  refine ⟨fun c => ?_, List.mem_append_right _ (List.mem_singleton_self _)⟩
  simp only [addAutomaticProperties, List.mem_append, List.mem_singleton, Dict.mem_keys_set]
  exact or_comm

theorem rediscover_allSupported {env : Env} {calls : ℕ} {s table : String} {new : Rediscovery}
    (h : rediscover env calls s table = .ok new) : AllSupported ⟨new.entry, new.columns⟩ := by
  obtain ⟨found, rest, newColumns, -, hcolumns, rfl⟩ := rediscover_eq_ok_iff.mp h
  intro c hc p hp
  simp only [addAutomaticProperties, Dict.get?_set, Dict.get?_filterKeys,
    List.contains_iff_mem] at hp
  split_ifs at hp with hmarker hdesired
  · cases hp
    simp [deletedAtSchema, PropSchema.blank]
  · obtain ⟨q, hq, hwanted⟩ := (mem_desiredColumns hcolumns c).mp hdesired
    obtain rfl := Option.some.inj (hp.symm.trans hq)
    intro hunsupported
    simp [columnIsDesired, hunsupported] at hwanted

/-- Entries with the same properties have the same unsupported ones. -/
theorem InStep.allSupported_of_sameItems {entry entry' : StreamsMapEntry} (hin : InStep entry)
    (hin' : InStep entry') (h : AllSupported entry)
    (hsame : entry.catalogEntry.schema.sameItems entry'.catalogEntry.schema = true) :
    AllSupported entry' := by
  intro c hc p hp
  have hc' : c ∈ entry.desiredColumns :=
    (hin.columns c).mpr ((Dict.mem_keys_of_sameItems hsame).mpr ((hin'.columns c).mp hc))
  exact h c hc' p ((Dict.sameItems_iff.mp hsame c).trans hp)

/-! ### Runs -/

section Run

variable {env : Env} {v₀ v : Vars} {a : List Delivery} {out : List Effect} {d : Delivery}
  {ev : RowsEvent} {entry : StreamsMapEntry} {p : Placed}

/-- A delivery of the run has led to a discovery for the stream. -/
def Rediscovered (env : Env) (v₀ : Vars) (s : String) (a : List Delivery) : Prop :=
  Passed (iteration env) v₀ (fun v d => ∃ new, Rediscovers env v d s new) a

/-- The entry of the stream `s` after the deliveries `a`. -/
structure KeptInStep (env : Env) (v₀ : Vars) (a : List Delivery) (s : String)
    (entry : StreamsMapEntry) : Prop where
  inStep : InStep entry
  supported : Rediscovered env v₀ s a → AllSupported entry

theorem Replaces.inStep {s : String} {new : Rediscovery} (h : Replaces env v d s entry new) :
    InStep ⟨new.entry, new.columns⟩ ∧ AllSupported ⟨new.entry, new.columns⟩ := by
  obtain ⟨⟨-, ev, entry', -, rfl, -, -, -, -, hre⟩, -⟩ := h
  exact ⟨rediscover_inStep hre, rediscover_allSupported hre⟩

/-- A discovery that leaves the entry of its stream alone has found the same properties. -/
theorem Rediscovers.allSupported {s : String} {new : Rediscovery}
    (h : Rediscovers env v d s new) (hs : v.streamsMap.get? s = some entry) (hin : InStep entry)
    (hkept : ∀ new, ¬ Replaces env v d s entry new) : AllSupported entry := by
  have hre : rediscover env v.discoveries s entry.catalogEntry.table = .ok new := by
    obtain ⟨-, ev, entry', -, rfl, hfound, -, -, -, hre⟩ := h
    rw [Option.some.inj (hs.symm.trans hfound)]
    exact hre
  have hsame : new.entry.schema.sameItems entry.catalogEntry.schema = true := by
    by_contra hne
    exact hkept new ⟨h, hs, by simpa using hne⟩
  exact (rediscover_inStep hre).allSupported_of_sameItems hin (rediscover_allSupported hre) hsame

theorem KeptInStep.keep {s : String} (h : KeptInStep env v₀ a s entry)
    (hr : Reaches (iteration env) v₀ a out v) (hs : v.streamsMap.get? s = some entry)
    (hkept : ∀ new, ¬ Replaces env v d s entry new) : KeptInStep env v₀ (a ++ [d]) s entry := by
  refine ⟨h.inStep, fun hpassed => ?_⟩
  rcases (Loop.passed_concat hr).mp hpassed with hbefore | ⟨new, hnew⟩
  · exact h.supported hbefore
  · exact hnew.allSupported hs h.inStep hkept

theorem Replaces.keptInStep {s : String} {new : Rediscovery}
    (h : Replaces env v d s entry new) (v₀ : Vars) (a : List Delivery) :
    KeptInStep env v₀ a s ⟨new.entry, new.columns⟩ :=
  ⟨h.inStep.1, fun _ => h.inStep.2⟩

theorem reaches_keptInStep (h₀ : ∀ s entry, v₀.streamsMap.get? s = some entry → InStep entry)
    (hr : Reaches (iteration env) v₀ a out v) :
    ∀ s entry, v.streamsMap.get? s = some entry → KeptInStep env v₀ a s entry := by
  induction hr with
  | start =>
    intro s entry hs
    exact ⟨h₀ s entry hs, fun hpassed => absurd hpassed Loop.not_passed_nil⟩
  | @step a out v d em v' hr hstep ih =>
    intro s entry hs
    by_cases hreplaced : ∃ old new, Replaces env v d s old new
    · -- the entry was replaced by the delivery
      obtain ⟨old, new, hreplaces⟩ := hreplaced
      rw [hreplaces.map hstep, Dict.get?_set_self, Option.some.injEq] at hs
      rw [← hs]
      exact hreplaces.keptInStep v₀ _
    · have hsame : v.streamsMap.get? s = some entry := by
        rcases iteration_map hstep with hmap | ⟨t, old, new, hreplaces, hmap⟩
        · rw [← hmap]
          exact hs
        · have hne : t ≠ s := by
            rintro rfl
            exact hreplaced ⟨old, new, hreplaces⟩
          rw [hmap, Dict.get?_set_ne _ _ hne] at hs
          exact hs
      exact (ih s entry hsame).keep hr hsame fun new hnew => hreplaced ⟨entry, new, hnew⟩

theorem PlacedRows.keptInStep (h : PlacedRows env v d ev entry p)
    (hr : Reaches (iteration env) v₀ a out v)
    (hv : KeptInStep env v₀ a ev.tapStreamId entry) :
    KeptInStep env v₀ (a ++ [d]) ev.tapStreamId p.entry := by
  by_cases hreplaced : ∃ new, Replaces env v d ev.tapStreamId entry new
  · obtain ⟨new, hreplaces⟩ := hreplaced
    obtain ⟨ev', p', -, hplaced, hentry, -⟩ := hreplaces.placed
    obtain rfl : ev' = ev := by
      have := hplaced.rows.symm.trans h.rows
      exact Event.rows.inj this
    obtain rfl : p' = p := Except.ok.inj (hplaced.places.symm.trans h.places)
    rw [hentry]
    exact hreplaces.keptInStep v₀ _
  · rcases h.entry_cases with ⟨hentry, -⟩ | ⟨new, hreplaces, -⟩
    · rw [hentry]
      exact hv.keep hr h.found fun new hnew => hreplaced ⟨new, hnew⟩
    · exact absurd ⟨new, hreplaces⟩ hreplaced

end Run

/-- At every loop head, for every stream of the map, and in every call of a handler, for the entry
and the columns that it is called with: the desired columns are the properties of the schema, the
marker among them, none is unsupported once the stream was rediscovered, and no lookup of a
property fails for a filtered row. -/
theorem columns_and_schema_inStep (env : Env) (streams : List CatalogEntry) (st : State)
    (auto : Option String) {a : List Delivery} {out : List Effect} {v : Vars}
    (hr : Reaches (iteration env) (initialVars (generateStreamsMap streams) st auto) a out v) :
    (∀ s entry, v.streamsMap.get? s = some entry →
      KeptInStep env (initialVars (generateStreamsMap streams) st auto) a s entry ∧
        LookupsSucceed env.lib entry) ∧
    ∀ d ev entry p, PlacedRows env v d ev entry p →
      KeptInStep env (initialVars (generateStreamsMap streams) st auto) (a ++ [d]) ev.tapStreamId
          p.entry ∧
        LookupsSucceed env.lib p.entry := by
  have hkept := reaches_keptInStep (fun s entry hs => generateStreamsMap_inStep hs) hr
  constructor
  · intro s entry hs
    exact ⟨hkept s entry hs, (hkept s entry hs).inStep.lookupsSucceed env.lib⟩
  · intro d ev entry p hplaced
    have hp := hplaced.keptInStep hr (hkept _ _ hplaced.found)
    exact ⟨hp, hp.inStep.lookupsSucceed env.lib⟩

namespace Sample

/-- Table `db.t` after it gained the columns `name` and `shape`, of which the second has a type
that is not supported. -/
def shapedEntry : CatalogEntry :=
  { entry with
    schema := (entry.schema.set "name"
      { PropSchema.blank with type := some ["null", "string"], inclusion := some .available }).set
      "shape" { PropSchema.blank with inclusion := some .unsupported } }

def shapedEnv : Env := { env "bin.1" 500 with discover := fun _ _ => .ok [shapedEntry] }

def insertName : Delivery where
  event := .rows { insert "t" 1 with
    columns := [⟨some "id", 3, none⟩, ⟨some "name", 15, none⟩, ⟨some "shape", 255, none⟩]
    change := .write [Dict.ofList [("id", .int 1), ("name", .str "a"), ("shape", .null)]] }
  logFile := "bin.1"
  logPos := 120
  now := "now"
  millis := 0

end Sample

theorem columns_and_schema_inStep_shaped :
    ∃ out v entry, Reaches (iteration Sample.shapedEnv)
        (initialVars (generateStreamsMap [Sample.entry]) State.empty none) [Sample.insertName]
        out v ∧
      v.streamsMap.get? "db-t" = some entry ∧
      entry.desiredColumns = ["id", "name", "_sdc_deleted_at"] ∧
      InStep entry ∧ AllSupported entry ∧ LookupsSucceed Sample.lib entry := by
  obtain ⟨em, v, hs⟩ : ∃ em v, iteration Sample.shapedEnv
      (initialVars (generateStreamsMap [Sample.entry]) State.empty none) Sample.insertName =
        .next em v := ⟨_, _, rfl⟩
  have hr := Reaches.start.step hs
  have hcolumns : (v.streamsMap.get? "db-t").map StreamsMapEntry.desiredColumns =
      some ["id", "name", "_sdc_deleted_at"] := by
    cases hs
    rfl
  obtain ⟨entry, hfound, hentry⟩ := Option.map_eq_some_iff.mp hcolumns
  obtain ⟨hkept, hlookups⟩ := (columns_and_schema_inStep Sample.shapedEnv [Sample.entry]
    State.empty none hr).1 "db-t" entry hfound
  refine ⟨[] ++ em, v, entry, hr, hfound, hentry, hkept.inStep, hkept.supported ?_, hlookups⟩
  exact ⟨[], Sample.insertName, [], [], _, rfl, .start, _, by decide, _, _, rfl, rfl, rfl,
    by decide, by decide, by decide, rfl⟩

end TapMysql.Binlog
