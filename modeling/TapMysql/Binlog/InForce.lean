import TapMysql.Binlog.Entries
import TapMysql.Binlog.Stream
import TapMysql.Lib.Trace
import Mathlib.Data.List.Induction

/-!
# Records and the SCHEMA in force

A RECORD fits when the latest SCHEMA message of its stream has all its keys. The binlog sync
writes the SCHEMA of each stream before it puts the marker column of deletes into the schema, so a
record with the marker fits only when the stream was announced again.
-/

namespace TapMysql.Binlog

open Loop (Reaches)
open Trace

/-! ### The property -/

def Effect.announced? (s : String) : Effect → Option Schema
  | .message (.schema t schema _ _) => if t = s then some schema else none
  | _ => none

/-- The schema of the latest SCHEMA message of the stream. -/
def schemaInForce (s : String) (out : List Effect) : Option Schema :=
  (out.filterMap (Effect.announced? s)).getLast?

def Fits (before : List Effect) : Effect → Prop
  | .message (.record s record _ _) =>
    ∃ schema, schemaInForce s before = some schema ∧ ∀ k ∈ record.keys, k ∈ schema.keys
  | _ => True

/-- Every RECORD comes after a SCHEMA of its stream, and the latest one has its keys. -/
def RecordsFit (out : List Effect) : Prop := EachAfter Fits [] out

/-- The entry of the catalog that the map has for the stream. -/
def lastEntry (catalog : List CatalogEntry) (s : String) : Option CatalogEntry :=
  catalog.reverse.find? fun e => decide (e.tapStreamId = s)

/-- The streams carry their ids as names, as `resolve_catalog` leaves them. -/
def Resolved (catalog : List CatalogEntry) : Prop := ∀ e ∈ catalog, e.stream = e.tapStreamId

theorem resolveCatalog_resolved {discovered input streams : List CatalogEntry}
    (h : resolveCatalog discovered input = .ok streams) : Resolved streams := by
  intro e he
  obtain ⟨entry, -, table, columns, -, -, rfl⟩ := resolveCatalog_mem h e he
  rfl

/-! ### Schemas in force -/

theorem schemaInForce_append_of_silent {s : String} {out em : List Effect}
    (h : ∀ x ∈ em, x.announced? s = none) : schemaInForce s (out ++ em) = schemaInForce s out := by
  have hnil : em.filterMap (Effect.announced? s) = [] := List.filterMap_eq_nil_iff.mpr h
  rw [schemaInForce, List.filterMap_append, hnil, List.append_nil, schemaInForce]

theorem schemaInForce_concat {s : String} {out : List Effect} {x : Effect} {schema : Schema}
    (h : x.announced? s = some schema) : schemaInForce s (out ++ [x]) = some schema := by
  simp [schemaInForce, List.filterMap_append, h]

theorem streamsMap_lastEntry (catalog : List CatalogEntry) (s : String) :
    (generateStreamsMap catalog).get? s = (lastEntry catalog s).map fun e =>
      ⟨addAutomaticProperties e, e.schema.keys ++ [sdcDeletedAt]⟩ := by
  induction catalog using List.reverseRecOn with
  | nil => rfl
  | append_singleton catalog e ih =>
    have hset : generateStreamsMap (catalog ++ [e]) = (generateStreamsMap catalog).set
        e.tapStreamId ⟨addAutomaticProperties e, e.schema.keys ++ [sdcDeletedAt]⟩ := by
      simp [generateStreamsMap, Dict.ofList, List.foldl_append]
    rw [hset, Dict.get?_set, ih, lastEntry, lastEntry, List.reverse_append,
      List.reverse_singleton, List.singleton_append, List.find?_cons]
    by_cases hs : e.tapStreamId = s <;> simp [hs]

theorem schemaInForce_schemasOf {catalog : List CatalogEntry} (h : Resolved catalog) (s : String) :
    schemaInForce s (schemasOf catalog) = (lastEntry catalog s).map CatalogEntry.schema := by
  induction catalog using List.reverseRecOn with
  | nil => rfl
  | append_singleton catalog e ih =>
    have hih := ih fun e' he' => h e' (List.mem_append_left _ he')
    have hstream := h e (by simp)
    have hmap : schemasOf (catalog ++ [e]) =
        schemasOf catalog ++ [.message (schemaMessage e [])] := by simp [schemasOf]
    rw [hmap, lastEntry, List.reverse_append, List.reverse_singleton, List.singleton_append,
      List.find?_cons]
    by_cases hs : e.tapStreamId = s
    · have hannounced : (Effect.message (schemaMessage e [])).announced? s = some e.schema := by
        simp [Effect.announced?, schemaMessage, hstream, hs]
      simp [schemaInForce_concat hannounced, hs]
    · have hsilent : (Effect.message (schemaMessage e [])).announced? s = none := by
        simp [Effect.announced?, schemaMessage, hstream, hs]
      rw [schemaInForce_append_of_silent (by simpa using hsilent), hih, lastEntry]
      simp [hs]

/-! ### The records of an event -/

/-- The row of an event is rendered without an error. -/
def Renders (env : Env) (v : Vars) (d : Delivery) (ev : RowsEvent) (e : StreamsMapEntry)
    (row : Record) : Prop :=
  ∃ m, rowToSingerRecord env.lib e.catalogEntry
    (getStreamVersion e.catalogEntry.tapStreamId v.state d.millis) ev.columns
    (row.filterKeys e.desiredColumns.contains) d.now = .ok m

theorem mem_emitRows {lib : RenderLib} {entry : CatalogEntry} {version : Val}
    {dbColumns : List DbColumn} {columns : List String} {time : String} {images : List Record}
    {m : Message} :
    m ∈ (emitRows lib entry version dbColumns columns time images).1 ↔
      ∃ before row after, images = before ++ row :: after ∧
        (∀ r ∈ before, ∃ m', rowToSingerRecord lib entry version dbColumns
          (r.filterKeys columns.contains) time = .ok m') ∧
        rowToSingerRecord lib entry version dbColumns (row.filterKeys columns.contains) time =
          .ok m := by
  induction images with
  | nil => simp [emitRows]
  | cons row rest ih =>
    rw [emitRows]
    cases hr : rowToSingerRecord lib entry version dbColumns (row.filterKeys columns.contains)
        time with
    | error e =>
      simp only [List.not_mem_nil, false_iff]
      intro h
      obtain ⟨before, row', after, himages, hbefore, hrow⟩ := h
      cases before with
      | nil =>
        obtain ⟨rfl, -⟩ := List.cons.inj himages
        rw [hr] at hrow
        cases hrow
      | cons r before =>
        obtain ⟨rfl, -⟩ := List.cons.inj himages
        obtain ⟨m', hm'⟩ := hbefore row List.mem_cons_self
        rw [hr] at hm'
        cases hm'
    | ok first =>
      simp only [List.mem_cons, ih]
      constructor
      · intro h
        rcases h with rfl | ⟨before, row', after, rfl, hbefore, hrow⟩
        · exact ⟨[], row, rest, rfl, by simp, hr⟩
        · refine ⟨row :: before, row', after, rfl, ?_, hrow⟩
          intro r hmem
          rcases List.mem_cons.mp hmem with rfl | hmem
          · exact ⟨first, hr⟩
          · exact hbefore r hmem
      · intro h
        obtain ⟨before, row', after, himages, hbefore, hrow⟩ := h
        cases before with
        | nil =>
          obtain ⟨rfl, -⟩ := List.cons.inj himages
          rw [hr, Except.ok.injEq] at hrow
          exact .inl hrow.symm
        | cons r before =>
          obtain ⟨rfl, rfl⟩ := List.cons.inj himages
          exact .inr ⟨before, row', after, rfl,
            fun r' hr' => hbefore r' (List.mem_cons_of_mem _ hr'), hrow⟩

/-! ### Streams that were announced again -/

/-- A delivery of the run put a new entry for the stream into the map. -/
def ReplacedIn (env : Env) (v₀ : Vars) (ds : List Delivery) (s : String) : Prop :=
  Loop.Passed (iteration env) v₀ (fun v d => ∃ entry new, Replaces env v d s entry new) ds

section Run

variable {env : Env} {catalog : List CatalogEntry} {v₀ v v' : Vars} {ds : List Delivery}
  {out em : List Effect} {d : Delivery} {s : String}

variable {ev : RowsEvent} {entry : StreamsMapEntry} {p : Placed} {new : Rediscovery}

theorem records_silent {tail : List Effect} (htail : ∀ x ∈ tail, ∃ st, x = .message (.state st))
    (s : String) :
    ∀ x ∈ (p.records env d ev).map Effect.message ++ tail, x.announced? s = none := by
  intro x hx
  rcases List.mem_append.mp hx with hx | hx
  · obtain ⟨m, hm, rfl⟩ := List.mem_map.mp hx
    obtain ⟨record, version, rfl⟩ := handleRowsEvent_records _ _ m hm
    rfl
  · obtain ⟨st, rfl⟩ := htail x hx
    rfl

theorem Replaces.inForce (h : Replaces env v d s entry new) (before : List Effect) :
    schemaInForce s (before ++ (iteration env v d).emitted) = some new.entry.schema := by
  obtain ⟨ev, p, rfl, hplaced, -, hp⟩ := h.placed
  obtain ⟨tail, hem, htail⟩ := hplaced.emitted
  rw [hem, ← List.append_assoc, schemaInForce_append_of_silent (records_silent htail _), hp]
  apply schemaInForce_concat
  simp [Effect.announced?, schemaMessage, h.stream]

theorem inForce_of_not_replaces (h : ¬ ∃ entry new, Replaces env v d s entry new)
    (before : List Effect) :
    schemaInForce s (before ++ (iteration env v d).emitted) = schemaInForce s before := by
  apply schemaInForce_append_of_silent
  intro x hx
  by_cases hplaced : ∃ ev entry p, PlacedRows env v d ev entry p
  · obtain ⟨ev, entry, p, hplaced⟩ := hplaced
    obtain ⟨tail, hem, htail⟩ := hplaced.emitted
    rw [hem] at hx
    rcases List.mem_append.mp hx with hx | hx
    · rcases hplaced.entry_cases with ⟨-, hp⟩ | ⟨new, hreplaces, -, hp⟩
      · rw [hp] at hx
        cases hx
      · rw [hp, List.map_singleton, List.mem_singleton] at hx
        have hne : ev.tapStreamId ≠ s := fun hs => h ⟨entry, new, hs ▸ hreplaces⟩
        rw [hx]
        simp [Effect.announced?, schemaMessage, hreplaces.stream, hne]
    · exact records_silent htail s x hx
  · cases x with
    | autoPosition g => rfl
    | message m =>
      obtain ⟨st, rfl⟩ := emitted_of_not_placed hplaced _ hx m rfl
      rfl

/-- What holds of the entries of the map and of the schemas in force at a loop head. -/
structure Announced (env : Env) (catalog : List CatalogEntry) (v₀ : Vars) (ds : List Delivery)
    (out : List Effect) (v : Vars) : Prop where
  stream : ∀ s entry, v.streamsMap.get? s = some entry → entry.catalogEntry.stream = s
  again : ∀ s entry, ReplacedIn env v₀ ds s → v.streamsMap.get? s = some entry →
    schemaInForce s (schemasOf catalog ++ out) = some entry.catalogEntry.schema
  first : ∀ s, ¬ ReplacedIn env v₀ ds s →
    v.streamsMap.get? s = (generateStreamsMap catalog).get? s ∧
      schemaInForce s (schemasOf catalog ++ out) = schemaInForce s (schemasOf catalog)

theorem iteration_map_of_not_replaces (hs : iteration env v d = .next em v')
    (h : ¬ ∃ entry new, Replaces env v d s entry new) :
    v'.streamsMap.get? s = v.streamsMap.get? s := by
  rcases iteration_map hs with hmap | ⟨t, entry, new, hreplaces, hmap⟩
  · rw [hmap]
  · have hne : t ≠ s := fun ht => h ⟨entry, new, ht ▸ hreplaces⟩
    rw [hmap, Dict.get?_set_ne _ _ hne]

theorem reaches_announced (hcat : Resolved catalog)
    (hv₀ : v₀.streamsMap = generateStreamsMap catalog)
    (hr : Reaches (iteration env) v₀ ds out v) : Announced env catalog v₀ ds out v := by
  induction hr with
  | start =>
    refine ⟨?_, ?_, fun s _ => ⟨by rw [hv₀], by rw [List.append_nil]⟩⟩
    · intro s entry hs
      rw [hv₀] at hs
      obtain ⟨e, he, hid, rfl⟩ := generateStreamsMap_get? hs
      exact (hcat e he).trans hid
    · intro s entry hrep
      exact absurd hrep Loop.not_passed_nil
  | @step ds out v d em v' hr hs ih =>
    have hem : (iteration env v d).emitted = em := by rw [hs]; rfl
    refine ⟨?_, ?_, ?_⟩
    · intro s entry hget
      by_cases h : ∃ entry new, Replaces env v d s entry new
      · obtain ⟨_, new, hreplaces⟩ := h
        rw [hreplaces.map hs, Dict.get?_set_self, Option.some.injEq] at hget
        rw [← hget]
        exact hreplaces.stream
      · rw [iteration_map_of_not_replaces hs h] at hget
        exact ih.stream s entry hget
    · intro s entry hrep hget
      rw [← List.append_assoc]
      by_cases h : ∃ entry new, Replaces env v d s entry new
      · obtain ⟨_, new, hreplaces⟩ := h
        rw [hreplaces.map hs, Dict.get?_set_self, Option.some.injEq] at hget
        rw [← hget, ← hem]
        exact hreplaces.inForce _
      · rw [iteration_map_of_not_replaces hs h] at hget
        have hold := ((Loop.passed_concat hr).mp hrep).resolve_right h
        rw [← hem, inForce_of_not_replaces h]
        exact ih.again s entry hold hget
    · intro s hno
      rw [ReplacedIn, Loop.passed_concat hr, not_or] at hno
      obtain ⟨hmap, hforce⟩ := ih.first s hno.1
      rw [← List.append_assoc, ← hem, inForce_of_not_replaces hno.2,
        iteration_map_of_not_replaces hs hno.2]
      exact ⟨hmap, hforce⟩

/-! ### When every record fits -/

/-- The selected table has a column with the name of the marker. -/
def OwnMarker (catalog : List CatalogEntry) (s : String) : Prop :=
  ∃ e, lastEntry catalog s = some e ∧ sdcDeletedAt ∈ e.schema.keys

/-- Every row with the marker that an event writes, so every row of a delete, belongs to a stream
whose own columns have the marker, or that was announced again before or is now. -/
def MarkersAnnounced (env : Env) (catalog : List CatalogEntry) (v₀ : Vars)
    (ds : List Delivery) : Prop :=
  ∀ a d b out v ev entry p before row after, ds = a ++ d :: b →
    Reaches (iteration env) v₀ a out v → PlacedRows env v d ev entry p →
    ev.images = before ++ row :: after → (∀ r ∈ before ++ [row], Renders env v d ev p.entry r) →
    sdcDeletedAt ∈ row.keys →
    OwnMarker catalog ev.tapStreamId ∨ ReplacedIn env v₀ a ev.tapStreamId ∨
      ∃ new, Replaces env v d ev.tapStreamId entry new

theorem mem_records (h : PlacedRows env v d ev entry p) {m : Message} :
    m ∈ p.records env d ev ↔ ∃ before row after, ev.images = before ++ row :: after ∧
      (∀ r ∈ before, Renders env v d ev p.entry r) ∧
      rowToSingerRecord env.lib p.entry.catalogEntry
        (getStreamVersion p.entry.catalogEntry.tapStreamId v.state d.millis) ev.columns
        (row.filterKeys p.entry.desiredColumns.contains) d.now = .ok m := by
  have hstate : p.vars.state = v.state := by
    have hfound : (takePosition v d).streamsMap.get? ev.tapStreamId = some entry := h.found
    exact (placeColumns_keeps h.places hfound).state
  rw [Placed.records, handleRowsEvent_eq, handleRows, mem_emitRows, hstate]
  rfl

theorem fits_emitted_iff (h : PlacedRows env v d ev entry p) (before : List Effect) :
    EachAfter Fits before (iteration env v d).emitted ↔
      ∀ m ∈ p.records env d ev, Fits (before ++ p.emitted.map .message) (.message m) := by
  obtain ⟨tail, hem, htail⟩ := h.emitted
  have hschemas : ∀ x ∈ p.emitted.map Effect.message, ∃ e, x = .message (schemaMessage e []) := by
    intro x hx
    obtain ⟨m, hm, rfl⟩ := List.mem_map.mp hx
    obtain ⟨e, rfl⟩ := placeColumns_emitted h.places m hm
    exact ⟨e, rfl⟩
  have hfirst : EachAfter Fits before (p.emitted.map Effect.message) := by
    intro a x b hab
    obtain ⟨e, rfl⟩ := hschemas x (by rw [hab]; simp)
    trivial
  have hforce : ∀ a b, (p.records env d ev).map Effect.message ++ tail = a ++ b → ∀ x,
      Fits (before ++ p.emitted.map .message ++ a) x ↔
        Fits (before ++ p.emitted.map .message) x := by
    intro a b hab x
    have hsame : ∀ s, schemaInForce s (before ++ p.emitted.map .message ++ a) =
        schemaInForce s (before ++ p.emitted.map .message) := by
      intro s
      apply schemaInForce_append_of_silent
      intro y hy
      exact records_silent htail s y (by rw [hab]; exact List.mem_append_left _ hy)
    cases x with
    | autoPosition g => exact Iff.rfl
    | message m =>
      cases m with
      | record s record version time => simp only [Fits, hsame]
      | _ => exact Iff.rfl
  rw [hem, eachAfter_append, and_iff_right hfirst, eachAfter_iff_forall hforce]
  constructor
  · intro hall m hm
    exact hall _ (List.mem_append_left _ (List.mem_map_of_mem hm))
  · intro hall x hx
    rcases List.mem_append.mp hx with hx | hx
    · obtain ⟨m, hm, rfl⟩ := List.mem_map.mp hx
      exact hall m hm
    · obtain ⟨st, rfl⟩ := htail x hx
      trivial

/-- The schema in force when the records of a placed event are written: that of the entry it is
placed with, or that of the input entry when the stream was not announced again. -/
theorem inForce_placed (hinv : Announced env catalog v₀ ds out v)
    (h : PlacedRows env v d ev entry p) :
    (ReplacedIn env v₀ ds ev.tapStreamId ∨ ∃ new, Replaces env v d ev.tapStreamId entry new) ∧
      schemaInForce ev.tapStreamId (schemasOf catalog ++ out ++ p.emitted.map .message) =
        some p.entry.catalogEntry.schema ∨
    (¬ (ReplacedIn env v₀ ds ev.tapStreamId ∨
        ∃ new, Replaces env v d ev.tapStreamId entry new)) ∧
      schemaInForce ev.tapStreamId (schemasOf catalog ++ out ++ p.emitted.map .message) =
        schemaInForce ev.tapStreamId (schemasOf catalog) ∧
      (generateStreamsMap catalog).get? ev.tapStreamId = some p.entry := by
  rcases h.entry_cases with ⟨hentry, hnil⟩ | ⟨new, hreplaces, hentry, hem⟩
  · rw [hnil, List.map_nil, List.append_nil]
    by_cases hagain : ReplacedIn env v₀ ds ev.tapStreamId
    · exact .inl ⟨.inl hagain, hentry ▸ hinv.again _ _ hagain h.found⟩
    · by_cases hnow : ∃ new, Replaces env v d ev.tapStreamId entry new
      · obtain ⟨new, hreplaces⟩ := hnow
        obtain ⟨ev', p', hs, hplaced, -, hem⟩ := hreplaces.placed
        obtain rfl : ev' = ev := Event.rows.inj (hplaced.rows.symm.trans h.rows)
        obtain rfl : p' = p := Except.ok.inj (hplaced.places.symm.trans h.places)
        rw [hnil] at hem
        cases hem
      · obtain ⟨hmap, hforce⟩ := hinv.first _ hagain
        refine .inr ⟨not_or.mpr ⟨hagain, hnow⟩, hforce, ?_⟩
        rw [← hmap, h.found, hentry]
  · refine .inl ⟨.inr ⟨new, hreplaces⟩, ?_⟩
    rw [hem, List.map_singleton, hentry]
    apply schemaInForce_concat
    simp [Effect.announced?, schemaMessage, hreplaces.stream]

theorem iteration_fits_iff (hcat : Resolved catalog) (hinv : Announced env catalog v₀ ds out v)
    (h : PlacedRows env v d ev entry p) :
    EachAfter Fits (schemasOf catalog ++ out) (iteration env v d).emitted ↔
      ∀ before row after, ev.images = before ++ row :: after →
        (∀ r ∈ before ++ [row], Renders env v d ev p.entry r) → sdcDeletedAt ∈ row.keys →
        OwnMarker catalog ev.tapStreamId ∨ ReplacedIn env v₀ ds ev.tapStreamId ∨
          ∃ new, Replaces env v d ev.tapStreamId entry new := by
  rw [fits_emitted_iff h]
  have hstream : p.entry.catalogEntry.stream = ev.tapStreamId := by
    rcases h.entry_cases with ⟨hentry, -⟩ | ⟨new, hreplaces, hentry, -⟩
    · rw [hentry]
      exact hinv.stream _ _ h.found
    · rw [hentry]
      exact hreplaces.stream
  rcases inForce_placed hinv h with ⟨hagain, hforce⟩ | ⟨hno, hforce, hget⟩
  · -- announced again: every record has keys of the schema it is written with
    constructor
    · intro _ before row after _ _ _
      exact .inr hagain
    · intro _ m hm
      obtain ⟨before, row, after, -, -, hrow⟩ := (mem_records h).mp hm
      obtain ⟨record, rfl, -, hkeys⟩ := rowToSingerRecord_keys hrow
      rw [Fits, hstream]
      exact ⟨_, hforce, hkeys⟩
  · rw [streamsMap_lastEntry, Option.map_eq_some_iff] at hget
    obtain ⟨e, he, hentry⟩ := hget
    rw [schemaInForce_schemasOf hcat, he, Option.map_some] at hforce
    have hschema : ∀ k, k ∈ p.entry.catalogEntry.schema.keys → k ≠ sdcDeletedAt →
        k ∈ e.schema.keys := by
      intro k hk hne
      rw [← hentry] at hk
      exact (Dict.mem_keys_set.mp hk).resolve_left hne
    have hmarked : ∀ row : Record, sdcDeletedAt ∈ row.keys ↔
        sdcDeletedAt ∈ (row.filterKeys p.entry.desiredColumns.contains).keys := by
      intro row
      rw [Dict.mem_keys_filterKeys, ← hentry]
      simp
    constructor
    · intro hfits before row after himages hrenders hkey
      obtain ⟨m, hrow⟩ := hrenders row (by simp)
      have hm := (mem_records h).mpr ⟨before, row, after, himages,
        fun r hr => hrenders r (List.mem_append_left _ hr), hrow⟩
      have hfit := hfits m hm
      obtain ⟨record, rfl, hkeys, -⟩ := rowToSingerRecord_keys hrow
      rw [Fits, hstream, hforce] at hfit
      obtain ⟨schema, hschema', hfit⟩ := hfit
      rw [Option.some.injEq] at hschema'
      refine .inl ⟨e, he, hschema' ▸ hfit _ ?_⟩
      exact (hkeys _).mpr ((hmarked row).mp hkey)
    · intro hcond m hm
      obtain ⟨before, row, after, himages, hbefore, hrow⟩ := (mem_records h).mp hm
      obtain ⟨record, rfl, hkeys, hin⟩ := rowToSingerRecord_keys hrow
      rw [Fits, hstream]
      refine ⟨e.schema, hforce, fun k hk => ?_⟩
      by_cases hk' : k = sdcDeletedAt
      · subst hk'
        have hrenders : ∀ r ∈ before ++ [row], Renders env v d ev p.entry r := by
          intro r hr
          rcases List.mem_append.mp hr with hr | hr
          · exact hbefore r hr
          · rw [List.mem_singleton.mp hr]
            exact ⟨_, hrow⟩
        have hkey : sdcDeletedAt ∈ row.keys := (hmarked row).mpr ((hkeys _).mp hk)
        obtain ⟨e', he', hown⟩ :=
          (hcond before row after himages hrenders hkey).resolve_right hno
        rw [he, Option.some.injEq] at he'
        rw [he']
        exact hown
      · exact hschema k (hin k hk) hk'

/-- The run writes fitting records exactly when the rows with the marker are announced. -/
theorem run_fits_iff (hcat : Resolved catalog) (hv₀ : v₀.streamsMap = generateStreamsMap catalog)
    (failure : Option Err) :
    EachAfter Fits (schemasOf catalog)
        (Loop.run (iteration env) (readerEnd failure) ds v₀).1 ↔
      MarkersAnnounced env catalog v₀ ds := by
  rw [run_eachAfter_iff]
  have heof : ∀ out v, Reaches (iteration env) v₀ ds out v →
      EachAfter Fits (schemasOf catalog ++ out) (readerEnd failure v).1 := by
    intro out v _
    cases failure <;> exact eachAfter_nil
  rw [and_iff_left heof]
  constructor
  · intro h a d b out v ev entry p before row after hds hr hplaced
    exact (iteration_fits_iff hcat (reaches_announced hcat hv₀ hr) hplaced).mp
      (h a d b out v hds hr) before row after
  · intro h a d b out v hds hr
    by_cases hplaced : ∃ ev entry p, PlacedRows env v d ev entry p
    · obtain ⟨ev, entry, p, hplaced⟩ := hplaced
      apply (iteration_fits_iff hcat (reaches_announced hcat hv₀ hr) hplaced).mpr
      intro before row after
      exact h a d b out v ev entry p before row after hds hr hplaced
    · intro a' x b' hx
      cases x with
      | autoPosition g => trivial
      | message m =>
        obtain ⟨st, rfl⟩ := emitted_of_not_placed hplaced (.message m) (by rw [hx]; simp) m rfl
        trivial

end Run

theorem markersAnnounced_nil {env : Env} {v₀ : Vars}
    (hv₀ : v₀.streamsMap = generateStreamsMap []) (ds : List Delivery) :
    MarkersAnnounced env [] v₀ ds := by
  intro a d b out v ev entry p before row after _ hr hplaced
  have hkeys : v.streamsMap.keys = [] := by
    rw [(reaches_progress hr).keys, hv₀]
    rfl
  have hmem := Dict.mem_keys_iff.mpr ⟨entry, hplaced.found⟩
  rw [hkeys] at hmem
  cases hmem

/-- Every record of the binlog sync fits the SCHEMA in force exactly when the rows with the marker
of deletes are announced. -/
theorem records_fit_iff {S : BinlogSource} {config : BinlogConfig} {catalog : List CatalogEntry}
    {st : State} (hcat : Resolved catalog) :
    RecordsFit (syncBinlogStreams S config catalog st).1 ↔
      ∀ r, prepareRun S config (generateStreamsMap catalog) st = .ok r →
        MarkersAnnounced r.env catalog (r.variables (generateStreamsMap catalog))
          r.deliveries := by
  by_cases hne : catalog = []
  · subst hne
    exact iff_of_true eachAfter_nil fun r _ => markersAnnounced_nil rfl _
  have hout : (syncBinlogStreams S config catalog st).1 = schemasOf catalog ++
      (syncBinlogStream S config (generateStreamsMap catalog) st).1 := by
    rw [syncBinlogStreams, if_neg (by simpa using hne)]
  have hschemas : EachAfter Fits [] (schemasOf catalog) := by
    intro a x b hab
    obtain ⟨e, -, rfl⟩ := List.mem_map.mp (hab ▸ (by simp) : x ∈ schemasOf catalog)
    trivial
  rw [RecordsFit, hout, eachAfter_append, and_iff_right hschemas, List.nil_append]
  rcases syncBinlogStream_effects S config (generateStreamsMap catalog) st with
    ⟨e, hprepare, heffects⟩ | ⟨r, hprepare, last, heffects, hlast⟩
  · rw [heffects, hprepare]
    exact iff_of_true eachAfter_nil fun r hr => by cases hr
  · have htail : ∀ before, EachAfter Fits before last := by
      intro before a x b hab
      obtain ⟨st', rfl⟩ := hlast x (by rw [hab]; simp)
      trivial
    have hvariables : (r.variables (generateStreamsMap catalog)).streamsMap =
        generateStreamsMap catalog := rfl
    rw [heffects, hprepare, eachAfter_append, and_iff_left (htail _),
      run_fits_iff hcat hvariables]
    constructor
    · intro h r' hr'
      rw [← Except.ok.inj hr']
      exact h
    · intro h
      exact h r rfl

/-! ### A delete before any rediscovery -/

namespace Sample

def deleteOne : Delivery where
  event := .rows { insert "t" 1 with change := .delete [Dict.ofList [("id", .int 1)]] }
  logFile := "bin.1"
  logPos := 120
  now := "now"
  millis := 0

/-- A server with one binlog, whose reader delivers the events. -/
def source (ds : List Delivery) : BinlogSource where
  lib := lib
  discover _ _ := .ok [entry]
  server := ⟨["bin.1"], fun _ _ => none, 1⟩
  verifyBinlogConfig := .ok false
  fetchCurrentLogFileAndPos := .ok ("bin.1", 500)
  randomServerId := 7
  str _ := ""
  read _ := (ds, none)

def config : BinlogConfig := ⟨false, .mysql, .null, none⟩

def atFour : State :=
  (State.empty.writeBookmark "db-t" "log_file" (.str "bin.1")).writeBookmark "db-t" "log_pos"
    (.int 4)

def deletedRecord : Record :=
  Dict.ofList [("id", .int 1), (sdcDeletedAt, .str "1970-01-01T00:00:00+00:00")]

end Sample

/-- The SCHEMA of the stream has the column `id` only, and the record of the delete the marker. -/
theorem marker_not_in_schema :
    ¬ RecordsFit (syncBinlogStreams (Sample.source [Sample.deleteOne]) Sample.config [Sample.entry]
      Sample.atFour).1 := by
  intro h
  have hfit := h [.message (schemaMessage Sample.entry [])]
    (.message (.record "db-t" Sample.deletedRecord (.int 0) "now")) _ rfl
  obtain ⟨schema, hforce, hkeys⟩ := hfit
  have hschema : schemaInForce "db-t" [.message (schemaMessage Sample.entry [])] =
      some Sample.entry.schema := rfl
  rw [List.nil_append, hschema, Option.some.injEq] at hforce
  have hmem := hkeys sdcDeletedAt (by decide)
  rw [← hforce] at hmem
  exact absurd hmem (by decide)

theorem records_fit_iff_deleteOne :
    RecordsFit (syncBinlogStreams (Sample.source [Sample.deleteOne]) Sample.config [Sample.entry]
        Sample.atFour).1 ↔
      ∀ r, prepareRun (Sample.source [Sample.deleteOne]) Sample.config
          (generateStreamsMap [Sample.entry]) Sample.atFour = .ok r →
        MarkersAnnounced r.env [Sample.entry] (r.variables (generateStreamsMap [Sample.entry]))
          r.deliveries :=
  records_fit_iff fun e he => by rw [List.mem_singleton.mp he]; rfl

end TapMysql.Binlog
