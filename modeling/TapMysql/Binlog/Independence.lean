import TapMysql.Binlog.Entries
import TapMysql.Lib.Projection

/-!
# Streams of one run

What a stream says to the target, and how it would decide on its own: from its entry, the columns
its own events already left out, and the discovery of its table. The run shares one set of ignored
columns between all streams, so it follows the streams on their own only when no column that
another stream left out keeps a stream from a discovery of its own.
-/

namespace TapMysql.Binlog

open Loop (Reaches)
open Projection

/-! ### What a stream says -/

/-- A SCHEMA message, or the values of a RECORD. -/
inductive Content where
  | schema (schema : Schema) (keyProperties : List String) (bookmarkProperties : List Val)
  | record (record : Record)
  deriving DecidableEq

def Effect.content? (s : String) : Effect → Option Content
  | .message (.schema t schema keys bookmarks) =>
    if t = s then some (.schema schema keys bookmarks) else none
  | .message (.record t record _ _) => if t = s then some (.record record) else none
  | _ => none

def contentsOf (s : String) (out : List Effect) : List Content :=
  out.filterMap (Effect.content? s)

/-- The event, when it is a row event of the stream. -/
def Delivery.rowsOf? (s : String) (d : Delivery) : Option RowsEvent :=
  match d.event with
  | .rows ev => if ev.tapStreamId = s then some ev else none
  | _ => none

def eventsOf (s : String) (ds : List Delivery) : List RowsEvent :=
  ds.filterMap (Delivery.rowsOf? s)

/-- Discovery answers the same for a table, whenever it is asked. -/
def DiscoveryFixed (env : Env) : Prop :=
  ∀ n n' table, env.discover n table = env.discover n' table

/-- The entries of the map carry the ids of their streams as names. -/
def StreamsNamed (m : StreamsMap) : Prop :=
  EntriesSatisfy (fun s entry => entry.catalogEntry.stream = s) m

theorem generateStreamsMap_named {catalog : List CatalogEntry}
    (h : ∀ e ∈ catalog, e.stream = e.tapStreamId) : StreamsNamed (generateStreamsMap catalog) := by
  intro s entry hs
  obtain ⟨e, he, rfl, rfl⟩ := generateStreamsMap_get? hs
  exact h e he

/-! ### A stream on its own -/

/-- The columns of an event that the schema of the entry lacks. -/
def lacking (ev : RowsEvent) (entry : StreamsMapEntry) : List String :=
  getDiffInColumnsList ev entry.catalogEntry.schema.keys []

structure Alone where
  entry : StreamsMapEntry
  leftOut : List String

def Alone.diff (x : Alone) (ev : RowsEvent) : List String :=
  getDiffInColumnsList ev x.entry.catalogEntry.schema.keys x.leftOut

/-- The entry that the event is rendered with, and the messages that announce it. -/
def Alone.place (env : Env) (s : String) (x : Alone) (ev : RowsEvent) :
    List Message × StreamsMapEntry :=
  if shouldRunDiscovery (x.diff ev) x.entry.catalogEntry.metadata then
    match rediscover env 0 s x.entry.catalogEntry.table with
    | .error _ => ([], x.entry)
    | .ok new =>
      if new.entry.schema.sameItems x.entry.catalogEntry.schema then ([], x.entry)
      else ([schemaMessage new.entry []], ⟨new.entry, new.columns⟩)
  else ([], x.entry)

/-- The RECORD messages of an event, but for their version and time. -/
def plainRecords (env : Env) (entry : StreamsMapEntry) (ev : RowsEvent) : List Message :=
  (emitRows env.lib entry.catalogEntry .null ev.columns entry.desiredColumns "" ev.images).1

def Alone.next (env : Env) (s : String) (x : Alone) (ev : RowsEvent) : Alone × List Content :=
  let r := x.place env s ev
  (⟨r.2, x.leftOut ++ (x.diff ev).filter (lacking ev r.2).contains⟩,
    contentsOf s ((r.1 ++ plainRecords env r.2 ev).map .message))

/-! ### Columns -/

theorem mem_lacking {ev : RowsEvent} {entry : StreamsMapEntry} {c : String} :
    c ∈ lacking ev entry ↔ c ∈ ev.columns.filterMap DbColumn.name ∧ isDroppedColumn c = false ∧
      c ∉ entry.catalogEntry.schema.keys := by
  simp [lacking, getDiffInColumnsList]

theorem mem_diff {ev : RowsEvent} {entry : StreamsMapEntry} {ignored : List String} {c : String} :
    c ∈ getDiffInColumnsList ev entry.catalogEntry.schema.keys ignored ↔
      c ∈ lacking ev entry ∧ c ∉ ignored := by
  rw [mem_lacking]
  simp only [getDiffInColumnsList, List.mem_filter, Bool.and_eq_true, Bool.not_eq_true',
    Bool.or_eq_false_iff, List.contains_eq_mem, decide_eq_false_iff_not]
  constructor
  · intro ⟨hc, ⟨hdropped, hignored⟩, hkeys⟩
    exact ⟨⟨hc, hdropped, hkeys⟩, hignored⟩
  · intro ⟨⟨hc, hdropped, hkeys⟩, hignored⟩
    exact ⟨hc, ⟨hdropped, hignored⟩, hkeys⟩

theorem shouldRunDiscovery_iff {columns : List String} {md : MdMap} :
    shouldRunDiscovery columns md = true ↔ ∃ c ∈ columns, columnNeedsDiscovery md c = true := by
  rw [shouldRunDiscovery, List.any_eq_true]

theorem rediscover_fixed {env : Env} (h : DiscoveryFixed env) (n : ℕ) (s table : String) :
    rediscover env n s table = rediscover env 0 s table := by
  rw [rediscover, rediscover, h n 0]

/-! ### Contents -/

theorem contentsOf_append (s : String) (out em : List Effect) :
    contentsOf s (out ++ em) = contentsOf s out ++ contentsOf s em :=
  List.filterMap_append

theorem contentsOf_emitRows (s : String) {lib : RenderLib} {entry : CatalogEntry}
    {version version' : Val} {dbColumns : List DbColumn} {columns : List String}
    {time time' : String} (images : List Record) :
    contentsOf s ((emitRows lib entry version dbColumns columns time images).1.map .message) =
      contentsOf s
        ((emitRows lib entry version' dbColumns columns time' images).1.map .message) := by
  induction images with
  | nil => rfl
  | cons row rest ih =>
    rw [emitRows, emitRows, rowToSingerRecord, rowToSingerRecord]
    cases renderItems lib entry.schema dbColumns (row.filterKeys columns.contains).entries with
    | error e => rfl
    | ok items =>
      rw [contentsOf] at ih ⊢
      simp only [List.map_cons, List.filterMap_cons, Effect.content?]
      rw [ih]
      rfl

section Placed

variable {env : Env} {v v' : Vars} {d : Delivery} {ev : RowsEvent} {entry : StreamsMapEntry}
  {p : Placed} {em : List Effect} {s : String}

theorem contentsOf_states {tail : List Effect} (h : ∀ x ∈ tail, ∃ st, x = .message (.state st)) :
    contentsOf s tail = [] := by
  rw [contentsOf, List.filterMap_eq_nil_iff]
  intro x hx
  obtain ⟨st, rfl⟩ := h x hx
  rfl

theorem PlacedRows.contents (h : PlacedRows env v d ev entry p)
    (hem : (iteration env v d).emitted = em) :
    contentsOf s em =
      contentsOf s ((p.emitted ++ plainRecords env p.entry ev).map .message) := by
  obtain ⟨tail, hemitted, htail⟩ := h.emitted
  have hrecords : contentsOf s ((p.records env d ev).map .message) =
      contentsOf s ((plainRecords env p.entry ev).map .message) := by
    rw [Placed.records, handleRowsEvent_eq, handleRows, plainRecords]
    exact contentsOf_emitRows s ev.images
  rw [← hem, hemitted, contentsOf_append, contentsOf_append, contentsOf_states htail,
    List.append_nil, hrecords, List.map_append, contentsOf_append]

theorem contentsOf_other {ms : List Message} {t : String} (hne : t ≠ s)
    (h : ∀ m ∈ ms, (∃ e, e.stream = t ∧ m = schemaMessage e []) ∨
      ∃ record version time, m = .record t record version time) :
    contentsOf s (ms.map .message) = [] := by
  rw [contentsOf, List.filterMap_eq_nil_iff]
  intro x hx
  obtain ⟨m, hm, rfl⟩ := List.mem_map.mp hx
  rcases h m hm with ⟨e, rfl, rfl⟩ | ⟨record, version, time, rfl⟩
  · simp [Effect.content?, schemaMessage, hne]
  · simp [Effect.content?, hne]

theorem next_placed (hs : iteration env v d = .next em v') (hd : d.event = .rows ev)
    (hfound : v.streamsMap.get? ev.tapStreamId = some entry) :
    ∃ p, PlacedRows env v d ev entry p ∧ v'.streamsMap.get? ev.tapStreamId = some p.entry ∧
      v'.ignoredColumns = p.vars.ignoredColumns := by
  obtain ⟨hend, em₁, v₁, he, hcase⟩ := iteration_next hs
  have hv' : v'.streamsMap = v₁.streamsMap ∧ v'.ignoredColumns = v₁.ignoredColumns := by
    rcases hcase with ⟨-, -, rfl⟩ | ⟨-, st, -, -, rfl⟩ <;> exact ⟨rfl, rfl⟩
  rw [hv'.1, hv'.2]
  rcases handleEvent_ok he with ⟨next, position, st, hd', -⟩ | ⟨g, st, hd', -⟩ |
    ⟨ev', hd', hnone, -⟩ | ⟨ev', hd', hr, -, rfl⟩
  · rw [hd] at hd'
    cases hd'
  · rw [hd] at hd'
    cases hd'
  · obtain rfl := Event.rows.inj (hd.symm.trans hd')
    have hsome : v.streamsMap.get? ev.tapStreamId = none := hnone
    rw [hfound] at hsome
    cases hsome
  · obtain rfl := Event.rows.inj (hd.symm.trans hd')
    obtain rfl : hr.entry = entry := Option.some.inj (hr.found.symm.trans hfound)
    exact ⟨hr.placed, ⟨hend, hd, hfound, unnamedColumns_of_verify hr.named, hr.places⟩,
      (placeColumns_keeps hr.places hr.found).found, rfl⟩

theorem ignored_subset (hs : iteration env v d = .next em v') :
    ∀ c ∈ v.ignoredColumns, c ∈ v'.ignoredColumns := by
  intro c hc
  by_cases hplaced : ∃ ev entry, d.event = .rows ev ∧
      v.streamsMap.get? ev.tapStreamId = some entry
  · obtain ⟨ev, entry, hd, hfound⟩ := hplaced
    obtain ⟨p, hp, -, hignored⟩ := next_placed hs hd hfound
    rw [hignored]
    have hplaces := hp.places
    rcases placeColumns_ok hplaces with ⟨-, rfl⟩ | ⟨-, -, rfl⟩ |
      ⟨-, -, new, -, ⟨rfl, -⟩ | ⟨rfl, -⟩⟩
    · exact hc
    all_goals exact List.mem_append_left _ hc
  · obtain ⟨-, em₁, v₁, he, hcase⟩ := iteration_next hs
    have hv' : v'.ignoredColumns = v₁.ignoredColumns := by
      rcases hcase with ⟨-, -, rfl⟩ | ⟨-, st, -, -, rfl⟩ <;> rfl
    rw [hv']
    rcases handleEvent_ok he with ⟨next, position, st, -, -, -, rfl⟩ | ⟨g, st, -, -, -, rfl⟩ |
      ⟨ev, -, -, -, rfl⟩ | ⟨ev, hd, hr, -, rfl⟩
    · exact hc
    · exact hc
    · exact hc
    · exact absurd ⟨ev, hr.entry, hd, hr.found⟩ hplaced

end Placed

/-! ### Runs -/

section Run

variable {env : Env} {m : StreamsMap} {v₀ v v' : Vars} {ds : List Delivery} {out em : List Effect}
  {d : Delivery} {ev : RowsEvent} {entry : StreamsMapEntry} {p : Placed} {s c : String} {x : Alone}

/-- An earlier event of the stream had the column, and its schema did not get it. -/
def LeftOut (env : Env) (v₀ : Vars) (ds : List Delivery) (s c : String) : Prop :=
  Loop.Passed (iteration env) v₀ (fun v d => ∃ ev entry p, PlacedRows env v d ev entry p ∧
    ev.tapStreamId = s ∧ c ∈ lacking ev entry ∧ c ∈ lacking ev p.entry) ds

/-- Whenever an event of the stream has a new column that the stream did not leave out itself, and
whose discovery would change the schema, the run discovers: some such column is not ignored. -/
def DiscoversForItself (env : Env) (v₀ : Vars) (ds : List Delivery) (s : String) : Prop :=
  ∀ a d b out v ev entry p new c, ds = a ++ d :: b → Reaches (iteration env) v₀ a out v →
    PlacedRows env v d ev entry p → ev.tapStreamId = s → c ∈ lacking ev entry →
    columnNeedsDiscovery entry.catalogEntry.metadata c = true → ¬ LeftOut env v₀ a s c →
    rediscover env v.discoveries s entry.catalogEntry.table = .ok new →
    new.entry.schema.sameItems entry.catalogEntry.schema = false →
    ∃ c' ∈ lacking ev entry, columnNeedsDiscovery entry.catalogEntry.metadata c' = true ∧
      c' ∉ v.ignoredColumns

/-- The stream on its own in a run: its entry, and what it left out. -/
structure Tracks (env : Env) (v₀ : Vars) (s : String) (ds : List Delivery) (v : Vars) (x : Alone) :
    Prop where
  found : v.streamsMap.get? s = some x.entry
  leftOut : ∀ c, c ∈ x.leftOut ↔ LeftOut env v₀ ds s c
  ignored : ∀ c ∈ x.leftOut, c ∈ v.ignoredColumns

theorem PlacedRows.unique {ev' : RowsEvent} {entry' : StreamsMapEntry} {p' : Placed}
    (h : PlacedRows env v d ev entry p) (h' : PlacedRows env v d ev' entry' p') :
    ev' = ev ∧ entry' = entry ∧ p' = p := by
  obtain rfl : ev' = ev := Event.rows.inj (h'.rows.symm.trans h.rows)
  obtain rfl : entry' = entry := Option.some.inj (h'.found.symm.trans h.found)
  exact ⟨rfl, rfl, Except.ok.inj (h'.places.symm.trans h.places)⟩

/-- The run discovers exactly when the stream on its own would, or the discovery would change
nothing. -/
theorem Tracks.place (h : Tracks env v₀ s ds v x) (hfix : DiscoveryFixed env)
    (hp : PlacedRows env v d ev x.entry p) (hs : ev.tapStreamId = s)
    (hown : ∀ new c, c ∈ lacking ev x.entry →
      columnNeedsDiscovery x.entry.catalogEntry.metadata c = true → ¬ LeftOut env v₀ ds s c →
      rediscover env v.discoveries s x.entry.catalogEntry.table = .ok new →
      new.entry.schema.sameItems x.entry.catalogEntry.schema = false →
      ∃ c' ∈ lacking ev x.entry,
        columnNeedsDiscovery x.entry.catalogEntry.metadata c' = true ∧ c' ∉ v.ignoredColumns) :
    x.place env s ev = (p.emitted, p.entry) := by
  -- a stream that discovers something new on its own has a column that the run does not ignore
  have hquiet : (∀ c ∈ lacking ev x.entry, columnNeedsDiscovery x.entry.catalogEntry.metadata c =
      true → c ∈ v.ignoredColumns) → x.place env s ev = ([], x.entry) := by
    intro hall
    rw [Alone.place]
    cases hrun : shouldRunDiscovery (x.diff ev) x.entry.catalogEntry.metadata with
    | false => rfl
    | true =>
      obtain ⟨c, hc, hneeds⟩ := shouldRunDiscovery_iff.mp hrun
      obtain ⟨hlack, hnot⟩ := mem_diff.mp hc
      rw [h.leftOut] at hnot
      simp only [if_true]
      cases hre : rediscover env 0 s x.entry.catalogEntry.table with
      | error e => rfl
      | ok new =>
        dsimp only
        cases hsame : new.entry.schema.sameItems x.entry.catalogEntry.schema with
        | true => rfl
        | false =>
          rw [← rediscover_fixed hfix v.discoveries] at hre
          obtain ⟨c', hlack', hneeds', hnot'⟩ := hown new c hlack hneeds hnot hre hsame
          exact absurd (hall c' hlack' hneeds') hnot'
  have hplaces := hp.places
  rcases placeColumns_ok hplaces with ⟨hdiff, rfl⟩ | ⟨-, hno, rfl⟩ |
    ⟨-, hrun, new, hre, hcase⟩
  · apply hquiet
    intro c hc _
    by_contra hnot
    have hmem := mem_diff.mpr ⟨hc, hnot⟩
    exact List.not_mem_nil (hdiff ▸ hmem)
  · apply hquiet
    intro c hc hneeds
    by_contra hnot
    have hyes := shouldRunDiscovery_iff.mpr ⟨c, mem_diff.mpr ⟨hc, hnot⟩, hneeds⟩
    exact absurd (hyes.symm.trans hno) (by decide)
  · have hrunx : shouldRunDiscovery (x.diff ev) x.entry.catalogEntry.metadata = true := by
      obtain ⟨c, hc, hneeds⟩ := shouldRunDiscovery_iff.mp hrun
      obtain ⟨hlack, hnot⟩ := mem_diff.mp hc
      exact shouldRunDiscovery_iff.mpr
        ⟨c, mem_diff.mpr ⟨hlack, fun hleft => hnot (h.ignored c hleft)⟩, hneeds⟩
    rw [hs] at hre
    have hre' : rediscover env 0 s x.entry.catalogEntry.table = .ok new :=
      (rediscover_fixed hfix _ _ _).symm.trans hre
    rw [Alone.place, hrunx, hre']
    rcases hcase with ⟨rfl, hsame⟩ | ⟨rfl, hsame⟩
    · simp [hsame]
    · simp [hsame]

theorem PlacedRows.leftOut_ignored (h : PlacedRows env v d ev entry p) {c : String}
    (hc : c ∈ lacking ev entry) (hc' : c ∈ lacking ev p.entry) : c ∈ p.vars.ignoredColumns := by
  have hplaces := h.places
  by_cases hin : c ∈ v.ignoredColumns
  · rcases placeColumns_ok hplaces with ⟨-, rfl⟩ | ⟨-, -, rfl⟩ |
      ⟨-, -, new, -, ⟨rfl, -⟩ | ⟨rfl, -⟩⟩
    · exact hin
    all_goals exact List.mem_append_left _ hin
  · have hdiff : c ∈ getDiffInColumnsList ev entry.catalogEntry.schema.keys v.ignoredColumns :=
      mem_diff.mpr ⟨hc, hin⟩
    rcases placeColumns_ok hplaces with ⟨hnil, rfl⟩ | ⟨-, -, rfl⟩ |
      ⟨-, -, new, -, ⟨rfl, hsame⟩ | ⟨rfl, -⟩⟩
    · exact absurd (hnil ▸ hdiff) List.not_mem_nil
    · exact List.mem_append_right _ hdiff
    all_goals
      apply List.mem_append_right
      apply List.mem_filter.mpr
      refine ⟨hdiff, ?_⟩
      have hnot : new.entry.schema.get? c = none := by
        first
          | rw [Dict.sameItems_iff.mp hsame c]
            exact Dict.get?_eq_none.mpr (mem_lacking.mp hc).2.2
          | exact Dict.get?_eq_none.mpr (mem_lacking.mp hc').2.2
      simp [Dict.contains, hnot]

theorem tracks_unseen (h : Tracks env v₀ s ds v x) (hr : Reaches (iteration env) v₀ ds out v)
    (hseen : d.rowsOf? s = none) (hs : iteration env v d = .next em v') :
    Tracks env v₀ s (ds ++ [d]) v' x := by
  have hother : ∀ ev entry p, PlacedRows env v d ev entry p → ev.tapStreamId ≠ s := by
    intro ev entry p hp heq
    rw [Delivery.rowsOf?, hp.rows] at hseen
    simp [heq] at hseen
  refine ⟨?_, ?_, fun c hc => ignored_subset hs c (h.ignored c hc)⟩
  · rcases iteration_map hs with hmap | ⟨t, entry, new, hreplaces, hmap⟩
    · rw [hmap]
      exact h.found
    · obtain ⟨ev, p, rfl, hp, -, -⟩ := hreplaces.placed
      rw [hmap, Dict.get?_set_ne _ _ (hother ev entry p hp)]
      exact h.found
  · intro c
    rw [h.leftOut, LeftOut, LeftOut, Loop.passed_concat hr]
    constructor
    · exact .inl
    · intro hc
      rcases hc with hc | ⟨ev, entry, p, hp, heq, -⟩
      · exact hc
      · exact absurd heq (hother ev entry p hp)

theorem rowsOf?_eq_some (h : d.rowsOf? s = some ev) : d.event = .rows ev ∧ ev.tapStreamId = s := by
  rw [Delivery.rowsOf?] at h
  split at h
  · rename_i ev' hd
    split_ifs at h with hid
    cases h
    exact ⟨hd, hid⟩
  · cases h

theorem tracks_seen (h : Tracks env v₀ s ds v x) (hr : Reaches (iteration env) v₀ ds out v)
    (hp : PlacedRows env v d ev x.entry p) (hid : ev.tapStreamId = s)
    (hplace : x.place env s ev = (p.emitted, p.entry)) (hs : iteration env v d = .next em v') :
    Tracks env v₀ s (ds ++ [d]) v' (x.next env s ev).1 := by
  obtain ⟨p', hp', hfound, hignored⟩ := next_placed hs hp.rows hp.found
  obtain ⟨-, -, rfl⟩ := hp.unique hp'
  have hnext : (x.next env s ev).1 =
      ⟨p'.entry, x.leftOut ++ (x.diff ev).filter (lacking ev p'.entry).contains⟩ := by
    rw [Alone.next, hplace]
  have hmem : ∀ c, c ∈ x.leftOut ++ (x.diff ev).filter (lacking ev p'.entry).contains ↔
      c ∈ x.leftOut ∨ c ∈ lacking ev x.entry ∧ c ∈ lacking ev p'.entry := by
    intro c
    rw [List.mem_append, List.mem_filter, Alone.diff, mem_diff, List.contains_iff_mem]
    tauto
  rw [hnext]
  refine ⟨hid ▸ hfound, ?_, ?_⟩
  · intro c
    rw [hmem, h.leftOut, LeftOut, LeftOut, Loop.passed_concat hr]
    constructor
    · intro hc
      exact hc.imp_right fun ⟨hbefore, hafter⟩ => ⟨ev, x.entry, p', hp, hid, hbefore, hafter⟩
    · intro hc
      refine hc.imp_right ?_
      intro ⟨ev', entry', q, hq, _, hbefore, hafter⟩
      obtain ⟨rfl, rfl, rfl⟩ := hp.unique hq
      exact ⟨hbefore, hafter⟩
  · intro c hc
    rcases (hmem c).mp hc with hc | ⟨hbefore, hafter⟩
    · exact ignored_subset hs c (h.ignored c hc)
    · rw [hignored]
      exact hp.leftOut_ignored hbefore hafter

theorem contents_unseen (hnamed : StreamsNamed v.streamsMap) (hseen : d.rowsOf? s = none)
    (hs : iteration env v d = .next em v') : contentsOf s em = [] := by
  have hem : (iteration env v d).emitted = em := by rw [hs]; rfl
  by_cases hplaced : ∃ ev entry p, PlacedRows env v d ev entry p
  · obtain ⟨ev, entry, p, hp⟩ := hplaced
    have hne : ev.tapStreamId ≠ s := by
      intro heq
      rw [Delivery.rowsOf?, hp.rows] at hseen
      simp [heq] at hseen
    rw [hp.contents hem]
    apply contentsOf_other hne
    have hstream : p.entry.catalogEntry.stream = ev.tapStreamId := by
      rcases hp.entry_cases with ⟨hentry, -⟩ | ⟨new, hreplaces, hentry, -⟩
      · rw [hentry]
        exact hnamed _ _ hp.found
      · rw [hentry]
        exact hreplaces.stream
    intro m hm
    rcases List.mem_append.mp hm with hm | hm
    · rcases hp.entry_cases with ⟨-, hnil⟩ | ⟨new, hreplaces, -, hemitted⟩
      · rw [hnil] at hm
        cases hm
      · rw [hemitted] at hm
        exact .inl ⟨new.entry, hreplaces.stream, List.mem_singleton.mp hm⟩
    · obtain ⟨record, rfl, -⟩ := emitRows_columns m hm
      rw [hstream]
      exact .inr ⟨record, _, _, rfl⟩
  · rw [contentsOf, List.filterMap_eq_nil_iff]
    intro y hy
    cases y with
    | autoPosition g => rfl
    | message msg =>
      rw [← hem] at hy
      obtain ⟨st, rfl⟩ := emitted_of_not_placed hplaced _ hy msg rfl
      rfl

theorem reaches_named (hnamed : StreamsNamed v₀.streamsMap)
    (hr : Reaches (iteration env) v₀ ds out v) : StreamsNamed v.streamsMap := by
  refine reaches_entries hnamed ?_ hr List.prefix_rfl
  intro a d b out v em v' s entry new _ _ _ hreplaces
  exact hreplaces.stream

/-- What a run says for a stream is what the stream on its own says for its events. -/
theorem reaches_alone (hfix : DiscoveryFixed env) (hnamed : StreamsNamed v₀.streamsMap)
    (hs : v₀.streamsMap.get? s = some entry) (hown : DiscoversForItself env v₀ ds s)
    (hr : Reaches (iteration env) v₀ ds out v) :
    contentsOf s out = (machine (Alone.next env s) ⟨entry, []⟩ (eventsOf s ds)).2 := by
  refine (reaches_projected (R := Tracks env v₀ s) ⟨hs, ?_, by simp⟩ ?_ ?_ hr
    List.prefix_rfl).1
  · intro c
    exact iff_of_false List.not_mem_nil Loop.not_passed_nil
  · intro a d b out v em v' x _ hr h hseen hstep
    exact ⟨contents_unseen (reaches_named hnamed hr) hseen hstep, tracks_unseen h hr hseen hstep⟩
  · intro a d b out v em v' x ev hds hr h hseen hstep
    obtain ⟨hd, hid⟩ := rowsOf?_eq_some hseen
    obtain ⟨p, hp, -, -⟩ := next_placed hstep hd (hid ▸ h.found)
    have hplace := h.place hfix hp hid fun new c =>
      hown a d b out v ev x.entry p new c hds hr hp hid
    refine ⟨?_, tracks_seen h hr hp hid hplace hstep⟩
    have hem : (iteration env v d).emitted = em := by rw [hstep]; rfl
    have hcontents := hp.contents hem (s := s)
    rw [contentsOf] at hcontents
    rw [hcontents, Alone.next, hplace]

end Run

/-- The run read all its deliveries and returned. -/
def Completes (env : Env) (m : StreamsMap) (st : State) (autoPosition : Option String)
    (ds : List Delivery) : Prop :=
  ∃ v, (Loop.run (iteration env) (readerEnd none) ds (initialVars m st autoPosition)).2 =
    .exhausted v

theorem reaches_of_completes {env : Env} {m : StreamsMap} {st : State}
    {autoPosition : Option String} {ds : List Delivery}
    (h : Completes env m st autoPosition ds) :
    ∃ v, Reaches (iteration env) (initialVars m st autoPosition) ds
      (runBinlogSync env m st autoPosition ds none).1 v := by
  obtain ⟨v, hv⟩ := h
  rw [runBinlogSync]
  rcases Loop.run_cases (iteration env) (readerEnd none) ds (initialVars m st autoPosition) with
    ⟨out, v', hr, hrun⟩ | ⟨a, d, b, out, v', em, t, -, -, hs, hrun⟩
  · rw [hrun]
    refine ⟨v', ?_⟩
    dsimp only [readerEnd]
    rw [List.append_nil]
    exact hr
  · rw [hrun] at hv
    rcases iteration_halt hs with ⟨-, -, rfl⟩ | ⟨-, -, e, rfl⟩ <;> cases hv

/-- Two runs with the same events of a stream say the same for it, when in each of them the stream
discovers for itself. -/
theorem streams_independent {env : Env} (hfix : DiscoveryFixed env) {m : StreamsMap}
    (hnamed : StreamsNamed m) {s : String} (hs : s ∈ m.keys) {ds ds' : List Delivery}
    (hevents : eventsOf s ds = eventsOf s ds') {st st' : State} {g g' : Option String}
    (hcompletes : Completes env m st g ds) (hcompletes' : Completes env m st' g' ds')
    (hown : DiscoversForItself env (initialVars m st g) ds s)
    (hown' : DiscoversForItself env (initialVars m st' g') ds' s) :
    contentsOf s (runBinlogSync env m st g ds none).1 =
      contentsOf s (runBinlogSync env m st' g' ds' none).1 := by
  obtain ⟨entry, hentry⟩ := Dict.mem_keys_iff.mp hs
  obtain ⟨v, hr⟩ := reaches_of_completes hcompletes
  obtain ⟨v', hr'⟩ := reaches_of_completes hcompletes'
  rw [reaches_alone hfix hnamed hentry hown hr, reaches_alone hfix hnamed hentry hown' hr', hevents]

/-! ### A column that another stream ignores -/

namespace Sample

/-- Table `db.u`, whose column `c` is not wanted. -/
def unwantedEntry : CatalogEntry :=
  { entry with
    tapStreamId := "db-u"
    stream := "db-u"
    table := "u"
    metadata := entry.metadata.set ["properties", "c"]
      (Dict.ofList [("selected-by-default", .bool false), ("datatype", .str "int")]) }

/-- Table `db.t` after it gained the column `c`. -/
def grownEntry : CatalogEntry :=
  { entry with
    schema := entry.schema.set "c"
      { PropSchema.blank with type := some ["null", "integer"], inclusion := some .available }
    metadata := entry.metadata.set ["properties", "c"]
      (Dict.ofList [("selected-by-default", .bool true), ("datatype", .str "int")]) }

def twoStreamsMap : StreamsMap := generateStreamsMap [entry, unwantedEntry]

def growingEnv : Env := { env "bin.1" 500 with discover := fun _ _ => .ok [grownEntry] }

/-- An insert of one row with the column `c`. -/
def insertC (table : String) : Delivery where
  event := .rows { insert table 1 with
    columns := [⟨some "id", 3, none⟩, ⟨some "c", 3, none⟩]
    change := .write [Dict.ofList [("id", .int 1), ("c", .int 2)]] }
  logFile := "bin.1"
  logPos := 120
  now := "now"
  millis := 0

/-- Each table has a discovery of its own, and that of `db.u` finds no new column. -/
def perTableEnv : Env :=
  { env "bin.1" 500 with
    discover := fun _ table => if table = "t" then .ok [grownEntry] else .ok [unwantedEntry] }

/-- An insert into `db.u` of one row with the column `d`. -/
def insertD : Delivery where
  event := .rows { insert "u" 1 with
    columns := [⟨some "id", 3, none⟩, ⟨some "d", 3, none⟩]
    change := .write [Dict.ofList [("id", .int 1), ("d", .int 2)]] }
  logFile := "bin.1"
  logPos := 110
  now := "now"
  millis := 0

theorem twoStreamsMap_named : StreamsNamed twoStreamsMap := by
  apply generateStreamsMap_named
  intro e he
  rcases List.mem_pair.mp he with rfl | rfl <;> rfl

/-- What the other table left out is not the new column of `db.t`. -/
theorem insertC_discovers {a : List Delivery} (ha : a = [] ∨ a = [insertD]) {out : List Effect}
    {v : Vars} {entry : StreamsMapEntry} {p : Placed} {ev : RowsEvent}
    (hr : Reaches (iteration perTableEnv) (initialVars twoStreamsMap State.empty none) a out v)
    (hp : PlacedRows perTableEnv v (insertC "t") ev entry p) :
    ∃ c ∈ lacking ev entry, columnNeedsDiscovery entry.catalogEntry.metadata c = true ∧
      c ∉ v.ignoredColumns := by
  have hev := Event.rows.inj hp.rows
  have hfound := hp.found
  subst hev
  rcases ha with rfl | rfl
  · obtain ⟨-, rfl⟩ := hr.nil
    cases hfound
    exact ⟨"c", by decide, by decide, by decide⟩
  · obtain ⟨out₁, v₁, em, hr₁, hs, -⟩ := Reaches.last (a := []) hr
    obtain ⟨-, rfl⟩ := hr₁.nil
    cases hs
    cases hfound
    exact ⟨"c", by decide, by decide, by decide⟩

end Sample

/-- A column that one stream leaves out is kept out of the other. -/
theorem ignored_in_other_stream :
    ¬ ∀ ds ds', eventsOf "db-t" ds = eventsOf "db-t" ds' →
      Completes Sample.growingEnv Sample.twoStreamsMap State.empty none ds →
      Completes Sample.growingEnv Sample.twoStreamsMap State.empty none ds' →
      contentsOf "db-t" (runBinlogSync Sample.growingEnv Sample.twoStreamsMap State.empty none ds
          none).1 =
        contentsOf "db-t" (runBinlogSync Sample.growingEnv Sample.twoStreamsMap State.empty none
          ds' none).1 := by
  intro h
  have heq := h [Sample.insertC "u", Sample.insertC "t"] [Sample.insertC "t"] (by decide)
    ⟨_, rfl⟩ ⟨_, rfl⟩
  revert heq
  decide

/-- The stream discovers its new column, whether or not the other one left out one before. -/
theorem streams_independent_insertC :
    contentsOf "db-t" (runBinlogSync Sample.perTableEnv Sample.twoStreamsMap State.empty none
        [Sample.insertD, Sample.insertC "t"] none).1 =
      contentsOf "db-t" (runBinlogSync Sample.perTableEnv Sample.twoStreamsMap State.empty none
        [Sample.insertC "t"] none).1 ∧
    ∃ schema, .schema schema ["id"] [] ∈ contentsOf "db-t" (runBinlogSync Sample.perTableEnv
      Sample.twoStreamsMap State.empty none [Sample.insertC "t"] none).1 ∧ "c" ∈ schema.keys := by
  constructor
  · apply streams_independent (fun _ _ _ => rfl) Sample.twoStreamsMap_named (by decide) (by decide)
      ⟨_, rfl⟩ ⟨_, rfl⟩
    · intro a d b out v ev entry p new c hds hr hp hid _ _ _ _ _
      rcases List.cons_eq_append_iff.mp hds with ⟨rfl, hd⟩ | ⟨a', rfl, hds'⟩
      · -- the first event is not one of the stream
        obtain ⟨rfl, -⟩ := List.cons.inj hd
        obtain rfl := Event.rows.inj hp.rows
        exact absurd hid (by decide)
      · rcases List.cons_eq_append_iff.mp hds' with ⟨rfl, hd⟩ | ⟨a'', -, hnil⟩
        · obtain ⟨rfl, -⟩ := List.cons.inj hd
          exact Sample.insertC_discovers (.inr rfl) hr hp
        · simp at hnil
    · intro a d b out v ev entry p new c hds hr hp hid _ _ _ _ _
      rcases List.cons_eq_append_iff.mp hds with ⟨rfl, hd⟩ | ⟨a', -, hnil⟩
      · obtain ⟨rfl, -⟩ := List.cons.inj hd
        exact Sample.insertC_discovers (.inl rfl) hr hp
      · simp at hnil
  · exact ⟨_, List.mem_cons_self, by decide⟩

end TapMysql.Binlog
