import TapMysql.Binlog.Written

/-!
# The entries of the streams map

An iteration puts at most one new entry into the map, in the place of the entry of the stream of
its event. What holds of the entries of the start and of every entry that is put in their place
holds of all entries, and of those that the messages of the run are written with.
-/

namespace TapMysql.Binlog

open Loop (Reaches)

theorem generateStreamsMap_get? {streams : List CatalogEntry} {s : String}
    {entry : StreamsMapEntry} (h : (generateStreamsMap streams).get? s = some entry) :
    ∃ e ∈ streams, e.tapStreamId = s ∧
      entry = ⟨addAutomaticProperties e, e.schema.keys ++ [sdcDeletedAt]⟩ := by
  obtain ⟨e, he, heq⟩ := List.mem_map.mp (Dict.mem_of_get?_ofList h)
  rw [Prod.mk.injEq] at heq
  exact ⟨e, he, heq.1, heq.2.symm⟩

/-- In the variables `v` the delivery leads to a discovery that answers `new`. -/
def Rediscovers (env : Env) (v : Vars) (d : Delivery) (s : String) (new : Rediscovery) : Prop :=
  reachedEnd env d = false ∧ ∃ ev entry, d.event = .rows ev ∧ ev.tapStreamId = s ∧
    v.streamsMap.get? s = some entry ∧ unnamedColumns ev = [] ∧
    getDiffInColumnsList ev entry.catalogEntry.schema.keys v.ignoredColumns ≠ [] ∧
    shouldRunDiscovery (getDiffInColumnsList ev entry.catalogEntry.schema.keys v.ignoredColumns)
      entry.catalogEntry.metadata = true ∧
    rediscover env v.discoveries s entry.catalogEntry.table = .ok new

/-- In the variables `v` the delivery puts the answer of a discovery in the place of the entry of
the stream. -/
def Replaces (env : Env) (v : Vars) (d : Delivery) (s : String) (entry : StreamsMapEntry)
    (new : Rediscovery) : Prop :=
  Rediscovers env v d s new ∧ v.streamsMap.get? s = some entry ∧
    new.entry.schema.sameItems entry.catalogEntry.schema = false

def EntriesSatisfy (P : String → StreamsMapEntry → Prop) (m : StreamsMap) : Prop :=
  ∀ s entry, m.get? s = some entry → P s entry

/-- What the answer of a discovery comes to. -/
theorem rediscover_eq_ok_iff {env : Env} {calls : Nat} {s table : String} {new : Rediscovery} :
    rediscover env calls s table = .ok new ↔
      ∃ found rest newColumns, env.discover calls table = .ok (found :: rest) ∧
        desiredColumns (selectedProperties found) found.schema = .ok newColumns ∧
        new =
          { entry := addAutomaticProperties
              { found with
                stream := s
                schema := found.schema.filterKeys newColumns.contains }
            columns := newColumns ++ [sdcDeletedAt] } := by
  rw [rediscover]
  split
  · rename_i err hdiscover
    simp [hdiscover]
  · rename_i hdiscover
    simp [hdiscover]
  · rename_i found rest hdiscover
    cases hcolumns : desiredColumns (selectedProperties found) found.schema <;>
      simp [hdiscover, hcolumns, eq_comm]

theorem rediscover_stream {env : Env} {calls : Nat} {s table : String} {new : Rediscovery}
    (h : rediscover env calls s table = .ok new) : new.entry.stream = s := by
  obtain ⟨found, rest, newColumns, -, -, rfl⟩ := rediscover_eq_ok_iff.mp h
  rfl

/-- The desired columns are the properties of the schema, the marker of a deletion among them. -/
structure InStep (entry : StreamsMapEntry) : Prop where
  columns : ∀ c, c ∈ entry.desiredColumns ↔ c ∈ entry.catalogEntry.schema.keys
  marker : sdcDeletedAt ∈ entry.desiredColumns

theorem rediscover_inStep {env : Env} {calls : Nat} {s table : String} {new : Rediscovery}
    (h : rediscover env calls s table = .ok new) : InStep ⟨new.entry, new.columns⟩ := by
  obtain ⟨found, rest, newColumns, -, hcolumns, rfl⟩ := rediscover_eq_ok_iff.mp h
  have hfound : ∀ c ∈ newColumns, c ∈ found.schema.keys := by
    intro c hc
    obtain ⟨p, hp, -⟩ := (mem_desiredColumns hcolumns c).mp hc
    exact Dict.mem_keys_iff.mpr ⟨p, hp⟩
  refine ⟨fun c => ?_, List.mem_append_right _ (List.mem_singleton_self _)⟩
  simp only [addAutomaticProperties, List.mem_append, List.mem_singleton, Dict.mem_keys_set,
    Dict.mem_keys_filterKeys, List.contains_iff_mem]
  constructor
  · intro hc
    rcases hc with hc | hc
    · exact .inr ⟨hfound c hc, hc⟩
    · exact .inl hc
  · intro hc
    rcases hc with hc | hc
    · exact .inr hc
    · exact .inl hc.2

theorem rediscovers_of_place {env : Env} {v : Vars} {d : Delivery} {ev : RowsEvent}
    {entry : StreamsMapEntry} {new : Rediscovery} (hend : reachedEnd env d = false)
    (hd : d.event = .rows ev) (hs : v.streamsMap.get? ev.tapStreamId = some entry)
    (hnamed : unnamedColumns ev = [])
    (hdiff : getDiffInColumnsList ev entry.catalogEntry.schema.keys v.ignoredColumns ≠ [])
    (hrun : shouldRunDiscovery (getDiffInColumnsList ev entry.catalogEntry.schema.keys
      v.ignoredColumns) entry.catalogEntry.metadata = true)
    (hnew : rediscover env v.discoveries ev.tapStreamId entry.catalogEntry.table = .ok new) :
    Rediscovers env v d ev.tapStreamId new :=
  ⟨hend, ev, entry, hd, rfl, hs, hnamed, hdiff, hrun, hnew⟩

theorem handleEvent_messages {env : Env} {v : Vars} {d : Delivery} {msg : Message}
    (h : .message msg ∈ (handleEvent env v d).1) :
    ∃ ev entry p, d.event = .rows ev ∧ v.streamsMap.get? ev.tapStreamId = some entry ∧
      unnamedColumns ev = [] ∧ placeColumns env v ev.tapStreamId entry ev = .ok p ∧
      (msg ∈ p.emitted ∨ msg ∈ (handleRowsEvent ⟨env.lib, p.entry.catalogEntry, p.vars.state,
        p.entry.desiredColumns, d.now, d.millis⟩ ev).1) := by
  rw [handleEvent] at h
  cases hd : d.event with
  | rotate next position =>
    simp only [hd] at h
    split at h <;> simp at h
  | gtid g =>
    simp only [hd] at h
    split at h <;> simp at h
  | rows ev =>
    simp only [hd, handleEventOfRows] at h
    split at h
    · simp at h
    · rename_i entry hs
      split at h
      · simp at h
      · rename_i hv
        split at h
        · simp at h
        · rename_i p hp
          refine ⟨ev, entry, p, rfl, hs, unnamedColumns_of_verify hv, hp, ?_⟩
          split at h <;> simpa using h

theorem iteration_map {env : Env} {v v' : Vars} {d : Delivery} {em : List Effect}
    (hs : iteration env v d = .next em v') :
    v'.streamsMap = v.streamsMap ∨ ∃ s entry new, Replaces env v d s entry new ∧
      v'.streamsMap = v.streamsMap.set s ⟨new.entry, new.columns⟩ := by
  obtain ⟨hend, em₁, v₁, he, hcase⟩ := iteration_next hs
  have hmap : v'.streamsMap = v₁.streamsMap := by
    rcases hcase with ⟨-, -, rfl⟩ | ⟨-, st, -, -, rfl⟩ <;> rfl
  rw [hmap]
  rcases handleEvent_ok he with ⟨next, position, st, -, -, -, rfl⟩ | ⟨g, st, -, -, -, rfl⟩ |
    ⟨ev, -, -, -, rfl⟩ | ⟨ev, hd, hr, -, rfl⟩
  · exact .inl rfl
  · exact .inl rfl
  · exact .inl rfl
  · have hnamed := unnamedColumns_of_verify hr.named
    have hplaces := hr.places
    rcases placeColumns_ok hplaces with ⟨-, hp⟩ | ⟨-, -, hp⟩ |
      ⟨hdiff, hrun, new, hre, ⟨hp, -⟩ | ⟨hp, hsame⟩⟩
    · exact .inl (by rw [HandledRows.after, hp]; rfl)
    · exact .inl (by rw [HandledRows.after, hp]; rfl)
    · exact .inl (by rw [HandledRows.after, hp]; rfl)
    · have hredis := rediscovers_of_place (v := v) hend hd hr.found hnamed hdiff hrun hre
      exact .inr ⟨ev.tapStreamId, hr.entry, new, ⟨hredis, hr.found, hsame⟩,
        by rw [HandledRows.after, hp]; rfl⟩

theorem Replaces.map {env : Env} {v v' : Vars} {d : Delivery} {em : List Effect} {s : String}
    {entry : StreamsMapEntry} {new : Rediscovery} (h : Replaces env v d s entry new)
    (hs : iteration env v d = .next em v') :
    v'.streamsMap = v.streamsMap.set s ⟨new.entry, new.columns⟩ := by
  obtain ⟨⟨-, ev, entry', hd, rfl, hfound, -, hdiff, hrun, hre⟩, hentry, hsame⟩ := h
  obtain rfl : entry' = entry := Option.some.inj (hfound.symm.trans hentry)
  obtain ⟨-, em₁, v₁, he, hcase⟩ := iteration_next hs
  have hmap : v'.streamsMap = v₁.streamsMap := by
    rcases hcase with ⟨-, -, rfl⟩ | ⟨-, st, -, -, rfl⟩ <;> rfl
  rw [hmap]
  rcases handleEvent_ok he with ⟨next, position, st, hd', -⟩ | ⟨g, st, hd', -⟩ |
    ⟨ev', hd', hnone, -⟩ | ⟨ev', hd', hr, -, rfl⟩
  · simp [hd] at hd'
  · simp [hd] at hd'
  · obtain rfl : ev' = ev := by simpa [hd] using hd'.symm
    have hsome : v.streamsMap.get? ev'.tapStreamId = none := hnone
    simp [hsome] at hfound
  · obtain rfl : ev' = ev := by simpa [hd] using hd'.symm
    obtain rfl : hr.entry = entry' := Option.some.inj (hr.found.symm.trans hentry)
    have hplaces := hr.places
    rcases placeColumns_ok hplaces with ⟨hnone, -⟩ | ⟨-, hno, -⟩ |
      ⟨-, -, new', hre', ⟨-, hsame'⟩ | ⟨hp, -⟩⟩
    · exact absurd hnone hdiff
    · exact absurd (hrun.symm.trans hno) (by decide)
    · obtain rfl : new' = new := Except.ok.inj (hre'.symm.trans hre)
      exact absurd (hsame.symm.trans hsame') (by decide)
    · obtain rfl : new' = new := Except.ok.inj (hre'.symm.trans hre)
      rw [HandledRows.after, hp]
      rfl

section Run

variable {env : Env} {P : String → StreamsMapEntry → Prop} {v₀ v v' : Vars}
  {ds a b : List Delivery} {out : List Effect} {d : Delivery}

/-- Every entry that the run puts into the map satisfies `P`. -/
def ReplacementsSatisfy (env : Env) (P : String → StreamsMapEntry → Prop) (v₀ : Vars)
    (ds : List Delivery) : Prop :=
  ∀ a d b out v em v' s entry new, ds = a ++ d :: b → Reaches (iteration env) v₀ a out v →
    iteration env v d = .next em v' → Replaces env v d s entry new → P s ⟨new.entry, new.columns⟩

theorem EntriesSatisfy.set {m : StreamsMap} {s : String} {new : StreamsMapEntry}
    (h : EntriesSatisfy P m) (hnew : P s new) : EntriesSatisfy P (m.set s new) := by
  intro t e ht
  by_cases hts : s = t
  · subst hts
    rw [Dict.get?_set_self, Option.some.injEq] at ht
    exact ht ▸ hnew
  · exact h t e ((Dict.get?_set_ne _ _ hts) ▸ ht)

theorem reaches_entries (h₀ : EntriesSatisfy P v₀.streamsMap)
    (hnew : ReplacementsSatisfy env P v₀ ds) (hr : Reaches (iteration env) v₀ a out v)
    (ha : a <+: ds) : EntriesSatisfy P v.streamsMap := by
  induction hr with
  | start => exact h₀
  | @step is out v d em v' hr hs ih =>
    have hv := ih ((List.prefix_append is [d]).trans ha)
    obtain ⟨rest, hrest⟩ := ha
    rcases iteration_map hs with hmap | ⟨s, entry, new, hreplaces, hmap⟩
    · rw [hmap]
      exact hv
    · rw [hmap]
      exact hv.set (hnew is d rest out v em v' s entry new (by rw [← hrest]; simp) hr hs hreplaces)

/-- The entry that an event is placed with is the stored one, or takes its place. -/
theorem placed_entry {ev : RowsEvent} {entry : StreamsMapEntry} {p : Placed}
    (hend : reachedEnd env d = false) (hd : d.event = .rows ev)
    (hs : v.streamsMap.get? ev.tapStreamId = some entry) (hnamed : unnamedColumns ev = [])
    (h : placeColumns env (takePosition v d) ev.tapStreamId entry ev = .ok p) :
    (p.entry = entry ∧ p.emitted = []) ∨ ∃ new, Replaces env v d ev.tapStreamId entry new ∧
      p.entry = ⟨new.entry, new.columns⟩ ∧ p.emitted = [schemaMessage new.entry []] := by
  rcases placeColumns_ok h with ⟨-, rfl⟩ | ⟨-, -, rfl⟩ |
    ⟨hdiff, hrun, new, hre, ⟨rfl, -⟩ | ⟨rfl, hsame⟩⟩
  · exact .inl ⟨rfl, rfl⟩
  · exact .inl ⟨rfl, rfl⟩
  · exact .inl ⟨rfl, rfl⟩
  · have hredis := rediscovers_of_place (v := v) hend hd hs hnamed hdiff hrun hre
    exact .inr ⟨new, ⟨hredis, hs, hsame⟩, rfl, rfl⟩

/-- What an iteration emits: the effects of its event, and possibly a STATE message. -/
theorem mem_emitted {x : Effect} (h : x ∈ (iteration env v d).emitted) :
    (reachedEnd env d = false ∧ x ∈ (handleEvent env (takePosition v d) d).1) ∨
      ∃ st, x = .message (.state st) := by
  cases hs : iteration env v d with
  | next em v' =>
    rw [hs, Step.emitted] at h
    obtain ⟨hend, em₁, v₁, he, ⟨-, rfl, -⟩ | ⟨-, st, -, rfl, -⟩⟩ := iteration_next hs
    · exact .inl ⟨hend, by rw [he]; exact h⟩
    · rcases List.mem_append.mp h with h | h
      · exact .inl ⟨hend, by rw [he]; exact h⟩
      · exact .inr ⟨st, List.mem_singleton.mp h⟩
  | halt em t =>
    rw [hs, Step.emitted] at h
    rcases iteration_halt hs with ⟨-, rfl, -⟩ | ⟨hend, rfl, -⟩
    · cases h
    · exact .inl ⟨hend, h⟩

theorem record_emitted {s : String} {record : Record} {version : Val} {time : String}
    (h : .message (.record s record version time) ∈ (iteration env v d).emitted) :
    ∃ ev entry p, reachedEnd env d = false ∧ d.event = .rows ev ∧
      v.streamsMap.get? ev.tapStreamId = some entry ∧ unnamedColumns ev = [] ∧
      placeColumns env (takePosition v d) ev.tapStreamId entry ev = .ok p ∧
      p.entry.catalogEntry.stream = s ∧ ∀ c ∈ record.keys, c ∈ p.entry.desiredColumns := by
  rcases mem_emitted h with ⟨hend, h⟩ | ⟨st, hst⟩
  · obtain ⟨ev, entry, p, hd, hs, hnamed, hp, hin | hin⟩ := handleEvent_messages h
    · obtain ⟨e, he⟩ := placeColumns_emitted hp _ hin
      cases he
    · rw [handleRowsEvent_eq, handleRows] at hin
      obtain ⟨record', heq, hcolumns⟩ := emitRows_columns _ hin
      cases heq
      exact ⟨ev, entry, p, hend, hd, hs, hnamed, hp, rfl, hcolumns⟩
  · cases hst

/-! ### Placed row events -/

variable {s : String} {ev : RowsEvent} {entry : StreamsMapEntry} {p : Placed} {new : Rediscovery}

/-- The delivery is a row event of a stream of the map that is placed. -/
structure PlacedRows (env : Env) (v : Vars) (d : Delivery) (ev : RowsEvent)
    (entry : StreamsMapEntry) (p : Placed) : Prop where
  before : reachedEnd env d = false
  rows : d.event = .rows ev
  found : v.streamsMap.get? ev.tapStreamId = some entry
  named : unnamedColumns ev = []
  places : placeColumns env (takePosition v d) ev.tapStreamId entry ev = .ok p

/-- The RECORD messages of a placed event. -/
def Placed.records (p : Placed) (env : Env) (d : Delivery) (ev : RowsEvent) : List Message :=
  (handleRowsEvent ⟨env.lib, p.entry.catalogEntry, p.vars.state, p.entry.desiredColumns, d.now,
    d.millis⟩ ev).1

theorem PlacedRows.emitted (h : PlacedRows env v d ev entry p) :
    ∃ tail, (iteration env v d).emitted =
        p.emitted.map .message ++ ((p.records env d ev).map .message ++ tail) ∧
      ∀ x ∈ tail, ∃ st, x = .message (.state st) := by
  have hevent : (handleEvent env (takePosition v d) d).1 =
      p.emitted.map .message ++ (p.records env d ev).map .message := by
    have hfound : (takePosition v d).streamsMap.get? ev.tapStreamId = some entry := h.found
    simp only [handleEvent, h.rows, handleEventOfRows, hfound,
      verify_of_unnamedColumns h.named, h.places, Placed.records]
    split <;> exact List.map_append
  cases hs : iteration env v d with
  | next em v' =>
    obtain ⟨-, em₁, v₁, he, hcase⟩ := iteration_next hs
    rw [he] at hevent
    obtain rfl : em₁ = _ := hevent
    rcases hcase with ⟨-, rfl, -⟩ | ⟨-, st, -, rfl, -⟩
    · exact ⟨[], by simp [Step.emitted], by simp⟩
    · exact ⟨[.message (.state st)], by simp [Step.emitted], by simp⟩
  | halt em t =>
    rcases iteration_halt hs with ⟨hreach, -⟩ | ⟨-, rfl, -⟩
    · rw [h.before] at hreach
      cases hreach
    · exact ⟨[], by simp [Step.emitted, hevent], by simp⟩

theorem emitted_of_not_placed (h : ¬ ∃ ev entry p, PlacedRows env v d ev entry p) :
    ∀ x ∈ (iteration env v d).emitted, ∀ m, x = .message m → ∃ st, m = .state st := by
  intro x hx m hm
  rcases mem_emitted hx with ⟨hend, hin⟩ | ⟨st, hst⟩
  · rw [hm] at hin
    obtain ⟨ev, entry, p, hd, hs, hnamed, hp, -⟩ := handleEvent_messages hin
    exact absurd ⟨ev, entry, p, hend, hd, hs, hnamed, hp⟩ h
  · rw [hm, Effect.message.injEq] at hst
    exact ⟨st, hst⟩

theorem Replaces.placed (h : Replaces env v d s entry new) :
    ∃ ev p, s = ev.tapStreamId ∧ PlacedRows env v d ev entry p ∧
      p.entry = ⟨new.entry, new.columns⟩ ∧ p.emitted = [schemaMessage new.entry []] := by
  obtain ⟨⟨hend, ev, entry', hd, rfl, hfound, hnamed, hdiff, hrun, hre⟩, hentry, hsame⟩ := h
  obtain rfl : entry' = entry := Option.some.inj (hfound.symm.trans hentry)
  have hplace : ∃ vars, placeColumns env (takePosition v d) ev.tapStreamId entry' ev =
      .ok ⟨[schemaMessage new.entry []], ⟨new.entry, new.columns⟩, vars⟩ :=
    placeColumns_changed hdiff hrun hre hsame
  obtain ⟨vars, hp⟩ := hplace
  exact ⟨ev, _, rfl, ⟨hend, hd, hfound, hnamed, hp⟩, rfl, rfl⟩

theorem Replaces.stream (h : Replaces env v d s entry new) : new.entry.stream = s := by
  obtain ⟨⟨-, ev, entry', -, rfl, -, -, -, -, hre⟩, -⟩ := h
  exact rediscover_stream hre

theorem PlacedRows.entry_cases (h : PlacedRows env v d ev entry p) :
    (p.entry = entry ∧ p.emitted = []) ∨ ∃ new, Replaces env v d ev.tapStreamId entry new ∧
      p.entry = ⟨new.entry, new.columns⟩ ∧ p.emitted = [schemaMessage new.entry []] :=
  placed_entry h.before h.rows h.found h.named h.places

end Run

end TapMysql.Binlog
