import Mathlib.Data.Finset.Card
import TapMysql.Binlog.Independence

/-!
# What a discovery settles

After a row event a column of the event is in the stored schema or among the ignored columns,
unless the event itself led to a discovery whose answer no longer has it: only the columns that
the old schema lacked are compared with the new one. Each discovery still settles a column of its
event for good when the answers for a stream stay the same, so there are at most as many
discoveries as pairs of a stream and a column name in the events.
-/

namespace TapMysql.Binlog

open Loop (Reaches Passed)

/-! ### Settled columns -/

/-- The columns of an event, but for placeholders of dropped columns. -/
def RowsEvent.columnNames (ev : RowsEvent) : List String :=
  (ev.columns.filterMap DbColumn.name).filter fun c => !isDroppedColumn c

/-- Every column of the event is a property of the stored schema, or is ignored. -/
def Settled (v : Vars) (ev : RowsEvent) : Prop :=
  ∃ entry, v.streamsMap.get? ev.tapStreamId = some entry ∧
    ∀ c ∈ ev.columnNames, c ∈ entry.catalogEntry.schema.keys ∨ c ∈ v.ignoredColumns

/-- A new entry that takes the place of the stored one keeps the columns of the event that the
stored schema has. -/
def KeepsColumns (env : Env) (v : Vars) (d : Delivery) (ev : RowsEvent) : Prop :=
  ∀ entry new, Replaces env v d ev.tapStreamId entry new →
    ∀ c ∈ ev.columnNames, c ∈ entry.catalogEntry.schema.keys → c ∉ v.ignoredColumns →
      c ∈ new.entry.schema.keys

section Step

variable {env : Env} {v v' : Vars} {d : Delivery} {ev : RowsEvent} {entry : StreamsMapEntry}
  {p : Placed} {em : List Effect} {c : String}

theorem mem_columnNames :
    c ∈ ev.columnNames ↔ c ∈ ev.columns.filterMap DbColumn.name ∧ isDroppedColumn c = false := by
  simp [RowsEvent.columnNames]

theorem mem_lacking_iff :
    c ∈ lacking ev entry ↔ c ∈ ev.columnNames ∧ c ∉ entry.catalogEntry.schema.keys := by
  rw [mem_lacking, mem_columnNames, and_assoc]

/-- A column that the stored schema has is ignored after the event only if it was before. -/
theorem PlacedRows.ignored_of_known (h : PlacedRows env v d ev entry p)
    (hc : c ∈ entry.catalogEntry.schema.keys) (hin : c ∈ p.vars.ignoredColumns) :
    c ∈ v.ignoredColumns := by
  have hnot : c ∉ getDiffInColumnsList ev entry.catalogEntry.schema.keys v.ignoredColumns :=
    fun hdiff => (mem_lacking.mp (mem_diff.mp hdiff).1).2.2 hc
  have hplaces := h.places
  rcases placeColumns_ok hplaces with ⟨-, rfl⟩ | ⟨-, -, rfl⟩ |
    ⟨-, -, new, -, ⟨rfl, -⟩ | ⟨rfl, -⟩⟩
  · exact hin
  · exact (List.mem_append.mp hin).resolve_right hnot
  all_goals exact (List.mem_append.mp hin).resolve_right fun h => hnot (List.mem_of_mem_filter h)

/-- The columns of a row event are settled after it exactly when its discovery, if it has one that
changes the schema, keeps the columns that were known. -/
theorem settled_iff (hs : iteration env v d = .next em v') (hd : d.event = .rows ev)
    (hfound : v.streamsMap.get? ev.tapStreamId = some entry) :
    Settled v' ev ↔ KeepsColumns env v d ev := by
  obtain ⟨p, hp, hfound', hignored⟩ := next_placed hs hd hfound
  constructor
  · rintro ⟨entry', hentry', hall⟩ old new hreplaces c hc hold hnot
    obtain rfl : entry' = p.entry := Option.some.inj (hentry'.symm.trans hfound')
    obtain ⟨ev', p', -, hp', hentry, -⟩ := hreplaces.placed
    obtain ⟨-, rfl, rfl⟩ := hp.unique hp'
    rcases hall c hc with hin | hin
    · rw [hentry] at hin
      exact hin
    · rw [hignored] at hin
      exact absurd (hp.ignored_of_known hold hin) hnot
  · intro hkeeps
    refine ⟨p.entry, hfound', fun c hc => ?_⟩
    by_cases hnew : c ∈ p.entry.catalogEntry.schema.keys
    · exact .inl hnew
    · right
      rw [hignored]
      by_cases hold : c ∈ entry.catalogEntry.schema.keys
      · -- the stored schema had the column and the new one does not
        rcases hp.entry_cases with ⟨hsame, -⟩ | ⟨new, hreplaces, hentry, -⟩
        · rw [hsame] at hnew
          exact absurd hold hnew
        · have hin : c ∈ v.ignoredColumns := by
            by_contra hnot
            apply hnew
            rw [hentry]
            exact hkeeps entry new hreplaces c hc hold hnot
          have hsub := ignored_subset hs c hin
          rwa [hignored] at hsub
      · exact hp.leftOut_ignored (mem_lacking_iff.mpr ⟨hc, hold⟩) (mem_lacking_iff.mpr ⟨hc, hnew⟩)

/-! ### One discovery -/

/-- In the variables `v` the delivery makes the loop call `discover_catalog`. -/
def AsksDiscovery (env : Env) (v : Vars) (d : Delivery) (ev : RowsEvent)
    (entry : StreamsMapEntry) : Prop :=
  reachedEnd env d = false ∧ d.event = .rows ev ∧
    v.streamsMap.get? ev.tapStreamId = some entry ∧ unnamedColumns ev = [] ∧
    getDiffInColumnsList ev entry.catalogEntry.schema.keys v.ignoredColumns ≠ [] ∧
    shouldRunDiscovery (getDiffInColumnsList ev entry.catalogEntry.schema.keys v.ignoredColumns)
      entry.catalogEntry.metadata = true

/-- What a discovery with the answer `new` does to the variables. -/
structure Discovered (env : Env) (v : Vars) (d : Delivery) (v' : Vars) (ev : RowsEvent)
    (entry : StreamsMapEntry) (new : Rediscovery) : Prop where
  asks : AsksDiscovery env v d ev entry
  answers : Rediscovers env v d ev.tapStreamId new
  calls : v'.discoveries = v.discoveries + 1
  settles : ∀ c ∈ getDiffInColumnsList ev entry.catalogEntry.schema.keys v.ignoredColumns,
    c ∈ new.entry.schema.keys ∨ c ∈ v'.ignoredColumns
  stored : ∃ entry', v'.streamsMap.get? ev.tapStreamId = some entry' ∧
    new.entry.schema.sameItems entry'.catalogEntry.schema = true
  others : ∀ t, t ≠ ev.tapStreamId → v'.streamsMap.get? t = v.streamsMap.get? t

theorem Discovered.of_placed {v₁ : Vars} {new : Rediscovery}
    (hasks : AsksDiscovery env v d ev entry)
    (hnew : rediscover env v.discoveries ev.tapStreamId entry.catalogEntry.table = .ok new)
    (hcalls : v₁.discoveries = v.discoveries + 1)
    (hignored : v₁.ignoredColumns = v.ignoredColumns ++
      (getDiffInColumnsList ev entry.catalogEntry.schema.keys v.ignoredColumns).filter
        fun c => !new.entry.schema.contains c)
    (hmap : v₁.streamsMap = v.streamsMap ∧
        new.entry.schema.sameItems entry.catalogEntry.schema = true ∨
      v₁.streamsMap = v.streamsMap.set ev.tapStreamId ⟨new.entry, new.columns⟩) :
    Discovered env v d v₁ ev entry new := by
  obtain ⟨hend, hd, hfound, hnamed, hdiff, hrun⟩ := hasks
  refine ⟨⟨hend, hd, hfound, hnamed, hdiff, hrun⟩,
    ⟨hend, ev, entry, hd, rfl, hfound, hnamed, hdiff, hrun, hnew⟩, hcalls, ?_, ?_, ?_⟩
  · intro c hc
    by_cases hin : c ∈ new.entry.schema.keys
    · exact .inl hin
    · right
      rw [hignored]
      refine List.mem_append_right _ (List.mem_filter.mpr ⟨hc, ?_⟩)
      simp [Dict.contains, Dict.get?_eq_none.mpr hin]
  · rcases hmap with ⟨hmap, hsame⟩ | hmap
    · exact ⟨entry, by rw [hmap, hfound], hsame⟩
    · exact ⟨⟨new.entry, new.columns⟩, by rw [hmap, Dict.get?_set_self],
        Dict.sameItems_iff.mpr fun _ => rfl⟩
  · intro t ht
    rcases hmap with ⟨hmap, -⟩ | hmap
    · rw [hmap]
    · rw [hmap, Dict.get?_set_ne _ _ ht.symm]

/-- A completed iteration discovers nothing and leaves the map, or makes one discovery. -/
theorem next_discovers (hs : iteration env v d = .next em v') :
    (v'.discoveries = v.discoveries ∧ v'.streamsMap = v.streamsMap) ∨
      ∃ ev entry new, Discovered env v d v' ev entry new := by
  obtain ⟨hend, em₁, v₁, he, hcase⟩ := iteration_next hs
  have hv' : v'.discoveries = v₁.discoveries ∧ v'.streamsMap = v₁.streamsMap ∧
      v'.ignoredColumns = v₁.ignoredColumns := by
    rcases hcase with ⟨-, -, rfl⟩ | ⟨-, st, -, -, rfl⟩ <;> exact ⟨rfl, rfl, rfl⟩
  rcases handleEvent_ok he with ⟨next, position, st, -, -, -, rfl⟩ | ⟨g, st, -, -, -, rfl⟩ |
    ⟨ev, -, -, -, rfl⟩ | ⟨ev, hd, hr, -, rfl⟩
  · exact .inl ⟨hv'.1, hv'.2.1⟩
  · exact .inl ⟨hv'.1, hv'.2.1⟩
  · exact .inl ⟨hv'.1, hv'.2.1⟩
  · have hplaces := hr.places
    have hnamed := unnamedColumns_of_verify hr.named
    rcases placeColumns_ok hplaces with ⟨-, hp⟩ | ⟨-, -, hp⟩ |
      ⟨hdiff, hrun, new, hre, ⟨hp, hsame⟩ | ⟨hp, -⟩⟩
    · left
      rw [hv'.1, hv'.2.1, HandledRows.after, hp]
      exact ⟨rfl, rfl⟩
    · left
      rw [hv'.1, hv'.2.1, HandledRows.after, hp]
      exact ⟨rfl, rfl⟩
    all_goals
      right
      refine ⟨ev, hr.entry, new,
        .of_placed ⟨hend, hd, hr.found, hnamed, hdiff, hrun⟩ hre ?_ ?_ ?_⟩
    · rw [hv'.1, HandledRows.after, hp]
      rfl
    · rw [hv'.2.2, HandledRows.after, hp]
      rfl
    · exact .inl ⟨by rw [hv'.2.1, HandledRows.after, hp]; rfl, hsame⟩
    · rw [hv'.1, HandledRows.after, hp]
      rfl
    · rw [hv'.2.2, HandledRows.after, hp]
      rfl
    · exact .inr (by rw [hv'.2.1, HandledRows.after, hp]; rfl)

end Step

/-! ### All discoveries of a run -/

/-- The pairs of a stream and a column name in the row events. -/
def eventPairs (ds : List Delivery) : Finset (String × String) :=
  (ds.flatMap fun d => match d.event with
    | .rows ev => (ev.columns.filterMap DbColumn.name).map fun c => (ev.tapStreamId, c)
    | _ => []).toFinset

/-- All discoveries of the run for one stream answer the same. -/
def SteadyDiscovery (env : Env) (v₀ : Vars) (ds : List Delivery) : Prop :=
  ∀ s new new', Passed (iteration env) v₀ (fun v d => Rediscovers env v d s new) ds →
    Passed (iteration env) v₀ (fun v d => Rediscovers env v d s new') ds → new = new'

/-- Each discovery so far is charged to a pair of its own, and the column of a charged pair is
ignored, or it is in the stored schema of the stream, which is the one of its discoveries. -/
structure Charged (env : Env) (v₀ : Vars) (ds : List Delivery) (v : Vars)
    (pairs : Finset (String × String)) : Prop where
  events : pairs ⊆ eventPairs ds
  card : pairs.card = v.discoveries
  placed : ∀ p ∈ pairs, p.2 ∈ v.ignoredColumns ∨ ∃ entry new,
    v.streamsMap.get? p.1 = some entry ∧ p.2 ∈ entry.catalogEntry.schema.keys ∧
    Passed (iteration env) v₀ (fun v d => Rediscovers env v d p.1 new) ds ∧
    new.entry.schema.sameItems entry.catalogEntry.schema = true

section Run

variable {env : Env} {v₀ v v' : Vars} {ds a : List Delivery} {out em : List Effect} {d : Delivery}
  {ev : RowsEvent} {entry : StreamsMapEntry} {new : Rediscovery}
  {pairs : Finset (String × String)} {c : String}

theorem eventPairs_append (ds ds' : List Delivery) :
    eventPairs (ds ++ ds') = eventPairs ds ∪ eventPairs ds' := by
  simp only [eventPairs, List.flatMap_append, List.toFinset_append]

theorem AsksDiscovery.mem_eventPairs (h : AsksDiscovery env v d ev entry)
    (hc : c ∈ getDiffInColumnsList ev entry.catalogEntry.schema.keys v.ignoredColumns) :
    (ev.tapStreamId, c) ∈ eventPairs [d] := by
  have hname := (mem_lacking.mp (mem_diff.mp hc).1).1
  rw [eventPairs, List.mem_toFinset]
  simp only [List.flatMap_cons, List.flatMap_nil, List.append_nil, h.2.1]
  exact List.mem_map_of_mem hname

theorem AsksDiscovery.exists_column (h : AsksDiscovery env v d ev entry) :
    ∃ c, c ∈ getDiffInColumnsList ev entry.catalogEntry.schema.keys v.ignoredColumns :=
  List.exists_mem_of_ne_nil _ h.2.2.2.2.1

/-- A column that leads to a discovery is not charged yet. -/
theorem Charged.notMem (h : Charged env v₀ ds v pairs) (hasks : AsksDiscovery env v d ev entry)
    (hc : c ∈ getDiffInColumnsList ev entry.catalogEntry.schema.keys v.ignoredColumns) :
    (ev.tapStreamId, c) ∉ pairs := by
  obtain ⟨hlack, hnot⟩ := mem_diff.mp hc
  intro hmem
  rcases h.placed _ hmem with hin | ⟨entry', new', hfound, hkeys, -⟩
  · exact hnot hin
  · obtain rfl : entry' = entry := Option.some.inj (hfound.symm.trans hasks.2.2.1)
    exact (mem_lacking.mp hlack).2.2 hkeys

theorem passed_mono {Q : Vars → Delivery → Prop} (hr : Reaches (iteration env) v₀ a out v)
    (h : Passed (iteration env) v₀ Q a) : Passed (iteration env) v₀ Q (a ++ [d]) :=
  (Loop.passed_concat hr).mpr (.inl h)

theorem SteadyDiscovery.of_prefix {ds' : List Delivery} (h : SteadyDiscovery env v₀ (ds ++ ds')) :
    SteadyDiscovery env v₀ ds := by
  intro s new new' hnew hnew'
  have hmono : ∀ new, Passed (iteration env) v₀ (fun v d => Rediscovers env v d s new) ds →
      Passed (iteration env) v₀ (fun v d => Rediscovers env v d s new) (ds ++ ds') := by
    rintro new ⟨a, d, b, out, v, rfl, hr, hq⟩
    exact ⟨a, d, b ++ ds', out, v, by simp, hr, hq⟩
  exact h s new new' (hmono new hnew) (hmono new' hnew')

/-- Each round that discovers charges one more pair. -/
theorem Charged.next (h : Charged env v₀ a v pairs) (hr : Reaches (iteration env) v₀ a out v)
    (hs : iteration env v d = .next em v') (hsteady : SteadyDiscovery env v₀ (a ++ [d])) :
    ∃ pairs', Charged env v₀ (a ++ [d]) v' pairs' := by
  have hevents : eventPairs a ⊆ eventPairs (a ++ [d]) := by
    rw [eventPairs_append]
    exact Finset.subset_union_left
  rcases next_discovers hs with ⟨hcalls, hmap⟩ | ⟨ev, entry, new, hdis⟩
  · refine ⟨pairs, h.events.trans hevents, h.card.trans hcalls.symm, fun p hp => ?_⟩
    rcases h.placed p hp with hin | ⟨entry, new, hfound, hkeys, hpassed, hsame⟩
    · exact .inl (ignored_subset hs p.2 hin)
    · exact .inr ⟨entry, new, by rw [hmap, hfound], hkeys, passed_mono hr hpassed, hsame⟩
  · obtain ⟨c, hc⟩ := hdis.asks.exists_column
    obtain ⟨entry', hstored, hsame'⟩ := hdis.stored
    have hpassed' := (Loop.passed_concat (i := d)
      (Q := fun v d => Rediscovers env v d ev.tapStreamId new) hr).mpr (.inr hdis.answers)
    refine ⟨insert (ev.tapStreamId, c) pairs, ?_, ?_, fun p hp => ?_⟩
    · refine Finset.insert_subset ?_ (h.events.trans hevents)
      rw [eventPairs_append]
      exact Finset.mem_union_right _ (hdis.asks.mem_eventPairs hc)
    · rw [Finset.card_insert_of_notMem (h.notMem hdis.asks hc), h.card, hdis.calls]
    · rcases Finset.mem_insert.mp hp with rfl | hp
      · rcases hdis.settles c hc with hin | hin
        · exact .inr ⟨entry', new, hstored, (Dict.mem_keys_of_sameItems hsame').mp hin, hpassed',
            hsame'⟩
        · exact .inl hin
      · rcases h.placed p hp with hin | ⟨old, new₀, hfound, hkeys, hpassed, hsame⟩
        · exact .inl (ignored_subset hs p.2 hin)
        · by_cases hps : p.1 = ev.tapStreamId
          · -- the stored schema was and is the one that the discoveries of the stream answer
            rw [hps] at hpassed
            obtain rfl := hsteady _ _ _ (passed_mono hr hpassed) hpassed'
            have hnew := (Dict.mem_keys_of_sameItems hsame).mpr hkeys
            exact .inr ⟨entry', new₀, by rw [hps, hstored],
              (Dict.mem_keys_of_sameItems hsame').mp hnew, by rw [hps]; exact hpassed', hsame'⟩
          · exact .inr ⟨old, new₀, by rw [hdis.others _ hps, hfound], hkeys,
              passed_mono hr hpassed, hsame⟩

theorem exists_charged (hcalls : v₀.discoveries = 0) (hr : Reaches (iteration env) v₀ a out v)
    (hsteady : SteadyDiscovery env v₀ a) : ∃ pairs, Charged env v₀ a v pairs := by
  induction hr with
  | start => exact ⟨∅, Finset.empty_subset _, by rw [hcalls]; rfl, by simp⟩
  | step hr hs ih =>
    obtain ⟨pairs, hpairs⟩ := ih hsteady.of_prefix
    exact hpairs.next hr hs hsteady

/-- The calls of `discover_catalog` up to and with the one that a delivery asks for. -/
theorem calls_le (hcalls : v₀.discoveries = 0) (hr : Reaches (iteration env) v₀ a out v)
    (hsteady : SteadyDiscovery env v₀ a) (hasks : AsksDiscovery env v d ev entry) :
    v.discoveries + 1 ≤ (eventPairs (a ++ [d])).card := by
  obtain ⟨pairs, hpairs⟩ := exists_charged hcalls hr hsteady
  obtain ⟨c, hc⟩ := hasks.exists_column
  rw [← hpairs.card, ← Finset.card_insert_of_notMem (hpairs.notMem hasks hc), eventPairs_append]
  refine Finset.card_le_card (Finset.insert_subset ?_ ?_)
  · exact Finset.mem_union_right _ (hasks.mem_eventPairs hc)
  · exact hpairs.events.trans Finset.subset_union_left

/-! ### Answers that stay the same -/

theorem rediscover_table {calls : ℕ} {s table : String}
    (htable : ∀ n t e rest, env.discover n t = .ok (e :: rest) → e.table = t)
    (h : rediscover env calls s table = .ok new) : new.entry.table = table := by
  obtain ⟨found, rest, newColumns, hdiscover, -, rfl⟩ := rediscover_eq_ok_iff.mp h
  have hfound : found.table = table := htable _ _ _ _ hdiscover
  exact hfound

/-- The entry of a stream keeps its table name when every discovery finds the table it asks for. -/
theorem reaches_table (htable : ∀ n t e rest, env.discover n t = .ok (e :: rest) → e.table = t)
    (hr : Reaches (iteration env) v₀ a out v) {s : String} {e e₀ : StreamsMapEntry}
    (he : v.streamsMap.get? s = some e) (he₀ : v₀.streamsMap.get? s = some e₀) :
    e.catalogEntry.table = e₀.catalogEntry.table := by
  induction hr generalizing e with
  | start => rw [Option.some.inj (he.symm.trans he₀)]
  | step hr hs ih =>
    rcases iteration_map hs with hmap | ⟨t, entry, new, hreplaces, hmap⟩
    · exact ih (hmap ▸ he)
    · rw [hmap] at he
      by_cases hts : t = s
      · subst hts
        rw [Dict.get?_set_self, Option.some.injEq] at he
        obtain ⟨⟨-, ev, entry', -, rfl, hfound, -, -, -, hre⟩, -⟩ := hreplaces
        rw [← he, rediscover_table htable hre]
        exact ih hfound
      · rw [Dict.get?_set_ne _ _ hts] at he
        exact ih he

/-- Discoveries whose answer for a table never changes, and is about that table, are steady. -/
theorem steady_of_fixed (hfix : DiscoveryFixed env)
    (htable : ∀ n t e rest, env.discover n t = .ok (e :: rest) → e.table = t) :
    SteadyDiscovery env v₀ ds := by
  have hpassed : ∀ s new, Passed (iteration env) v₀ (fun v d => Rediscovers env v d s new) ds →
      ∃ e₀, v₀.streamsMap.get? s = some e₀ ∧
        rediscover env 0 s e₀.catalogEntry.table = .ok new := by
    rintro s new ⟨a, d, b, out, v, -, hr, -, ev, entry, -, -, hfound, -, -, -, hre⟩
    have hkeys : s ∈ v₀.streamsMap.keys := by
      rw [← (reaches_progress hr).keys]
      exact Dict.mem_keys_iff.mpr ⟨entry, hfound⟩
    obtain ⟨e₀, he₀⟩ := Dict.mem_keys_iff.mp hkeys
    rw [rediscover_fixed hfix, reaches_table htable hr hfound he₀] at hre
    exact ⟨e₀, he₀, hre⟩
  intro s new new' hnew hnew'
  obtain ⟨e₀, he₀, hre⟩ := hpassed s new hnew
  obtain ⟨e₁, he₁, hre'⟩ := hpassed s new' hnew'
  obtain rfl := Option.some.inj (he₀.symm.trans he₁)
  exact Except.ok.inj (hre.symm.trans hre')

end Run

/-! ### Runs -/

/-- After every row event of a stream of the map its columns are settled. -/
def ColumnsSettled (env : Env) (v₀ : Vars) (ds : List Delivery) : Prop :=
  ∀ a d b out v em v' ev, ds = a ++ d :: b → Reaches (iteration env) v₀ a out v →
    iteration env v d = .next em v' → d.event = .rows ev →
    v₀.streamsMap.contains ev.tapStreamId = true → Settled v' ev

def DiscoveriesKeepColumns (env : Env) (v₀ : Vars) (ds : List Delivery) : Prop :=
  ∀ a d b out v em v' ev, ds = a ++ d :: b → Reaches (iteration env) v₀ a out v →
    iteration env v d = .next em v' → d.event = .rows ev → KeepsColumns env v d ev

/-- At every loop head, and also with the call that the next delivery asks for, there were at most
as many calls of `discover_catalog` as pairs in the events. -/
def CallsBounded (env : Env) (v₀ : Vars) (ds : List Delivery) : Prop :=
  ∀ a out v, a <+: ds → Reaches (iteration env) v₀ a out v →
    v.discoveries ≤ (eventPairs a).card ∧
    ∀ d ev entry, a ++ [d] <+: ds → AsksDiscovery env v d ev entry →
      v.discoveries + 1 ≤ (eventPairs (a ++ [d])).card

/-- The columns of every row event are settled after it exactly when no discovery that changes
the schema drops a column of its event that was known; and when the discoveries for a stream
answer the same, there are at most as many as pairs of a stream and a column name. -/
theorem columns_settled_iff (env : Env) (m : StreamsMap) (st : State) (auto : Option String)
    (ds : List Delivery) :
    (ColumnsSettled env (initialVars m st auto) ds ↔
      DiscoveriesKeepColumns env (initialVars m st auto) ds) ∧
    (SteadyDiscovery env (initialVars m st auto) ds →
      CallsBounded env (initialVars m st auto) ds) := by
  refine ⟨⟨fun h a d b out v em v' ev hds hr hs hd => ?_,
    fun h a d b out v em v' ev hds hr hs hd hin => ?_⟩, fun hsteady a out v ha hr => ⟨?_, ?_⟩⟩
  · cases hfound : v.streamsMap.get? ev.tapStreamId with
    | none =>
      intro entry new hreplaces
      exact absurd (hfound.symm.trans hreplaces.2.1) (by simp)
    | some entry =>
      have hin : (initialVars m st auto).streamsMap.contains ev.tapStreamId = true := by
        rw [← Dict.contains_of_keys_eq (reaches_progress hr).keys, Dict.contains, hfound]
        rfl
      exact (settled_iff hs hd hfound).mp (h a d b out v em v' ev hds hr hs hd hin)
  · rw [← Dict.contains_of_keys_eq (reaches_progress hr).keys, Dict.contains] at hin
    obtain ⟨entry, hfound⟩ := Option.isSome_iff_exists.mp hin
    exact (settled_iff hs hd hfound).mpr (h a d b out v em v' ev hds hr hs hd)
  · obtain ⟨rest, rfl⟩ := ha
    obtain ⟨pairs, hpairs⟩ := exists_charged rfl hr hsteady.of_prefix
    rw [← hpairs.card]
    exact Finset.card_le_card hpairs.events
  · intro d ev entry had hasks
    obtain ⟨rest, rfl⟩ := ha
    exact calls_le rfl hr hsteady.of_prefix hasks

/-! ### A column that a discovery loses -/

namespace Sample

/-- Table `db.t` as a discovery finds it after `id` gave way to `b`. -/
def shrunkEnv : Env where
  lib := lib
  discover _ table := .ok [{ entry with
    table := table
    schema := Dict.ofList [("b", { PropSchema.blank with
      type := some ["null", "integer"], inclusion := some .available })] }]
  endLogFile := "bin.1"
  endLogPos := 500

def insertIdB : RowsEvent where
  schema := "db"
  table := "t"
  columns := [⟨some "id", 3, none⟩, ⟨some "b", 3, none⟩]
  timestamp := 0
  change := .write [Dict.ofList [("id", .int 1), ("b", .int 2)]]

def insertIdBDelivery : Delivery := ⟨.rows insertIdB, "bin.1", 100, "", 0⟩

end Sample

theorem columns_settled_iff_insertIdB :
    (ColumnsSettled Sample.shrunkEnv (initialVars Sample.streamsMap State.empty none)
        [Sample.insertIdBDelivery] ↔
      DiscoveriesKeepColumns Sample.shrunkEnv (initialVars Sample.streamsMap State.empty none)
        [Sample.insertIdBDelivery]) ∧
    CallsBounded Sample.shrunkEnv (initialVars Sample.streamsMap State.empty none)
      [Sample.insertIdBDelivery] := by
  obtain ⟨hiff, hbound⟩ := columns_settled_iff Sample.shrunkEnv Sample.streamsMap State.empty none
    [Sample.insertIdBDelivery]
  refine ⟨hiff, hbound (steady_of_fixed (fun _ _ _ => rfl) fun n t e rest h => ?_)⟩
  cases h
  rfl

/-- The event has `id` and `b`, the schema had `id`, and the discovery that `b` leads to answers a
schema without `id`: the column `id` is then neither a property nor ignored. -/
theorem known_column_lost :
    ¬ColumnsSettled Sample.shrunkEnv (initialVars Sample.streamsMap State.empty none)
      [Sample.insertIdBDelivery] := by
  intro h
  obtain ⟨em, v', hs⟩ : ∃ em v', iteration Sample.shrunkEnv
      (initialVars Sample.streamsMap State.empty none) Sample.insertIdBDelivery = .next em v' :=
    ⟨_, _, rfl⟩
  have hsettled := h [] Sample.insertIdBDelivery [] [] _ em v' Sample.insertIdB rfl .start hs rfl
    (by decide)
  cases hs
  obtain ⟨entry, hfound, hall⟩ := hsettled
  cases hfound
  rcases hall "id" (by decide) with hin | hin
  · revert hin
    decide
  · revert hin
    decide

end TapMysql.Binlog
