import TapMysql.Protocol
import TapMysql.Scheduling

/-!
# The turn of the binlog sync

The binlog sync writes a SCHEMA for each of its streams, and then rows of these, in columns that
were announced or the marker of deletes. Its STATEs change the bookmarks of its streams only, and
name none as being synced.
-/

namespace TapMysql.Binlog

open Loop (Reaches)
open Trace

/-! ### What the writes of the state keep -/

/-- Storing a position in a file with `F` for these streams keeps `I`. -/
def KeptByUpdates (streams : List String) (F : String → Prop) (I : State → Prop) : Prop :=
  ∀ m : StreamsMap, m.keys = streams → ∀ st f p gtid st', F f → I st →
    updateBookmarks st m f p gtid = .ok st' → I st'

/-- The file names that come with the delivery satisfy `F`. -/
def Delivery.NamesFiles (F : String → Prop) (d : Delivery) : Prop :=
  F d.logFile ∧ ∀ next position, d.event = .rotate next position → F next

section Keeps

variable {m : StreamsMap} {F : String → Prop} {I : State → Prop} {st st' : State}

/-- An effect of the binlog sync, whose STATEs satisfy `I`. -/
def TurnEffect (I : State → Prop) : Effect → Prop
  | .autoPosition _ => True
  | .message (.schema _ _ _ _) => True
  | .message (.record _ _ _ _) => True
  | .message (.state v) => I v
  | .message (.batch _ _ _) => False
  | .message (.activateVersion _ _) => False

/-- The state of a loop head, and the keys of its map. -/
structure HeadKeeps (m : StreamsMap) (I : State → Prop) (v : Vars) : Prop where
  keys : v.streamsMap.keys = m.keys
  state : I v.state

theorem handleEvent_keeps (env : Env) {d : Delivery} (hI : KeptByUpdates m.keys F I)
    (hd : d.NamesFiles F) {v : Vars} (hv : HeadKeeps m I v) :
    (∀ x ∈ (handleEvent env v d).1, TurnEffect I x) ∧
      ∀ v', (handleEvent env v d).2 = .ok v' → HeadKeeps m I v' := by
  constructor
  · intro x hx
    cases x with
    | autoPosition g => trivial
    | message msg =>
      obtain ⟨ev, entry, p, -, -, -, hp, hin⟩ := handleEvent_messages hx
      rcases hin with hin | hin
      · obtain ⟨e, rfl⟩ := placeColumns_emitted hp msg hin
        trivial
      · obtain ⟨record, version, rfl⟩ := handleRowsEvent_records _ _ msg hin
        trivial
  · intro v' h
    rcases handleEvent_ok (Prod.ext rfl h) with ⟨next, position, st, hev, hu, -, rfl⟩ |
      ⟨g, st, -, hu, -, rfl⟩ | ⟨ev, -, -, -, rfl⟩ | ⟨ev, -, hr, -, rfl⟩
    · exact ⟨hv.keys, hI _ hv.keys _ _ _ _ _ (hd.2 next position hev) hv.state hu⟩
    · exact ⟨hv.keys, hI _ hv.keys _ _ _ _ _ hd.1 hv.state hu⟩
    · exact ⟨hv.keys, hv.state⟩
    · have hp := placeColumns_keeps hr.places hr.found
      have hstate : hr.after.state = v.state := hp.state
      exact ⟨hp.keys.trans hv.keys, hstate ▸ hv.state⟩

theorem iteration_keeps (env : Env) {d : Delivery} (hI : KeptByUpdates m.keys F I)
    (hd : d.NamesFiles F) {v v' : Vars} {em : List Effect} (hv : HeadKeeps m I v)
    (hs : iteration env v d = .next em v') : HeadKeeps m I v' ∧ ∀ x ∈ em, TurnEffect I x := by
  have hv' : HeadKeeps m I (takePosition v d) := ⟨hv.keys, hv.state⟩
  obtain ⟨-, em₁, v₁, he, hrest⟩ := iteration_next hs
  have hevent := handleEvent_keeps env hI hd hv'
  rw [he] at hevent
  obtain ⟨hem, hafter⟩ := hevent
  have hv₁ := hafter v₁ rfl
  rcases hrest with ⟨-, rfl, rfl⟩ | ⟨-, st, hu, rfl, rfl⟩
  · exact ⟨hv₁, hem⟩
  · have hst : I st := hI _ hv₁.keys _ _ _ _ _ hd.1 hv₁.state hu
    exact ⟨⟨hv₁.keys, hst⟩, List.forall_mem_append.mpr ⟨hem, by simpa [TurnEffect] using hst⟩⟩

theorem reaches_keeps {env : Env} (hI : KeptByUpdates m.keys F I) {v₀ v : Vars}
    {ds : List Delivery} {out : List Effect} (hr : Reaches (iteration env) v₀ ds out v)
    (hds : ∀ d ∈ ds, d.NamesFiles F) (hv₀ : HeadKeeps m I v₀) : HeadKeeps m I v :=
  hr.invariant_on (fun _ _ _ _ hd hv hs => (iteration_keeps env hI hd hv hs).1) hds hv₀

/-- The state that a loop end leaves, when it leaves one. -/
def LoopEnd.Keeps (m : StreamsMap) (I : State → Prop) : LoopEnd → Prop
  | .broke v => HeadKeeps m I v
  | .exhausted v => HeadKeeps m I v
  | .raised _ => True

theorem run_keeps (env : Env) (hI : KeptByUpdates m.keys F I) {v : Vars} (hv : HeadKeeps m I v)
    (failure : Option Err) {ds : List Delivery} (hds : ∀ d ∈ ds, d.NamesFiles F) :
    (Loop.run (iteration env) (readerEnd failure) ds v).2.Keeps m I ∧
      ∀ x ∈ (Loop.run (iteration env) (readerEnd failure) ds v).1, TurnEffect I x := by
  refine Loop.run_invariant_on (I := HeadKeeps m I)
    (fun v d em v' hd hv hs => iteration_keeps env hI hd hv hs) ?_ ?_ hds hv
  · intro v d em t hd hv hs
    have hv' : HeadKeeps m I (takePosition v d) := ⟨hv.keys, hv.state⟩
    rcases iteration_halt hs with ⟨-, rfl, rfl⟩ | ⟨-, rfl, e, rfl⟩
    · exact ⟨⟨hv.keys, hv.state⟩, by simp⟩
    · exact ⟨trivial, (handleEvent_keeps env hI hd hv').1⟩
  · intro v hv
    cases failure with
    | none => exact ⟨hv, by simp [readerEnd]⟩
    | some e => exact ⟨trivial, by simp [readerEnd]⟩

/-- The position after the loop is in a file with a name. -/
theorem finish_keeps {env : Env} (hI : KeptByUpdates m.keys F I) (hF : ∀ f, f ≠ "" → F f)
    {v : Vars} (hv : HeadKeeps m I v) (h : finish env v = .ok st') : I st' := by
  unfold finish at h
  split at h
  · cases h
    exact hv.state
  · rename_i f p hpos
    have hf : f ≠ "" := by
      unfold positionOf at hpos
      split at hpos
      · split_ifs at hpos with hempty
        · obtain ⟨rfl, rfl⟩ := Prod.mk.inj (Option.some.inj hpos)
          exact fun hf => hempty (.inl hf)
      · cases hpos
    exact hI _ hv.keys _ _ _ _ _ (hF f hf) hv.state h

theorem prepareRun_eq {S : BinlogSource} {config : BinlogConfig} {r : PreparedRun}
    (h : prepareRun S config m st = .ok r) :
    r.state = whitelistStreams m st ∧ r.env.discover = S.discover ∧
      ∃ reader, r.deliveries = (S.read reader).1 := by
  unfold prepareRun at h
  split at h
  · cases h
  · dsimp only at h
    split at h
    · cases h
    · split at h
      · cases h
      · split at h
        · cases h
        · cases h
          exact ⟨rfl, rfl, _, rfl⟩

/-- The file names that a reader shows satisfy `F`. -/
def BinlogSource.NamesFiles (F : String → Prop) (S : BinlogSource) : Prop :=
  ∀ reader, ∀ d ∈ (S.read reader).1, d.NamesFiles F

theorem syncBinlogStream_keeps {S : BinlogSource} (hI : KeptByUpdates m.keys F I)
    (hF : ∀ f, f ≠ "" → F f) (hS : S.NamesFiles F) (config : BinlogConfig)
    (hst : I (whitelistStreams m st)) :
    (∀ x ∈ (syncBinlogStream S config m st).1, TurnEffect I x) ∧
      ∀ st', (syncBinlogStream S config m st).2 = .ok st' → I st' := by
  unfold syncBinlogStream
  cases hr : prepareRun S config m st with
  | error e => exact ⟨by simp, by simp⟩
  | ok r =>
    obtain ⟨hstate, -, reader, hdeliveries⟩ := prepareRun_eq hr
    have hprep : I r.state := hstate ▸ hst
    have hrun := run_keeps r.env hI (v := r.variables m) ⟨rfl, hprep⟩ r.failure
      (hdeliveries ▸ hS reader)
    dsimp only
    unfold runBinlogSync
    dsimp only
    have hresult : ∀ st', resultOf r.env (Loop.run (iteration r.env) (readerEnd r.failure)
        r.deliveries (initialVars m r.state r.autoPosition)).2 = .ok st' → I st' := by
      intro st' h
      unfold resultOf at h
      have hend := hrun.1
      unfold PreparedRun.variables at hend
      split at h
      · rename_i v hv
        rw [hv] at hend
        exact finish_keeps hI hF hend h
      · rename_i v hv
        rw [hv] at hend
        exact finish_keeps hI hF hend h
      · cases h
    split
    · exact ⟨hrun.2, by simp⟩
    · rename_i st' hok
      refine ⟨List.forall_mem_append.mpr ⟨hrun.2, ?_⟩, ?_⟩
      · simpa [TurnEffect] using hresult st' hok
      · intro st'' h
        cases h
        exact hresult st' hok

end Keeps

/-! ### What does not look at the bookmarks of the streams -/

section Ignores

variable {m : StreamsMap} {streams : List String} {I : State → Prop} {st : State}

/-- What is done to the bookmarks of these streams keeps `I`. -/
def IgnoresAll (streams : List String) (I : State → Prop) : Prop := ∀ s ∈ streams, Ignores s I

theorem bookmarkPosition_keeps {s : String} (hI : Ignores s I) (hst : I st) (f : String) (p : ℕ)
    (gtid : Option String) : I (bookmarkPosition f p gtid st s) := by
  have hpos := hI.write (hI.write hst "log_file" (.str f)) "log_pos" (.int p)
  unfold bookmarkPosition
  cases gtid with
  | none => exact hpos
  | some g =>
    dsimp only
    split_ifs
    · exact hpos
    · exact hI.write hpos _ _

theorem IgnoresAll.keptByUpdates (hI : IgnoresAll streams I) :
    KeptByUpdates streams (fun _ => True) I := by
  rintro m rfl st f p gtid st' - hst h
  unfold updateBookmarks at h
  split at h
  · cases h
  · cases h
    exact List.foldlRecOn m.keys _ hst fun _ hst' s hs =>
      bookmarkPosition_keeps (hI s hs) hst' f p gtid

theorem IgnoresAll.whitelist (hI : IgnoresAll m.keys I) (hst : I st) :
    I (whitelistStreams m st) :=
  List.foldlRecOn m.keys _ hst fun _ hst' s hs => (hI s hs).whitelist hst' _

end Ignores

/-! ### The rows it writes -/

section Rows

variable {env : Env} {catalog : List CatalogEntry} {v₀ v : Vars} {ds : List Delivery}
  {out pre : List Effect} {d : Delivery} {ev : RowsEvent} {entry : StreamsMapEntry} {p : Placed}

/-- A row comes after a SCHEMA of its stream that has its columns, the marker apart. -/
def FitsMarked (before : List Effect) : Effect → Prop
  | .message (.record s row _ _) => ∃ schema, schemaInForce s before = some schema ∧
      ∀ k ∈ row.keys, k ∈ schema.keys ∨ k = sdcDeletedAt
  | _ => True

theorem schemaInForce_append_of_some {s : String} {schema : Schema}
    (h : schemaInForce s out = some schema) : schemaInForce s (pre ++ out) = some schema := by
  rw [schemaInForce] at h ⊢
  rw [List.filterMap_append, List.getLast?_append, h]
  rfl

/-- The schema that a placed event is written under has the columns of its entry. -/
theorem announced_placed (hcat : Resolved catalog) (hinv : Announced env catalog v₀ ds out v)
    (h : PlacedRows env v d ev entry p) :
    ∃ schema, schemaInForce ev.tapStreamId
        (schemasOf catalog ++ out ++ p.emitted.map .message) = some schema ∧
      ∀ k ∈ p.entry.catalogEntry.schema.keys, k ∈ schema.keys ∨ k = sdcDeletedAt := by
  rcases inForce_placed hinv h with ⟨-, hforce⟩ | ⟨-, hforce, hget⟩
  · exact ⟨_, hforce, fun k hk => .inl hk⟩
  · rw [streamsMap_lastEntry, Option.map_eq_some_iff] at hget
    obtain ⟨e, he, hentry⟩ := hget
    rw [schemaInForce_schemasOf hcat, he, Option.map_some] at hforce
    refine ⟨e.schema, hforce, fun k hk => ?_⟩
    rw [← hentry] at hk
    exact (Dict.mem_keys_set.mp hk).symm

theorem placed_stream (hinv : Announced env catalog v₀ ds out v)
    (h : PlacedRows env v d ev entry p) : p.entry.catalogEntry.stream = ev.tapStreamId := by
  rcases h.entry_cases with ⟨hentry, -⟩ | ⟨new, hreplaces, hentry, -⟩
  · rw [hentry]
    exact hinv.stream _ _ h.found
  · rw [hentry]
    exact hreplaces.stream

/-- A row belongs to a stream of the catalog. -/
theorem emitted_stream (hcat : Resolved catalog) (hv₀ : v₀.streamsMap = generateStreamsMap catalog)
    (hr : Reaches (iteration env) v₀ ds out v) {s : String} {row : Record} {version : Val}
    {time : String}
    (hx : .message (.record s row version time) ∈ (iteration env v d).emitted) :
    s ∈ (generateStreamsMap catalog).keys := by
  rcases mem_emitted hx with ⟨hend, hin⟩ | ⟨st, hst⟩
  · obtain ⟨ev, entry, p, hd, hfound, hnamed, hp, hin⟩ := handleEvent_messages hin
    have hplaced : PlacedRows env v d ev entry p := ⟨hend, hd, hfound, hnamed, hp⟩
    rcases hin with hin | hin
    · obtain ⟨e, he⟩ := placeColumns_emitted hp _ hin
      cases he
    · obtain ⟨before, row', after, -, -, hrow⟩ := (mem_records hplaced).mp hin
      obtain ⟨record, hm, -, -⟩ := rowToSingerRecord_keys hrow
      obtain ⟨hstream, -⟩ := Message.record.inj hm
      have hkeys : HeadKeeps (generateStreamsMap catalog) (fun _ => True) v :=
        reaches_keeps (F := fun _ => True) (fun _ _ _ _ _ _ _ _ _ _ => trivial) hr
          (fun _ _ => ⟨trivial, fun _ _ _ => trivial⟩) ⟨by rw [hv₀], trivial⟩
      rw [hstream, placed_stream (reaches_announced hcat hv₀ hr) hplaced, ← hkeys.keys]
      exact Dict.mem_keys_iff.mpr ⟨entry, hfound⟩
  · cases hst

theorem fitsMarked_emitted (hcat : Resolved catalog) (hinv : Announced env catalog v₀ ds out v)
    (h : PlacedRows env v d ev entry p) :
    EachAfter FitsMarked (pre ++ (schemasOf catalog ++ out)) (iteration env v d).emitted := by
  obtain ⟨tail, hem, htail⟩ := h.emitted
  obtain ⟨schema, hforce, hschema⟩ := announced_placed hcat hinv h
  rw [hem, eachAfter_append]
  constructor
  · intro a x b hab
    obtain ⟨m, hm, rfl⟩ := List.mem_map.mp (show x ∈ p.emitted.map Effect.message by
      rw [hab]
      simp)
    obtain ⟨e, rfl⟩ := placeColumns_emitted h.places m hm
    trivial
  · intro a x b hab
    have hsilent : ∀ x ∈ (p.records env d ev).map Effect.message ++ tail,
        x.announced? ev.tapStreamId = none := records_silent htail ev.tapStreamId
    have hx : x ∈ (p.records env d ev).map Effect.message ++ tail := by
      rw [hab]
      simp
    rcases List.mem_append.mp hx with hx | hx
    · obtain ⟨m, hm, rfl⟩ := List.mem_map.mp hx
      obtain ⟨before, row, after, -, -, hrow⟩ := (mem_records h).mp hm
      obtain ⟨record, rfl, -, hkeys⟩ := rowToSingerRecord_keys hrow
      rw [FitsMarked, placed_stream hinv h]
      refine ⟨schema, ?_, fun k hk => hschema k (hkeys k hk)⟩
      rw [schemaInForce_append_of_silent fun y hy => hsilent y (by
        rw [hab]
        exact List.mem_append_left _ hy), List.append_assoc]
      exact schemaInForce_append_of_some hforce
    · obtain ⟨st, rfl⟩ := htail x hx
      trivial

theorem run_fitsMarked (hcat : Resolved catalog)
    (hv₀ : v₀.streamsMap = generateStreamsMap catalog) (failure : Option Err)
    (pre : List Effect) (ds : List Delivery) :
    EachAfter FitsMarked (pre ++ schemasOf catalog)
      (Loop.run (iteration env) (readerEnd failure) ds v₀).1 := by
  rw [run_eachAfter_iff]
  constructor
  · intro a d b out v _ hr
    rw [List.append_assoc]
    by_cases hplaced : ∃ ev entry p, PlacedRows env v d ev entry p
    · obtain ⟨ev, entry, p, hplaced⟩ := hplaced
      exact fitsMarked_emitted hcat (reaches_announced hcat hv₀ hr) hplaced
    · intro a' x b' hx
      cases x with
      | autoPosition g => trivial
      | message m =>
        obtain ⟨st, rfl⟩ := emitted_of_not_placed hplaced (.message m) (by rw [hx]; simp) m rfl
        trivial
  · intro out v _
    cases failure <;> exact eachAfter_nil

end Rows

/-! ### The turn -/

section Turn

variable {catalog : List CatalogEntry} {S : BinlogSource} {config : BinlogConfig}
  {st st₀ : State} {before out : List Effect}

theorem mem_generateStreamsMap_keys {s : String} :
    s ∈ (generateStreamsMap catalog).keys ↔ s ∈ idsOf catalog := by
  rw [generateStreamsMap, Dict.mem_keys_ofList, List.map_map]
  rfl

/-- The bookmarks of the streams of the catalog may change, and nothing else. -/
structure SameBut (catalog : List CatalogEntry) (st st' : State) : Prop where
  syncing : st'.currentlySyncing = st.currentlySyncing
  others : ∀ t, t ∉ idsOf catalog → st'.bookmarks.get? t = st.bookmarks.get? t

theorem ignoresAll_sameBut (catalog : List CatalogEntry) (st : State) :
    IgnoresAll (generateStreamsMap catalog).keys (SameBut catalog st) := by
  intro s hs st' h k
  have hne : ∀ t, t ∉ idsOf catalog → s ≠ t := fun t ht hst =>
    ht (hst ▸ mem_generateStreamsMap_keys.mp hs)
  exact ⟨fun v => ⟨h.syncing, fun t ht => (Dict.get?_set_ne _ _ (hne t ht)).trans (h.others t ht)⟩,
    h.syncing, fun t ht => (Dict.get?_set_ne _ _ (hne t ht)).trans (h.others t ht)⟩

/-- All that the sync does: the SCHEMAs of its streams, the run, and a last STATE. -/
theorem syncBinlogStreams_effects (S : BinlogSource) (config : BinlogConfig)
    (catalog : List CatalogEntry) (st : State) :
    (∀ x ∈ (syncBinlogStreams S config catalog st).1, TurnEffect (SameBut catalog st) x) ∧
      ∀ st', (syncBinlogStreams S config catalog st).2 = .ok st' → SameBut catalog st st' := by
  have hrefl : SameBut catalog st st := ⟨rfl, fun _ _ => rfl⟩
  unfold syncBinlogStreams
  split_ifs
  · refine ⟨by simp, fun st' h => ?_⟩
    cases h
    exact hrefl
  · have hI := ignoresAll_sameBut catalog st
    obtain ⟨heffects, hstate⟩ := syncBinlogStream_keeps hI.keptByUpdates (fun _ _ => trivial)
      (fun _ _ _ => ⟨trivial, fun _ _ _ => trivial⟩) config (hI.whitelist hrefl)
    refine ⟨List.forall_mem_append.mpr ⟨fun x hx => ?_, heffects⟩, hstate⟩
    obtain ⟨e, -, rfl⟩ := List.mem_map.mp hx
    trivial

theorem latestState_binlog (catalog : List CatalogEntry) {em : List Effect}
    (hbefore : latestState st₀ before = st)
    (h : ∀ x ∈ em, TurnEffect (SameBut catalog st) x) :
    SameBut catalog st (latestState st₀ (before ++ em)) := by
  refine latestState_forall (hbefore ▸ ⟨rfl, fun _ _ => rfl⟩) fun x hx v hv => ?_
  have hturn := h x hx
  cases x with
  | autoPosition g => cases hv
  | message m =>
    cases m with
    | state v' =>
      cases hv
      exact hturn
    | _ => cases hv

theorem fitsMarked_syncBinlogStreams (hcat : Resolved catalog) (before : List Effect) :
    EachAfter FitsMarked before (syncBinlogStreams S config catalog st).1 := by
  have hschemas : ∀ before, EachAfter FitsMarked before (schemasOf catalog) := by
    intro before a x b hab
    obtain ⟨e, -, rfl⟩ := List.mem_map.mp (show x ∈ schemasOf catalog by
      rw [hab]
      simp)
    trivial
  unfold syncBinlogStreams
  split_ifs
  · exact eachAfter_nil
  · dsimp only
    rw [eachAfter_append]
    refine ⟨hschemas before, ?_⟩
    rcases syncBinlogStream_effects S config (generateStreamsMap catalog) st with
      ⟨e, -, he⟩ | ⟨r, -, last, hrun, hlast⟩
    · rw [he]
      exact eachAfter_nil
    · rw [hrun, eachAfter_append]
      refine ⟨run_fitsMarked hcat rfl r.failure before r.deliveries, ?_⟩
      intro a x b hab
      obtain ⟨v, rfl⟩ := hlast x (by rw [hab]; simp)
      trivial

/-- The rows that the sync writes belong to its streams. -/
theorem syncBinlogStreams_stream (hcat : Resolved catalog) {s : String} {row : Record}
    {version : Val} {time : String}
    (hx : .message (.record s row version time) ∈ (syncBinlogStreams S config catalog st).1) :
    s ∈ idsOf catalog := by
  unfold syncBinlogStreams at hx
  split_ifs at hx
  · cases hx
  · rcases List.mem_append.mp hx with hx | hx
    · obtain ⟨e, -, he⟩ := List.mem_map.mp hx
      cases he
    · rcases syncBinlogStream_effects S config (generateStreamsMap catalog) st with
        ⟨e, -, he⟩ | ⟨r, -, last, hrun, hlast⟩
      · rw [he] at hx
        cases hx
      · rw [hrun] at hx
        rcases List.mem_append.mp hx with hx | hx
        · rcases Loop.mem_run hx with ⟨a, d, b, out, v, -, hreach, hin⟩ | ⟨out, v, -, hin⟩
          · exact mem_generateStreamsMap_keys.mp (emitted_stream hcat rfl hreach hin)
          · cases hf : r.failure <;> simp [hf, readerEnd] at hin
        · obtain ⟨st', hst'⟩ := hlast _ hx
          cases hst'

theorem syncBinlogStreams_inOrder (hcat : Resolved catalog)
    (hbefore : latestState st₀ before = st) (hst : st.currentlySyncing = none)
    (hst₀ : st₀.currentlySyncing = none) :
    EachAfter (InOrder .binlog) before (syncBinlogStreams S config catalog st).1 := by
  intro a x b hab
  have hall := (syncBinlogStreams_effects S config catalog st).1
  have hnone : syncingOf (before ++ a) = none := by
    rw [← currentlySyncing_latestState hst₀, (latestState_binlog catalog hbefore
      fun y hy => hall y (by
        rw [hab]
        exact List.mem_append_left _ hy)).syncing, hst]
  have hx : TurnEffect (SameBut catalog st) x := hall x (by rw [hab]; simp)
  cases x with
  | autoPosition g => exact hnone
  | message m =>
    cases m with
    | schema => exact hnone
    | record s row version time =>
      obtain ⟨schema, hforce, hkeys⟩ := fitsMarked_syncBinlogStreams hcat before a _ b hab
      exact ⟨hnone, schema, hforce, fun k hk => (hkeys k hk).imp_right fun h => ⟨hnone, h⟩⟩
    | state v => trivial
    | batch => exact hx.elim
    | activateVersion => exact hx.elim

theorem syncBinlogStreams_continues (hbefore : latestState st₀ before = st)
    (hst : st.currentlySyncing = none) :
    EachAfter (Continues (idsOf catalog) st₀) before (syncBinlogStreams S config catalog st).1 := by
  intro a x b hab
  have hall := (syncBinlogStreams_effects S config catalog st).1
  have hlatest := latestState_binlog catalog hbefore fun y hy => hall y (by
    rw [hab]
    exact List.mem_append_left _ hy)
  have hx : TurnEffect (SameBut catalog st) x := hall x (by rw [hab]; simp)
  cases x with
  | autoPosition g => trivial
  | message m =>
    cases m with
    | state v =>
      intro t _ _ hshared
      have ht := hshared (hx.syncing.trans hst)
      rw [hx.others t ht, hlatest.others t ht]
    | _ => trivial

end Turn

end TapMysql.Binlog
