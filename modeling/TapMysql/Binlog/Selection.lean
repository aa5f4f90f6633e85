import TapMysql.Binlog.Entries

/-!
# Deselected columns

A column that the input catalog marks as not selected stays out of the messages of the loop as
long as the entries of the map leave it out. The entries of the start do, unless the column is
the replication key of its stream; the entry of a discovery goes by the metadata of that
discovery, which knows nothing of the choice.
-/

namespace TapMysql.Binlog

open Loop (Reaches)

/-- The metadata of the stream marks the column `selected = false`, and it is not an automatic
column. The delete marker, which the tap adds itself, is no column of the table. -/
def Deselected (m : StreamsMap) (s c : String) : Prop :=
  c ≠ sdcDeletedAt ∧ ∃ entry, m.get? s = some entry ∧
    entry.catalogEntry.metadata.field ["properties", c] "selected" = .bool false ∧
    entry.catalogEntry.metadata.field ["properties", c] "inclusion" ≠ .str "automatic" ∧
    ∀ p, entry.catalogEntry.schema.get? c = some p → p.inclusion ≠ some .automatic

/-- A message of the loop holds no deselected column of its stream. -/
def Message.KeepsSelection (m : StreamsMap) : Message → Prop
  | .record stream record _ _ => ∀ c, Deselected m stream c → c ∉ record.keys
  | .schema stream properties _ _ => ∀ c, Deselected m stream c → c ∉ properties.keys
  | _ => True

def OutputKeepsSelection (m : StreamsMap) (out : List Effect) : Prop :=
  ∀ msg, .message msg ∈ out → Message.KeepsSelection m msg

/-- The entry of a stream leaves the deselected columns out. -/
structure StreamsMapEntry.KeepsSelection (m : StreamsMap) (s : String)
    (entry : StreamsMapEntry) : Prop where
  stream : entry.catalogEntry.stream = s
  columns : ∀ c, Deselected m s c → c ∉ entry.desiredColumns
  schema : ∀ c, Deselected m s c → c ∉ entry.catalogEntry.schema.keys

def StreamsMap.KeepsSelection (m : StreamsMap) (current : StreamsMap) : Prop :=
  ∀ s entry, current.get? s = some entry → entry.KeepsSelection m s

/-- No stream has a deselected column as its replication key. -/
def ReplicationKeysSelected (m : StreamsMap) : Prop :=
  ∀ s entry c, m.get? s = some entry → Deselected m s c →
    entry.catalogEntry.streamMetadata "replication-key" ≠ .str c

/-- No discovery of the run brings a deselected column back. -/
def DiscoveriesKeepSelection (env : Env) (m : StreamsMap) (v₀ : Vars) (ds : List Delivery) : Prop :=
  ∀ a d b out v s new, ds = a ++ d :: b → Reaches (iteration env) v₀ a out v →
    Rediscovers env v d s new → ∀ c, Deselected m s c → c ∉ new.entry.schema.keys

/-! ### The entries of the start -/

/-- A deselected column that the input still asks for is the replication key. -/
theorem inputSelection_deselected {entry : CatalogEntry} {c : String}
    (hsel : entry.metadata.field ["properties", c] "selected" = .bool false)
    (hinc : entry.metadata.field ["properties", c] "inclusion" ≠ .str "automatic")
    (h : c ∈ inputSelection entry) : entry.streamMetadata "replication-key" = .str c := by
  have hcond := (List.mem_filter.mp h).2
  have hnot : entry.propertyIsSelected c = false := by
    simp [CatalogEntry.propertyIsSelected, hsel, hinc, Val.truthy]
  simpa [hnot, eq_comm] using hcond

theorem initial_keepsSelection {discovered input streams : List CatalogEntry}
    (hres : resolveCatalog discovered input = .ok streams)
    (hrep : ReplicationKeysSelected (generateStreamsMap streams)) :
    StreamsMap.KeepsSelection (generateStreamsMap streams) (generateStreamsMap streams) := by
  intro s entry hs
  obtain ⟨e, he, hid, hentry⟩ := generateStreamsMap_get? hs
  obtain ⟨inp, -, table, columns, -, hcols, rfl⟩ := resolveCatalog_mem hres e he
  have hnot : ∀ c, Deselected (generateStreamsMap streams) s c →
      c ∉ (resolvedWith inp table columns).schema.keys := by
    intro c hc hmem
    obtain ⟨hne, entry', hs', hsel, hinc, hauto⟩ := hc
    obtain rfl : entry = entry' := by
      rw [hs] at hs'
      exact Option.some.inj hs'
    rw [hentry] at hsel hinc hauto
    obtain ⟨hkey, hin⟩ := Dict.mem_keys_filterKeys.mp hmem
    obtain ⟨p, hp, hdesired⟩ := (mem_desiredColumns hcols c).mp (by simpa using hin)
    have hget : (addAutomaticProperties (resolvedWith inp table columns)).schema.get? c =
        some p := by
      show ((table.schema.filterKeys columns.contains).set sdcDeletedAt deletedAtSchema).get? c = _
      rw [Dict.get?_set_ne _ _ (Ne.symm hne), Dict.get?_filterKeys, if_pos hin, hp]
    have hnotauto := hauto p hget
    simp only [columnIsDesired, hnotauto, decide_false, Bool.false_or, Bool.and_eq_true,
      List.contains_iff_mem] at hdesired
    have hsel' : inp.metadata.field ["properties", c] "selected" = .bool false := hsel
    have hinc' : inp.metadata.field ["properties", c] "inclusion" ≠ .str "automatic" := hinc
    have hkeyof := inputSelection_deselected hsel' hinc' hdesired.2
    subst hentry
    exact hrep s _ c hs ⟨hne, _, hs, hsel, hinc, hauto⟩ hkeyof
  refine ⟨?_, fun c hc hmem => ?_, fun c hc hmem => ?_⟩
  · rw [hentry]
    exact hid
  · rw [hentry] at hmem
    rcases List.mem_append.mp hmem with hmem | hmem
    · exact hnot c hc hmem
    · exact hc.1 (List.mem_singleton.mp hmem)
  · rw [hentry] at hmem
    rcases Dict.mem_keys_set.mp hmem with hmem | hmem
    · exact hc.1 hmem
    · exact hnot c hc hmem

/-! ### Discoveries -/

theorem Replaces.keepsSelection {env : Env} {m : StreamsMap} {v : Vars} {d : Delivery} {s : String}
    {entry : StreamsMapEntry} {new : Rediscovery} (h : Replaces env v d s entry new)
    (hschema : ∀ c, Deselected m s c → c ∉ new.entry.schema.keys) :
    (StreamsMapEntry.mk new.entry new.columns).KeepsSelection m s := by
  obtain ⟨⟨-, ev, entry', -, rfl, -, -, -, -, hre⟩, -⟩ := h
  have hinStep := rediscover_inStep hre
  exact ⟨rediscover_stream hre, fun c hc hmem => hschema c hc ((hinStep.columns c).mp hmem),
    hschema⟩

section Placed

variable {env : Env} {m : StreamsMap} {v : Vars} {d : Delivery} {ev : RowsEvent}
  {entry : StreamsMapEntry} {p : Placed}

theorem PlacedRows.keepsSelection (h : PlacedRows env v d ev entry p)
    (hv : StreamsMap.KeepsSelection m v.streamsMap)
    (hnew : ∀ new, Rediscovers env v d ev.tapStreamId new →
      ∀ c, Deselected m ev.tapStreamId c → c ∉ new.entry.schema.keys) :
    p.entry.KeepsSelection m ev.tapStreamId ∧
      ∀ msg ∈ p.emitted, Message.KeepsSelection m msg := by
  rcases h.entry_cases with ⟨hentry, hemitted⟩ | ⟨new, hreplaces, hentry, hemitted⟩
  · rw [hentry, hemitted]
    exact ⟨hv _ _ h.found, by simp⟩
  · have hschema := hnew new hreplaces.1
    rw [hentry, hemitted]
    refine ⟨hreplaces.keepsSelection hschema, ?_⟩
    intro msg hmsg
    rw [List.mem_singleton.mp hmsg]
    intro c hc
    rw [hreplaces.stream] at hc
    exact hschema c hc

theorem records_keepSelection (hp : p.entry.KeepsSelection m ev.tapStreamId) (st : State)
    (now : String) (millis : Int) :
    ∀ msg ∈ (handleRowsEvent ⟨env.lib, p.entry.catalogEntry, st, p.entry.desiredColumns, now,
      millis⟩ ev).1, Message.KeepsSelection m msg := by
  intro msg hmsg
  rw [handleRowsEvent_eq] at hmsg
  obtain ⟨record, rfl, hcols⟩ := emitRows_columns msg hmsg
  intro c hc hmem
  rw [hp.stream] at hc
  exact hp.columns c hc (hcols c hmem)

end Placed

section Run

variable {env : Env} {m : StreamsMap} {v₀ v v' : Vars} {ds a : List Delivery}
  {out em : List Effect} {d : Delivery}

theorem reaches_keepsSelection (h₀ : StreamsMap.KeepsSelection m v₀.streamsMap)
    (hdis : DiscoveriesKeepSelection env m v₀ ds) (hr : Reaches (iteration env) v₀ a out v)
    (ha : a <+: ds) : StreamsMap.KeepsSelection m v.streamsMap := by
  apply reaches_entries h₀ _ hr ha
  intro a d b out v em v' s entry new hds hr _ hreplaces
  exact hreplaces.keepsSelection (hdis a d b out v s new hds hr hreplaces.1)

theorem iteration_keepsSelection (hv : StreamsMap.KeepsSelection m v.streamsMap)
    (hnew : ∀ s new, Rediscovers env v d s new →
      ∀ c, Deselected m s c → c ∉ new.entry.schema.keys) {msg : Message}
    (hmsg : .message msg ∈ (iteration env v d).emitted) : Message.KeepsSelection m msg := by
  by_cases hplaced : ∃ ev entry p, PlacedRows env v d ev entry p
  · obtain ⟨ev, entry, p, hp⟩ := hplaced
    obtain ⟨hentry, hemitted⟩ := hp.keepsSelection hv (hnew ev.tapStreamId)
    obtain ⟨tail, hout, htail⟩ := hp.emitted
    rw [hout, List.mem_append, List.mem_append] at hmsg
    rcases hmsg with hmsg | hmsg | hmsg
    · obtain ⟨msg', hin, heq⟩ := List.mem_map.mp hmsg
      exact Effect.message.inj heq ▸ hemitted msg' hin
    · obtain ⟨msg', hin, heq⟩ := List.mem_map.mp hmsg
      exact Effect.message.inj heq ▸ records_keepSelection hentry _ _ _ msg' hin
    · obtain ⟨st, hst⟩ := htail _ hmsg
      rw [Effect.message.inj hst]
      trivial
  · obtain ⟨st, rfl⟩ := emitted_of_not_placed hplaced _ hmsg msg rfl
    trivial

theorem output_keepsSelection (h₀ : StreamsMap.KeepsSelection m v₀.streamsMap)
    (hdis : DiscoveriesKeepSelection env m v₀ ds) (failure : Option Err) :
    OutputKeepsSelection m (Loop.run (iteration env) (readerEnd failure) ds v₀).1 := by
  intro msg hmsg
  rcases Loop.mem_run hmsg with ⟨a, d, b, out, v, hds, hr, hin⟩ | ⟨out, v, -, hin⟩
  · have hv := reaches_keepsSelection h₀ hdis hr ⟨d :: b, hds.symm⟩
    exact iteration_keepsSelection hv (fun s new => hdis a d b out v s new hds hr) hin
  · have hnil : (readerEnd failure v).1 = [] := by cases failure <;> rfl
    rw [hnil] at hin
    cases hin

theorem Replaces.schema_mem_emitted {s : String} {entry : StreamsMapEntry} {new : Rediscovery}
    (h : Replaces env v d s entry new) :
    .message (schemaMessage new.entry []) ∈ (iteration env v d).emitted := by
  obtain ⟨ev, p, -, hp, -, hemitted⟩ := h.placed
  obtain ⟨tail, hout, -⟩ := hp.emitted
  rw [hout, hemitted]
  simp

/-- A clean output has clean entries behind it, as a changed schema is always written. -/
theorem reaches_keepsSelection_of_output (h₀ : StreamsMap.KeepsSelection m v₀.streamsMap)
    (hr : Reaches (iteration env) v₀ a out v) (hout : OutputKeepsSelection m out) :
    StreamsMap.KeepsSelection m v.streamsMap := by
  induction hr with
  | start => exact h₀
  | @step is out v d em v' hr hs ih =>
    have hv := ih fun msg hmsg => hout msg (List.mem_append_left _ hmsg)
    rcases iteration_map hs with hmap | ⟨s, entry, new, hreplaces, hmap⟩
    · rw [hmap]
      exact hv
    · have hwritten := hreplaces.schema_mem_emitted
      rw [hs] at hwritten
      have hschema := hout _ (List.mem_append_right _ hwritten)
      rw [hmap]
      apply EntriesSatisfy.set hv
      apply hreplaces.keepsSelection
      intro c hc
      exact hschema c (hreplaces.stream.symm ▸ hc)

theorem discoveries_of_output (h₀ : StreamsMap.KeepsSelection m v₀.streamsMap)
    {failure : Option Err}
    (hout : OutputKeepsSelection m (Loop.run (iteration env) (readerEnd failure) ds v₀).1) :
    DiscoveriesKeepSelection env m v₀ ds := by
  intro a d b out v s new hds hr hre c hc hmem
  subst hds
  have hv := reaches_keepsSelection_of_output h₀ hr fun msg hmsg =>
    hout msg (reaches_mem_run hr _ hmsg)
  obtain ⟨entry, hget⟩ : ∃ entry, v.streamsMap.get? s = some entry := by
    obtain ⟨-, ev, entry, -, -, hget, -⟩ := hre
    exact ⟨entry, hget⟩
  -- the schema changes, as the entry it replaces does not have the column
  have hsame : new.entry.schema.sameItems entry.catalogEntry.schema = false := by
    by_contra hsame
    rw [Bool.not_eq_false, Dict.sameItems_iff] at hsame
    obtain ⟨prop, hprop⟩ := Dict.mem_keys_iff.mp hmem
    exact (hv _ _ hget).schema c hc (Dict.mem_keys_iff.mpr ⟨prop, (hsame c).symm.trans hprop⟩)
  have hreplaces : Replaces env v d s entry new := ⟨hre, hget, hsame⟩
  exact hout _ (Loop.emitted_mem_run hr hreplaces.schema_mem_emitted) c
    (hreplaces.stream.symm ▸ hc) hmem

end Run

/-! ### Two runs -/

/-- The rows differ only in the values of deselected columns. -/
def SameRow (m : StreamsMap) (s : String) (row row' : Record) : Prop :=
  List.Forall₂ (fun e e' => e.1 = e'.1 ∧ (e.2 = e'.2 ∨ Deselected m s e.1)) row.entries row'.entries

inductive SameChange (m : StreamsMap) (s : String) : Change → Change → Prop
  | write {rows rows'} : List.Forall₂ (SameRow m s) rows rows' →
      SameChange m s (.write rows) (.write rows')
  | update {rows rows'} :
      List.Forall₂ (fun p p' => SameRow m s p.1 p'.1 ∧ SameRow m s p.2 p'.2) rows rows' →
      SameChange m s (.update rows) (.update rows')
  | delete {rows rows'} : List.Forall₂ (SameRow m s) rows rows' →
      SameChange m s (.delete rows) (.delete rows')
  | other : SameChange m s .other .other

/-- The events are the same up to the values of deselected columns. -/
inductive SameEvent (m : StreamsMap) : Event → Event → Prop
  | same (e : Event) : SameEvent m e e
  | rows {ev : RowsEvent} {change : Change} : SameChange m ev.tapStreamId ev.change change →
      SameEvent m (.rows ev) (.rows { ev with change := change })

def SameDelivery (m : StreamsMap) (d d' : Delivery) : Prop :=
  ∃ event, SameEvent m d.event event ∧ d' = { d with event := event }

section SameRows

variable {m : StreamsMap} {s : String}

theorem SameRow.filterKeys {row row' : Record} (h : SameRow m s row row') {p : String → Bool}
    (hp : ∀ c, Deselected m s c → p c = false) : row.filterKeys p = row'.filterKeys p := by
  apply Dict.ext
  show row.entries.filter _ = row'.entries.filter _
  rw [SameRow] at h
  generalize row.entries = l at h ⊢
  generalize row'.entries = l' at h ⊢
  induction h with
  | nil => rfl
  | @cons e e' _ _ he _ ih =>
    obtain ⟨k, x⟩ := e
    obtain ⟨k', x'⟩ := e'
    obtain ⟨rfl, rfl | hdes⟩ := he
    · simp [List.filter_cons, ih]
    · simp [hp k hdes, ih]

theorem SameRow.set {row row' : Record} (h : SameRow m s row row') (k : String) (x : Val) :
    SameRow m s (row.set k x) (row'.set k x) := by
  show List.Forall₂ _ (Dict.assocSet k x row.entries) (Dict.assocSet k x row'.entries)
  rw [SameRow] at h
  generalize row.entries = l at h ⊢
  generalize row'.entries = l' at h ⊢
  induction h with
  | nil => exact .cons ⟨rfl, Or.inl rfl⟩ .nil
  | @cons e e' _ _ he hrest ih =>
    obtain ⟨k₁, x₁⟩ := e
    obtain ⟨k₂, x₂⟩ := e'
    obtain ⟨rfl, hx⟩ := he
    by_cases hk : k₁ = k
    · simp only [Dict.assocSet, hk, if_true]
      exact .cons ⟨rfl, Or.inl rfl⟩ hrest
    · simp only [Dict.assocSet, hk, if_false]
      exact .cons ⟨rfl, hx⟩ ih

theorem emitRows_same {lib : RenderLib} {entry : CatalogEntry} {version : Val}
    {dbColumns : List DbColumn} {columns : List String} {time : String}
    {images images' : List Record}
    (h : List.Forall₂ (SameRow m s) images images') (hcols : ∀ c, Deselected m s c → c ∉ columns) :
    emitRows lib entry version dbColumns columns time images =
      emitRows lib entry version dbColumns columns time images' := by
  induction h with
  | nil => rfl
  | @cons row row' _ _ hrow _ ih =>
    have hfilter : row.filterKeys columns.contains = row'.filterKeys columns.contains :=
      hrow.filterKeys fun c hc => by simpa using hcols c hc
    simp only [emitRows, hfilter, ih]

theorem SameChange.images {ev : RowsEvent} {change : Change} (h : SameChange m s ev.change change) :
    List.Forall₂ (SameRow m s) ev.images ({ ev with change := change } : RowsEvent).images := by
  rw [RowsEvent.images]
  generalize ev.change = c at h
  cases h with
  | write h => exact h
  | update h => exact List.rel_map (fun _ _ hp => hp.2) h
  | delete h => exact List.rel_map (fun _ _ hp => hp.set _ _) h
  | other => exact .nil

theorem SameChange.rowCount {c c' : Change} (h : SameChange m s c c') :
    c.rowCount = c'.rowCount := by
  cases h with
  | write h => exact h.length_eq
  | update h => exact h.length_eq
  | delete h => exact h.length_eq
  | other => rfl

end SameRows

theorem handleRowsEvent_same {m : StreamsMap} {a : HandlerArgs} {ev : RowsEvent} {change : Change}
    (h : SameChange m ev.tapStreamId ev.change change)
    (hcols : ∀ c, Deselected m ev.tapStreamId c → c ∉ a.columns) :
    handleRowsEvent a { ev with change := change } = handleRowsEvent a ev := by
  rw [handleRowsEvent_eq, handleRowsEvent_eq]
  exact (emitRows_same h.images hcols).symm

theorem handleEventOfRows_same {env : Env} {m : StreamsMap} {v : Vars} {d d' : Delivery}
    {ev : RowsEvent} {change : Change} (h : SameChange m ev.tapStreamId ev.change change)
    (hd : d'.logFile = d.logFile ∧ d'.logPos = d.logPos ∧ d'.now = d.now ∧ d'.millis = d.millis)
    (hplaced : ∀ entry p, v.streamsMap.get? ev.tapStreamId = some entry →
      unnamedColumns ev = [] → placeColumns env v ev.tapStreamId entry ev = .ok p →
      p.entry.KeepsSelection m ev.tapStreamId) :
    handleEventOfRows env v d' { ev with change := change } = handleEventOfRows env v d ev := by
  obtain ⟨hf, hp, hn, hm⟩ := hd
  have hid : ({ ev with change := change } : RowsEvent).tapStreamId = ev.tapStreamId := rfl
  unfold handleEventOfRows
  rw [hid, hf, hp, hn, hm]
  cases hs : v.streamsMap.get? ev.tapStreamId with
  | none => rfl
  | some entry =>
    have hverify : verifyEventColumnNames { ev with change := change } ev.tapStreamId d.logFile
        d.logPos = verifyEventColumnNames ev ev.tapStreamId d.logFile d.logPos := rfl
    have hplace : placeColumns env v ev.tapStreamId entry { ev with change := change } =
        placeColumns env v ev.tapStreamId entry ev := rfl
    simp only [hverify, hplace]
    cases hv : verifyEventColumnNames ev ev.tapStreamId d.logFile d.logPos with
    | error e => rfl
    | ok _ =>
      cases hpl : placeColumns env v ev.tapStreamId entry ev with
      | error e => rfl
      | ok p =>
        have hkeep := hplaced entry p hs (unnamedColumns_of_verify hv) hpl
        simp only [h.rowCount]
        rw [handleRowsEvent_same h hkeep.columns]

theorem handleEvent_same {env : Env} {m : StreamsMap} {v : Vars} {d d' : Delivery}
    (h : SameDelivery m d d')
    (hplaced : ∀ ev entry p, d.event = .rows ev → v.streamsMap.get? ev.tapStreamId = some entry →
      unnamedColumns ev = [] → placeColumns env v ev.tapStreamId entry ev = .ok p →
      p.entry.KeepsSelection m ev.tapStreamId) : handleEvent env v d' = handleEvent env v d := by
  obtain ⟨event, hsame, rfl⟩ := h
  generalize hd : d.event = event₀ at hsame
  cases hsame with
  | same =>
    rw [← hd]
  | @rows ev change hc =>
    have hrows : handleEventOfRows env v { d with event := .rows { ev with change := change } }
        { ev with change := change } = handleEventOfRows env v d ev :=
      handleEventOfRows_same hc ⟨rfl, rfl, rfl, rfl⟩ fun entry p hs hn hp =>
        hplaced ev entry p hd hs hn hp
    simp only [handleEvent, hd, hrows]

theorem iteration_same {env : Env} {m : StreamsMap} {v : Vars} {d d' : Delivery}
    (h : SameDelivery m d d')
    (hplaced : reachedEnd env d = false → ∀ ev entry p, d.event = .rows ev →
      v.streamsMap.get? ev.tapStreamId = some entry → unnamedColumns ev = [] →
      placeColumns env (takePosition v d) ev.tapStreamId entry ev = .ok p →
      p.entry.KeepsSelection m ev.tapStreamId) : iteration env v d' = iteration env v d := by
  have hevent : reachedEnd env d = false →
      handleEvent env (takePosition v d) d' = handleEvent env (takePosition v d) d := fun hend =>
    handleEvent_same h fun ev entry p hd hs hn hp => hplaced hend ev entry p hd hs hn hp
  obtain ⟨event, -, rfl⟩ := h
  cases hend : reachedEnd env d with
  | true =>
    have hend' : reachedEnd env { d with event := event } = true := hend
    simp [iteration, hend, hend']
  | false =>
    have hend' : reachedEnd env { d with event := event } = false := hend
    have htake : takePosition v { d with event := event } = takePosition v d := rfl
    unfold iteration
    rw [hend, hend', htake, hevent hend]

/-- Runs whose events differ only in the values of deselected columns are the same run. -/
theorem run_same {env : Env} {m : StreamsMap} {v₀ : Vars} {ds ds' : List Delivery}
    (h₀ : StreamsMap.KeepsSelection m v₀.streamsMap)
    (hdis : DiscoveriesKeepSelection env m v₀ ds) (failure : Option Err)
    (h : List.Forall₂ (SameDelivery m) ds ds') :
    Loop.run (iteration env) (readerEnd failure) ds v₀ =
      Loop.run (iteration env) (readerEnd failure) ds' v₀ := by
  suffices hstep : ∀ a d b out v v' d', ds = a ++ d :: b → Reaches (iteration env) v₀ a out v →
      v = v' → SameDelivery m d d' →
      (∃ em t, iteration env v d = .halt em t ∧ iteration env v' d' = .halt em t) ∨
      (∃ em u u', iteration env v d = .next em u ∧ iteration env v' d' = .next em u' ∧
        u = u') from
    Loop.run_congr hstep (fun _ _ hs => by rw [hs]) h (List.nil_append ds).symm .start rfl
  rintro a d b out v _ d' hds hr rfl hd
  have hsame : iteration env v d' = iteration env v d := by
    refine iteration_same hd fun hend ev entry p hev hs hn hp => ?_
    have hv := reaches_keepsSelection h₀ hdis hr ⟨d :: b, hds.symm⟩
    exact (PlacedRows.keepsSelection ⟨hend, hev, hs, hn, hp⟩ hv (hdis a d b out v _ · hds hr)).1
  rw [hsame]
  cases iteration env v d with
  | next em u => exact Or.inr ⟨em, u, u, rfl, rfl, rfl⟩
  | halt em t => exact Or.inl ⟨em, t, rfl, rfl⟩

/-! ### Whole runs -/

section Whole

variable {env : Env} {discovered input streams : List CatalogEntry} {st₀ : State}
  {gtid : Option String} {ds : List Delivery} {failure : Option Err}

/-- With the replication keys selected, deselected columns stay out of the output exactly when
no discovery of the run brings one back; and then their values do not matter either. -/
theorem deselected_columns_stay_out (hres : resolveCatalog discovered input = .ok streams)
    (hrep : ReplicationKeysSelected (generateStreamsMap streams)) :
    (OutputKeepsSelection (generateStreamsMap streams)
        (runBinlogSync env (generateStreamsMap streams) st₀ gtid ds failure).1 ↔
      DiscoveriesKeepSelection env (generateStreamsMap streams)
        (initialVars (generateStreamsMap streams) st₀ gtid) ds) ∧
    (DiscoveriesKeepSelection env (generateStreamsMap streams)
        (initialVars (generateStreamsMap streams) st₀ gtid) ds →
      ∀ ds', List.Forall₂ (SameDelivery (generateStreamsMap streams)) ds ds' →
        runBinlogSync env (generateStreamsMap streams) st₀ gtid ds' failure =
          runBinlogSync env (generateStreamsMap streams) st₀ gtid ds failure) := by
  have h₀ := initial_keepsSelection hres hrep
  refine ⟨⟨fun hout => ?_, fun hdis => ?_⟩, fun hdis ds' hsame => ?_⟩
  · exact discoveries_of_output h₀ hout
  · exact output_keepsSelection h₀ hdis failure
  · unfold runBinlogSync
    rw [run_same h₀ hdis failure hsame]

end Whole

/-! ### A deselected column in an event -/

namespace Sample

def secretSchema : PropSchema :=
  { PropSchema.blank with type := some ["null", "string"], inclusion := some .available }

/-- Table `db.t` with a second column, as discovery finds it. -/
def discoveredTable : CatalogEntry where
  tapStreamId := "db-t"
  stream := "t"
  table := "t"
  metadata := Dict.ofList
    [([], Dict.ofList [("database-name", .str "db"), ("table-key-properties", .list [.str "id"])]),
    (["properties", "id"], Dict.ofList [("selected-by-default", .bool true),
      ("datatype", .str "int"), ("inclusion", .str "automatic")]),
    (["properties", "secret"], Dict.ofList [("selected-by-default", .bool true),
      ("datatype", .str "varchar"), ("inclusion", .str "available")])]
  schema := Dict.ofList [("id", idSchema), ("secret", secretSchema)]

/-- The input catalog deselects `secret`. -/
def secretEntry : CatalogEntry :=
  { discoveredTable with
    metadata := Dict.ofList
      [([], Dict.ofList [("selected", .bool true), ("replication-method", .str "LOG_BASED"),
        ("database-name", .str "db"), ("table-key-properties", .list [.str "id"])]),
      (["properties", "id"], Dict.ofList [("selected-by-default", .bool true),
        ("datatype", .str "int"), ("inclusion", .str "automatic")]),
      (["properties", "secret"], Dict.ofList [("selected-by-default", .bool true),
        ("datatype", .str "varchar"), ("inclusion", .str "available"),
        ("selected", .bool false)])] }

def secretStreams : List CatalogEntry := [resolvedWith secretEntry discoveredTable ["id"]]

def secretEnv : Env := { env "bin.1" 500 with discover := fun _ _ => .ok [discoveredTable] }

def secretInsert : Delivery where
  event := .rows
    { schema := "db"
      table := "t"
      columns := [⟨some "id", 3, none⟩, ⟨some "secret", 15, none⟩]
      timestamp := 0
      change := .write [Dict.ofList [("id", .int 1), ("secret", .str "s")]] }
  logFile := "bin.1"
  logPos := 120
  now := ""
  millis := 0

theorem secret_deselected : Deselected (generateStreamsMap secretStreams) "db-t" "secret" := by
  refine ⟨by decide, ⟨addAutomaticProperties (resolvedWith secretEntry discoveredTable ["id"]),
    ["id", sdcDeletedAt]⟩, by decide, by decide, by decide, fun p hp => ?_⟩
  have hnone : (addAutomaticProperties
      (resolvedWith secretEntry discoveredTable ["id"])).schema.get? "secret" = none := by decide
  rw [hnone] at hp
  cases hp

theorem secret_replicationKeys : ReplicationKeysSelected (generateStreamsMap secretStreams) := by
  intro s entry c hs _
  obtain ⟨e, he, -, rfl⟩ := generateStreamsMap_get? hs
  rw [secretStreams, List.mem_singleton] at he
  subst he
  have hnull : (addAutomaticProperties (resolvedWith secretEntry discoveredTable
      ["id"])).streamMetadata "replication-key" = .null := by decide
  rw [hnull]
  simp

end Sample

/-- The event's column leads to a discovery, and the discovered entry writes it. -/
theorem deselected_column_written :
    resolveCatalog [Sample.discoveredTable] [Sample.secretEntry] = .ok Sample.secretStreams ∧
    ¬ OutputKeepsSelection (generateStreamsMap Sample.secretStreams)
      (runBinlogSync Sample.secretEnv (generateStreamsMap Sample.secretStreams) State.empty none
        [Sample.secretInsert] none).1 := by
  have hres : resolveCatalog [Sample.discoveredTable] [Sample.secretEntry] =
      .ok Sample.secretStreams := rfl
  refine ⟨hres, fun hout => ?_⟩
  have h₀ : StreamsMap.KeepsSelection (generateStreamsMap Sample.secretStreams)
      (generateStreamsMap Sample.secretStreams) :=
    initial_keepsSelection hres Sample.secret_replicationKeys
  have hdis := discoveries_of_output h₀ hout
  refine hdis [] Sample.secretInsert [] [] _ "db-t" _ rfl .start
    ⟨by decide, _, _, rfl, rfl, rfl, by decide, by decide, by decide, rfl⟩ "secret"
    Sample.secret_deselected (by decide)

theorem deselected_columns_stay_out_secret :
    (OutputKeepsSelection (generateStreamsMap Sample.secretStreams)
        (runBinlogSync Sample.secretEnv (generateStreamsMap Sample.secretStreams) State.empty none
          [Sample.secretInsert] none).1 ↔
      DiscoveriesKeepSelection Sample.secretEnv (generateStreamsMap Sample.secretStreams)
        (initialVars (generateStreamsMap Sample.secretStreams) State.empty none)
        [Sample.secretInsert]) ∧
    (DiscoveriesKeepSelection Sample.secretEnv (generateStreamsMap Sample.secretStreams)
        (initialVars (generateStreamsMap Sample.secretStreams) State.empty none)
        [Sample.secretInsert] →
      ∀ ds', List.Forall₂ (SameDelivery (generateStreamsMap Sample.secretStreams))
          [Sample.secretInsert] ds' →
        runBinlogSync Sample.secretEnv (generateStreamsMap Sample.secretStreams) State.empty none
            ds' none =
          runBinlogSync Sample.secretEnv (generateStreamsMap Sample.secretStreams) State.empty none
            [Sample.secretInsert] none) := by
  have hres : resolveCatalog [Sample.discoveredTable] [Sample.secretEntry] =
      .ok Sample.secretStreams := rfl
  exact deselected_columns_stay_out hres Sample.secret_replicationKeys

end TapMysql.Binlog
