import TapMysql.Select.Carries
import TapMysql.Select.Streams

/-!
# What every write of a SELECT-based sync keeps

A sync of a stream changes the state only by writing and clearing a few keys of the bookmark of
its stream. A predicate that these writes keep holds of the state that the sync leaves and of its
STATE messages, whichever way it ends.
-/

namespace TapMysql

/-- Writing or clearing one of these bookmark keys of the stream keeps `I`. -/
def KeptByKeys (s : String) (keys : List String) (I : State → Prop) : Prop :=
  ∀ st, I st → ∀ k ∈ keys, (∀ v, I (st.writeBookmark s k v)) ∧ I (st.clearBookmark s k)

theorem KeptByKeys.mono {s : String} {keys keys' : List String} {I : State → Prop}
    (h : KeptByKeys s keys' I) (hsub : ∀ k ∈ keys, k ∈ keys') : KeptByKeys s keys I :=
  fun st hst k hk => h st hst k (hsub k hk)

/-- What the messages of a sync of the stream with this version satisfy, its SCHEMA apart, when
its records satisfy `R`; a BATCH comes in BATCH mode only. -/
structure DataOf (e : CatalogEntry) (config : Option BatchConfig) (version : Val)
    (R : Record → Prop) (Q : Message → Prop) : Prop where
  record : ∀ r time, R r → Q (.record e.stream r version time)
  batch : config ≠ none → ∀ format rows, (∀ r ∈ rows, R r) → Q (.batch e.stream format rows)
  activateVersion : Q (.activateVersion e.stream version)

/-- Every row that this attempt reads from the columns of the stream becomes a record with `R`. -/
def Attempt.Renders (e : CatalogEntry) (args : SyncArgs) (R : Record → Prop) (a : Attempt) :
    Prop :=
  ∀ sql, selectColumns e.schema args.columns = .ok sql.columns → ∀ row ∈ (a.select sql).rows, ∀ r,
    rowRecord e args.columns args.config (a.select sql).names row = .ok r → R r

/-- The state that `o` leaves satisfies `I`, and its messages `Q`. -/
def Outcome.Keeps (I : State → Prop) (Q : Message → Prop) (o : Outcome) : Prop :=
  I o.state ∧ ∀ m ∈ o.messages, Q m

variable {e : CatalogEntry} {columns : List String} {version : Val} {time : String}
  {config : Option BatchConfig} {f : Fetch} {st : State} {args : SyncArgs}
  {I : State → Prop} {R : Record → Prop} {Q : Message → Prop}

namespace Outcome.Keeps

variable {o next : Outcome}

theorem failed (hst : I st) (err : Err) : (Outcome.failed st err).Keeps I Q :=
  ⟨hst, by simp [Outcome.failed]⟩

theorem after {before : List Message} (h : o.Keeps I Q) (hbefore : ∀ m ∈ before, Q m) :
    (o.after before).Keeps I Q :=
  ⟨h.1, List.forall_mem_append.mpr ⟨hbefore, h.2⟩⟩

theorem andThen (h : o.Keeps I Q) (hnext : next.Keeps I Q) : (o.andThen next).Keeps I Q :=
  ⟨hnext.1, List.forall_mem_append.mpr ⟨h.2, hnext.2⟩⟩

theorem thenState {next : State → List Message × State} (h : o.Keeps I Q)
    (hnext : ∀ st, I st → I (next st).2 ∧ ∀ m ∈ (next st).1, Q m) :
    (o.thenState next).Keeps I Q := by
  unfold Outcome.thenState
  split
  · exact h
  · obtain ⟨hstate, hmsgs⟩ := hnext _ h.1
    exact ⟨hstate, List.forall_mem_append.mpr ⟨h.2, hmsgs⟩⟩

end Outcome.Keeps

/-! ### One query -/

/-- The keys that a bookmark update of `sync_query` writes. -/
def queryKeys : List String := ["last_pk_fetched", "replication_key", "replication_key_value"]

theorem bookmarkUpdate_keeps (config : Option BatchConfig)
    (hkeys : KeptByKeys e.tapStreamId queryKeys I) (key : Val) (hst : I st) (r : Record) :
    I (bookmarkUpdate e config key st r).1 := by
  have hpk : ∀ pkFetched, I (advancePk e pkFetched st r).1 := by
    intro pkFetched
    unfold advancePk
    split_ifs
    · split
      · exact hst
      · exact hst
      · exact (hkeys st hst "last_pk_fetched" (by simp [queryKeys])).1 _
    · exact hst
  have hwrite : ∀ v, I (st.writeBookmark e.tapStreamId "replication_key" v) :=
    (hkeys st hst "replication_key" (by simp [queryKeys])).1
  unfold bookmarkUpdate advance
  split
  · exact hpk _
  · exact hpk _
  · split
    · exact hst
    · unfold advanceReplicationKey
      dsimp only
      split
      · exact hwrite _
      · exact (hkeys _ (hwrite _) "replication_key_value" (by simp [queryKeys])).1 _
    · exact hwrite _
  · exact hst

/-- The writer of the loop belongs to the stream and holds records with `R`. -/
def WriterOf (e : CatalogEntry) (config : Option BatchConfig) (R : Record → Prop)
    (writer : Option BatchWriter) : Prop :=
  ∀ w ∈ writer, config ≠ none ∧ w.stream = e.stream ∧ ∀ r ∈ w.rows, R r

theorem flush_data (hdata : DataOf e config version R Q) {w : BatchWriter}
    (hw : WriterOf e config R (some w)) :
    WriterOf e config R (some w.flush.2) ∧ ∀ m ∈ w.flush.1, Q m := by
  obtain ⟨hconfig, hstream, hrows⟩ := hw w rfl
  unfold BatchWriter.flush
  split_ifs
  · exact ⟨hw, by simp⟩
  · refine ⟨?_, ?_⟩
    · rintro w' ⟨⟩
      exact ⟨hconfig, hstream, by simp⟩
    · intro m hm
      rw [List.mem_singleton.mp hm, hstream]
      exact hdata.batch hconfig _ _ hrows

theorem writeRecords_data (time : String) (hdata : DataOf e config version R Q) {s : QueryState}
    (hw : WriterOf e config R s.writer) {records : List Record} (hrecords : ∀ r ∈ records, R r) :
    WriterOf e config R (writeRecords e version time s records).2.1 ∧
      ∀ m ∈ (writeRecords e version time s records).1, Q m := by
  unfold writeRecords
  cases hs : s.writer with
  | none =>
    refine ⟨by simp [WriterOf], fun m hm => ?_⟩
    obtain ⟨r, hr, rfl⟩ := List.mem_map.mp hm
    exact hdata.record r time (hrecords r hr)
  | some w =>
    obtain ⟨hconfig, hstream, hrows⟩ := hw w hs
    have hgrown : WriterOf e config R (some { w with rows := w.rows ++ records }) := by
      rintro w' ⟨⟩
      exact ⟨hconfig, hstream, List.forall_mem_append.mpr ⟨hrows, hrecords⟩⟩
    simp only [BatchWriter.write]
    split_ifs
    · exact flush_data hdata hgrown
    · exact ⟨hgrown, by simp⟩

theorem stateIf_data (hstate : ∀ v, I v → Q (.state v)) (hst : I st) (checkpoint : Bool) :
    ∀ m ∈ stateIf checkpoint st, Q m := by
  unfold stateIf
  split_ifs
  · intro m hm
    rw [List.mem_singleton.mp hm]
    exact hstate st hst
  · simp

theorem syncQuery_keeps (hkeys : KeptByKeys e.tapStreamId queryKeys I)
    (hdata : DataOf e config version R Q) (hstate : ∀ v, I v → Q (.state v))
    (hrender : ∀ row ∈ f.rows, ∀ r, rowRecord e columns config f.names row = .ok r → R r)
    (hst : I st) :
    I (syncQuery e st columns version time config f).2.1 ∧
      ∀ m ∈ (syncQuery e st columns version time config f).1, Q m := by
  have hrecords : ∀ unit ∈ fetchUnits config f.chunks, ∀ records,
      renderUnit e columns config f.names unit = .ok records → ∀ r ∈ records, R r := by
    intro unit hin records hunit r hr
    have hmem : Except.ok r ∈ unit.map (rowRecord e columns config f.names) :=
      rendersRows_unit f.names unit records hunit ▸ List.mem_map_of_mem hr
    obtain ⟨row, hrow, hrecord⟩ := List.mem_map.mp hmem
    refine hrender row ?_ r hrecord
    rw [Fetch.rows, ← flatten_fetchUnits config]
    exact List.mem_flatten.mpr ⟨unit, hin, hrow⟩
  rw [syncQuery_eq]
  refine Loop.run_invariant_on (I := fun s : QueryState => I s.st ∧ WriterOf e config R s.writer)
    (Q := fun t : State × Option Err => I t.1) (J := fun unit => unit ∈ fetchUnits config f.chunks)
    ?_ ?_ ?_ (fun _ hunit => hunit) ⟨hst, ?_⟩
  · intro s unit em s' hin hs hstep
    rcases queryStep_next hstep with ⟨-, rfl, rfl⟩ | ⟨records, last, st', hunit, -, hu, rfl, rfl⟩
    · exact ⟨hs, by simp⟩
    · have hst' : I st' := by
        have h := bookmarkUpdate_keeps config hkeys
          (st.getBookmark e.tapStreamId "replication_key") hs.1 last
        rwa [hu] at h
      obtain ⟨hw, hmsgs⟩ :=
        writeRecords_data time hdata hs.2 (hrecords unit hin records hunit)
      exact ⟨⟨hst', hw⟩, List.forall_mem_append.mpr ⟨hmsgs, stateIf_data hstate hst' _⟩⟩
  · intro s unit em t hin hs hstep
    obtain ⟨err, -, ⟨-, ht, rfl⟩ | ⟨records, last, hunit, -, hu, rfl⟩⟩ := queryStep_halt hstep
    · exact ⟨ht ▸ hs.1, by simp⟩
    · refine ⟨?_, (writeRecords_data time hdata hs.2 (hrecords unit hin records hunit)).2⟩
      have h := bookmarkUpdate_keeps config hkeys
        (st.getBookmark e.tapStreamId "replication_key") hs.1 last
      rwa [hu] at h
  · intro s hs
    unfold queryEnd
    split
    · exact ⟨hs.1, by simp⟩
    · refine ⟨hs.1, List.forall_mem_append.mpr ⟨fun m hm => ?_, stateIf_data hstate hs.1 _⟩⟩
      unfold lastFlush at hm
      split at hm
      · rename_i w hw
        exact (flush_data hdata (hw ▸ hs.2)).2 m hm
      · simp at hm
  · intro w hw
    obtain ⟨c, rfl, rfl⟩ := Option.map_eq_some_iff.mp hw
    exact ⟨Option.some_ne_none c, rfl, by simp [BatchWriter.new]⟩

theorem runSelect_keeps (hkeys : KeptByKeys e.tapStreamId queryKeys I)
    (hdata : DataOf e args.config args.streamVersion R Q)
    (hstate : ∀ v, I v → Q (.state v)) (hst : I st)
    {a : Attempt} (ha : a.Renders e args R) {sql : SelectSql}
    (hsql : selectColumns e.schema args.columns = .ok sql.columns) :
    (runSelect e args a st sql).Keeps I Q :=
  syncQuery_keeps hkeys hdata hstate (ha sql hsql) hst

/-! ### The columns of a statement -/

theorem FullTable.generatePkClause_columns {sql sql' : SelectSql}
    (h : FullTable.generatePkClause e st sql = .ok sql') : sql'.columns = sql.columns := by
  unfold FullTable.generatePkClause at h
  split at h
  · cases h
  · split at h
    · cases h
    · cases h
      rfl

theorem Incremental.whereClause_columns {key value : Val} {sql sql' : SelectSql}
    (h : Incremental.whereClause e key value sql = .ok sql') : sql'.columns = sql.columns := by
  unfold Incremental.whereClause at h
  split at h
  · split at h <;>
    · cases h
      rfl
  · split at h
    · cases h
    · cases h
      rfl

/-! ### One stream -/

namespace FullTable

/-- The keys that `full_table.sync_table` writes or clears, its whitelist apart. -/
def passKeys : List String := "max_pk_values" :: queryKeys

theorem attempt_keeps (hkeys : KeptByKeys e.tapStreamId passKeys I)
    (hdata : DataOf e args.config args.streamVersion R Q)
    (hstate : ∀ v, I v → Q (.state v)) (hst : I st)
    {a : Attempt} (ha : a.Renders e args R) (autoIncrementing : Bool) :
    (attempt e autoIncrementing args a st).Keeps I Q := by
  have hquery : KeptByKeys e.tapStreamId queryKeys I :=
    hkeys.mono fun k hk => List.mem_cons_of_mem _ hk
  unfold attempt
  split
  · exact .failed hst _
  · rename_i sql hsql
    have hcolumns := (generateSelectSql_eq hsql).1
    split_ifs
    · split
      · exact .failed hst _
      · rename_i maximum _
        split_ifs
        · have hst' : I (st.writeBookmark e.tapStreamId "max_pk_values" maximum) :=
            (hkeys st hst "max_pk_values" List.mem_cons_self).1 _
          dsimp only
          split
          · exact .failed hst' _
          · rename_i sql' hclause
            exact runSelect_keeps hquery hdata hstate hst' ha
              (generatePkClause_columns hclause ▸ hcolumns)
        · exact runSelect_keeps hquery hdata hstate hst ha hcolumns
    · exact runSelect_keeps hquery hdata hstate hst ha hcolumns

theorem syncTable_keeps (hkeys : KeptByKeys e.tapStreamId passKeys I)
    (hdata : DataOf e args.config args.streamVersion R Q) (hstate : ∀ v, I v → Q (.state v))
    (hst : I (whitelistBookmarkKeys (generateBookmarkKeys e) e.tapStreamId st))
    (autoIncrement : String → Bool) {server : Nat → Attempt}
    (hserver : ∀ n, (server n).Renders e args R) :
    (syncTable e autoIncrement server args st).Keeps I Q := by
  have hloop := attempts_invariant args.config
    (fun n st (h : I st) => attempt_keeps hkeys hdata hstate h (hserver n)
      (pksAreAutoIncrementing autoIncrement e)) maxSyncRetries 0 hst
  have hfirst : ∀ m ∈ firstActivation e args
      (whitelistBookmarkKeys (generateBookmarkKeys e) e.tapStreamId st), Q m := by
    unfold firstActivation
    split_ifs
    · intro m hm
      rw [List.mem_singleton.mp hm]
      exact hdata.activateVersion
    · simp
  unfold syncTable retryLoop
  dsimp only
  split
  · exact ⟨hloop.1, List.forall_mem_append.mpr ⟨hfirst, hloop.2⟩⟩
  · have hmax := (hkeys _ hloop.1 "max_pk_values" List.mem_cons_self).2
    have hlast := (hkeys _ hmax "last_pk_fetched" (by simp [passKeys, queryKeys])).2
    refine ⟨hlast, List.forall_mem_append.mpr
      ⟨List.forall_mem_append.mpr ⟨hfirst, hloop.2⟩, ?_⟩⟩
    intro m hm
    rw [List.mem_singleton.mp hm]
    exact hdata.activateVersion

end FullTable

namespace Incremental

theorem attempt_keeps (args : SyncArgs) (hkeys : KeptByKeys e.tapStreamId queryKeys I)
    (hdata : DataOf e args.config args.streamVersion R Q)
    (hstate : ∀ v, I v → Q (.state v)) (hst : I st)
    {a : Attempt} (ha : a.Renders e args R) (value : Val) :
    (attempt e args a value st).Keeps I Q := by
  unfold attempt
  split
  · exact .failed hst _
  · rename_i sql hsql
    split
    · exact .failed hst _
    · rename_i sql' hclause
      exact runSelect_keeps hkeys hdata hstate hst ha
        (whereClause_columns hclause ▸ (generateSelectSql_eq hsql).1)

theorem startState_keeps (hkeys : KeptByKeys e.tapStreamId queryKeys I)
    (hst : I (whitelistBookmarkKeys bookmarkKeys e.tapStreamId st)) : I (startState e st).1 := by
  unfold startState
  dsimp only
  split_ifs
  · exact hst
  · have hkey := (hkeys _ hst "replication_key" (by simp [queryKeys])).1
      (e.streamMetadata "replication-key")
    exact (hkeys _ hkey "replication_key_value" (by simp [queryKeys])).2

/-- The version of the sync is written before the first attempt. -/
theorem syncTable_keeps (hkeys : KeptByKeys e.tapStreamId queryKeys I) {now : Int}
    (hdata : DataOf e args.config (versionedArgs e args now st).streamVersion R Q)
    (hstate : ∀ v, I v → Q (.state v)) (hst : I (versioned e now st)) {server : Nat → Attempt}
    (hserver : ∀ n, (server n).Renders e args R) :
    (syncTable e server args now st).Keeps I Q := by
  have hloop := FullTable.attempts_invariant args.config
    (fun n st' (h : I st') => attempt_keeps (versionedArgs e args now st) hkeys hdata hstate h
      (hserver n) (if n = 0 then (startState e st).2 else
        st'.getBookmark e.tapStreamId "replication_key_value")) maxSyncRetries 0 hst
  exact ⟨hloop.1, List.forall_mem_cons.mpr ⟨hdata.activateVersion, hloop.2⟩⟩

end Incremental

end TapMysql
