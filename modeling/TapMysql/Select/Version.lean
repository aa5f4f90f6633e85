import TapMysql.Select.Carries
import TapMysql.Select.Streams

/-!
# The version of a full pass

A sync takes its version from the bookmark or, when there is none, from the clock. A LOG_BASED
snapshot stores it before its query; a FULL_TABLE sync does not, so a run that goes on from an
interrupted one closes the pass with another version than the one its records carry.
-/

namespace TapMysql

/-! ### Runs on a stream -/

variable {e : CatalogEntry} {version kept : Val} {config : Option BatchConfig} {st : State}
  {key : String} {autoIncrement : String → Bool} {gtidConfig : GtidConfig} {run : StreamRun}

theorem after_carries {before : List Message} {o : Outcome} {tapStreamId : String}
    (hbefore : ∀ m ∈ before, m.Carries tapStreamId key config version kept)
    (ho : o.Carries tapStreamId key config version kept) :
    (o.after before).Carries tapStreamId key config version kept :=
  ⟨ho.1, List.forall_mem_append.mpr ⟨hbefore, ho.2⟩⟩

theorem doSyncFullTable_carries (hm : e.replicationMethod = .fullTable)
    (autoIncrement : String → Bool) (run : StreamRun)
    (hst : st.getBookmark e.tapStreamId "version" = .null) :
    (doSyncFullTable e autoIncrement run st).Carries e.tapStreamId "version" run.args.config
      (.int run.now) .null := by
  have hversion : getStreamVersion e.tapStreamId st run.now = .int run.now := by
    rw [getStreamVersion, hst]
  have hsync : (FullTable.syncTable e autoIncrement run.server (versionedArgs e run st)
      st).Carries e.tapStreamId "version" run.args.config
      (getStreamVersion e.tapStreamId st run.now) .null :=
    FullTable.syncTable_carries (Or.inl hm) (by decide) (by decide) FullTable.version_mem
      autoIncrement run.server hst
  rw [versionedArgs, hversion] at hsync
  have hcomplete : ∀ st',
      (completeFullTable e st').getBookmark e.tapStreamId "version" = .null := by
    simp [completeFullTable, State.getBookmark_writeBookmark]
  refine after_carries (by simp [schemaMessage, Message.Carries]) ?_
  rw [versionedArgs, hversion, Outcome.thenState]
  split
  · exact hsync
  · exact ⟨hcomplete _, List.forall_mem_append.mpr ⟨hsync.2, by
      simpa [Message.Carries] using hcomplete _⟩⟩

theorem doSyncHistoricalBinlog_carries (hm : e.replicationMethod = .logBased)
    (autoIncrement : String → Bool) (gtidConfig : GtidConfig) (run : StreamRun)
    (hst : st.getBookmark e.tapStreamId "version" = .null →
      (st.getBookmark e.tapStreamId "max_pk_values").truthy = false) :
    ∀ m ∈ (doSyncHistoricalBinlog e autoIncrement gtidConfig run st).messages,
      m.Carries e.tapStreamId "version" run.args.config (getStreamVersion e.tapStreamId st run.now)
        (getStreamVersion e.tapStreamId st run.now) := by
  set version := getStreamVersion e.tapStreamId st run.now with hversion
  have hschema : ∀ m ∈ [schemaMessage e []],
      m.Carries e.tapStreamId "version" run.args.config version version := by
    simp [schemaMessage, Message.Carries]
  have hsync : ∀ st', st'.getBookmark e.tapStreamId "version" = version →
      (FullTable.syncTable e autoIncrement run.server (versionedArgs e run st) st').Carries
        e.tapStreamId "version" run.args.config version version := fun st' hst' =>
    FullTable.syncTable_carries (Or.inr hm) (by decide) (by decide) FullTable.version_mem
      autoIncrement run.server hst'
  have hposition : ∀ position gtid st', st'.getBookmark e.tapStreamId "version" = version →
      (writePosition e position gtid st').getBookmark e.tapStreamId "version" = version := by
    intro position gtid st' h
    rw [writePosition]
    split_ifs <;> simpa [State.getBookmark_writeBookmark] using h
  rcases doSyncHistoricalBinlog_cases e autoIncrement gtidConfig run st with
    ⟨before, st', err, hbefore, ho⟩ | ⟨hresume, ho⟩ | ⟨-, position, gtid, -, -, ho⟩
  · rw [ho]
    rcases hbefore with rfl | rfl
    · simp [Outcome.after, Outcome.failed]
    · simpa [Outcome.after, Outcome.failed] using hschema
  · -- the version of the bookmark
    have hkept : st.getBookmark e.tapStreamId "version" = version := by
      have hne : st.getBookmark e.tapStreamId "version" ≠ .null := by
        intro h
        simp [resumesSnapshot, hst h] at hresume
      rw [hversion, getStreamVersion]
      split
      · contradiction
      · rfl
    rw [ho]
    exact (after_carries hschema (hsync _ hkept)).2
  · rw [ho]
    refine List.forall_mem_append.mpr ⟨hschema, ?_⟩
    have hbegun : ((st.writeBookmark e.tapStreamId "initial_binlog_complete" (.bool
        false)).writeBookmark e.tapStreamId "version" version).getBookmark e.tapStreamId
        "version" = version := by simp
    unfold startSnapshot
    simp only
    split_ifs
    · exact (hsync _ (hposition _ _ _ hbegun)).2
    · have hmsgs := (hsync _ hbegun).2
      rw [Outcome.thenState]
      split
      · exact hmsgs
      · exact List.forall_mem_append.mpr ⟨hmsgs, by simp⟩

/-! ### Passes over several runs -/

/-- A run on the stream that was cut off, with the messages it had written and the last STATE
among them. -/
structure CutRun where
  start : State
  run : StreamRun
  messages : List Message
  last : State

/-- The version that a cut run carries. -/
def CutRun.streamVersion (e : CatalogEntry) (c : CutRun) : Val :=
  getStreamVersion e.tapStreamId c.start c.run.now

/-- The run wrote these messages first, and its pass is not complete in its last STATE. -/
structure IsCut (e : CatalogEntry) (autoIncrement : String → Bool) (gtidConfig : GtidConfig)
    (c : CutRun) : Prop where
  part : ∃ rest,
    (syncStream e autoIncrement gtidConfig c.run c.start).messages = c.messages ++ rest
  last : ∃ a b, c.messages = a ++ .state c.last :: b ∧ ∀ v, Message.state v ∉ b
  unfinished : (c.last.getBookmark e.tapStreamId "initial_full_table_complete").truthy = false

/-- Runs on a stream that starts without a bookmark, each from the last STATE of the one before
and with a later clock; the next run starts from `st`, after the time `t`. -/
inductive Pass (e : CatalogEntry) (autoIncrement : String → Bool) (gtidConfig : GtidConfig) :
    List CutRun → State → Int → Prop
  | start {st : State} (t : Int) : hasState st e = false → Pass e autoIncrement gtidConfig [] st t
  | cut {cuts : List CutRun} {t : Int} {c : CutRun} :
      Pass e autoIncrement gtidConfig cuts c.start t → t < c.run.now →
      (e.replicationMethod = .logBased → binlogStreamRequiresHistorical e c.start = true) →
      IsCut e autoIncrement gtidConfig c →
      Pass e autoIncrement gtidConfig (cuts ++ [c]) c.last c.run.now

def Message.isRecord : Message → Bool
  | .record .. => true
  | _ => false

/-- The version of the last ACTIVATE_VERSION. -/
def closingVersion (messages : List Message) : Option Val :=
  (messages.filterMap fun m => match m with
    | .activateVersion _ w => some w
    | _ => none).getLast?

/-- A stream whose bookmark has no version is at the beginning of a pass. -/
structure AtStart (e : CatalogEntry) (st : State) : Prop where
  snapshot : e.replicationMethod = .logBased → st.getBookmark e.tapStreamId "version" = .null →
    (st.getBookmark e.tapStreamId "max_pk_values").truthy = false
  fullTable : e.replicationMethod = .fullTable →
    st.getBookmark e.tapStreamId "version" = .null

/-- One run: the announcing STATE, and messages that carry the version of the run. -/
theorem syncStream_carries
    (hm : e.replicationMethod = .fullTable ∨ e.replicationMethod = .logBased)
    (autoIncrement : String → Bool) (gtidConfig : GtidConfig) (run : StreamRun)
    (hst : AtStart e st) :
    ∃ ms, (syncStream e autoIncrement gtidConfig run st).messages =
        .state (st.setCurrentlySyncing (some e.tapStreamId)) :: ms ∧
      ∀ m ∈ ms, m.Carries e.tapStreamId "version" run.args.config
        (getStreamVersion e.tapStreamId st run.now)
        (if e.replicationMethod = .fullTable then .null
          else getStreamVersion e.tapStreamId st run.now) := by
  refine ⟨_, rfl, ?_⟩
  rcases hm with hm | hm
  · have hversion : getStreamVersion e.tapStreamId st run.now = .int run.now := by
      rw [getStreamVersion, hst.fullTable hm]
    have hst' : (st.setCurrentlySyncing (some e.tapStreamId)).getBookmark e.tapStreamId
        "version" = .null := hst.fullTable hm
    rw [hversion, if_pos hm, hm]
    exact (doSyncFullTable_carries hm autoIncrement
      { run with args := { run.args with columns := e.schema.keys } } hst').2
  · have hst' : (st.setCurrentlySyncing (some e.tapStreamId)).getBookmark e.tapStreamId
        "version" = .null → ((st.setCurrentlySyncing (some e.tapStreamId)).getBookmark
        e.tapStreamId "max_pk_values").truthy = false := hst.snapshot hm
    rw [hm, if_neg (by decide)]
    exact doSyncHistoricalBinlog_carries hm autoIncrement gtidConfig
      { run with args := { run.args with columns := e.schema.keys } } hst'

theorem getStreamVersion_cases (st : State) (now : Int) (tapStreamId : String) :
    (st.getBookmark tapStreamId "version" = .null ∧
      getStreamVersion tapStreamId st now = .int now) ∨
    (st.getBookmark tapStreamId "version" ≠ .null ∧
      getStreamVersion tapStreamId st now = st.getBookmark tapStreamId "version") := by
  rw [getStreamVersion]
  split
  · exact Or.inl ⟨‹_›, rfl⟩
  · exact Or.inr ⟨‹_›, rfl⟩

theorem streamVersion_ne_null (st : State) (now : Int) (tapStreamId : String) :
    getStreamVersion tapStreamId st now ≠ .null := by
  rcases getStreamVersion_cases st now tapStreamId with ⟨-, h⟩ | ⟨hne, h⟩
  · simp [h]
  · rwa [h]

/-- What a cut run wrote: its records carry its version, and its last STATE has a version only
when a LOG_BASED snapshot wrote it after the announcing STATE, or had one to begin with. -/
structure CutFacts (e : CatalogEntry) (c : CutRun) : Prop where
  records : ∀ m ∈ c.messages, m.isRecord = true →
    m.Carries e.tapStreamId "version" c.run.args.config (c.streamVersion e) .null
  fullTable : e.replicationMethod = .fullTable →
    c.last.getBookmark e.tapStreamId "version" = .null
  logBased : e.replicationMethod = .logBased →
    (∃ v ms ms', c.messages = .state v :: ms ++ .state c.last :: ms') →
    c.last.getBookmark e.tapStreamId "version" ≠ .null

/-- The last STATE of a cut run keeps the bookmark or, when a snapshot had begun its query, names
the version of the run. -/
theorem cut_carries {c : CutRun}
    (hm : e.replicationMethod = .fullTable ∨ e.replicationMethod = .logBased)
    (hst : AtStart e c.start) (hc : IsCut e autoIncrement gtidConfig c) :
    CutFacts e c ∧
    ((∀ key, c.last.getBookmark e.tapStreamId key = c.start.getBookmark e.tapStreamId key) ∨
      c.last.getBookmark e.tapStreamId "version" =
        if e.replicationMethod = .fullTable then .null else c.streamVersion e) := by
  obtain ⟨ms, hmsgs, hcarries⟩ := syncStream_carries hm autoIncrement gtidConfig c.run hst
  obtain ⟨rest, hpart⟩ := hc.part
  rw [hmsgs] at hpart
  obtain ⟨a, b, hlast, hno⟩ := hc.last
  have hmem : ∀ m ∈ c.messages, m = .state (c.start.setCurrentlySyncing (some e.tapStreamId)) ∨
      m ∈ ms := fun m hmc => by
    have : m ∈ Message.state (c.start.setCurrentlySyncing (some e.tapStreamId)) :: ms := by
      rw [hpart]
      exact List.mem_append_left rest hmc
    exact List.mem_cons.mp this
  have hcases : (∀ key, c.last.getBookmark e.tapStreamId key =
        c.start.getBookmark e.tapStreamId key) ∨
      c.last.getBookmark e.tapStreamId "version" =
        if e.replicationMethod = .fullTable then .null else c.streamVersion e := by
    rcases hmem (.state c.last) (by simp [hlast]) with heq | hms
    · rw [Message.state.injEq] at heq
      exact Or.inl fun key => by rw [heq, State.getBookmark_setCurrentlySyncing]
    · exact Or.inr (hcarries _ hms)
  refine ⟨⟨fun m hmc hrecord => ?_, fun hf => ?_, ?_⟩, hcases⟩
  · rcases hmem m hmc with rfl | hms
    · simp [Message.isRecord] at hrecord
    · cases m with
      | record s r w t => exact hcarries _ hms
      | _ => simp [Message.isRecord] at hrecord
  · rcases hcases with hsame | hstored
    · rw [hsame, hst.fullTable hf]
    · rw [hstored, if_pos hf]
  · intro hl h
    obtain ⟨v, ms₁, ms₂, hsecond⟩ := h
    rw [hsecond, List.cons_append, List.cons_append, List.cons.injEq] at hpart
    have hms : Message.state c.last ∈ ms := by
      rw [hpart.2]
      simp
    have hversion := hcarries _ hms
    rw [hl, if_neg (by decide)] at hversion
    rw [hversion]
    exact streamVersion_ne_null _ _ _

/-- The versions of a pass so far. A cut run whose last STATE has a version hands it on; otherwise
no bookmark keeps its version, and later versions come from a later clock. -/
structure Versions (e : CatalogEntry) (cuts : List CutRun) (st : State) (t : Int) : Prop where
  atStart : AtStart e st
  current : st.getBookmark e.tapStreamId "version" = .null ∨
    ∃ n ≤ t, st.getBookmark e.tapStreamId "version" = .int n
  facts : ∀ c ∈ cuts, CutFacts e c
  kept : ∀ c ∈ cuts, c.last.getBookmark e.tapStreamId "version" ≠ .null →
    st.getBookmark e.tapStreamId "version" = c.streamVersion e
  lost : ∀ c ∈ cuts, c.last.getBookmark e.tapStreamId "version" = .null →
    ∃ m ≤ t, c.streamVersion e = .int m ∧
      (st.getBookmark e.tapStreamId "version" = .null ∨
        ∃ n, st.getBookmark e.tapStreamId "version" = .int n ∧ m < n)

theorem Versions.start (h : hasState st e = false) (t : Int) : Versions e [] st t where
  atStart := ⟨fun _ _ => by rw [getBookmark_of_not_hasState h]; rfl,
    fun _ => getBookmark_of_not_hasState h "version"⟩
  current := Or.inl (getBookmark_of_not_hasState h "version")
  facts := by simp
  kept := by simp
  lost := by simp

/-- A later run takes up the version of a cut run exactly when the last STATE of that has one. -/
theorem Versions.next_eq_iff {cuts : List CutRun} {t now : Int} (hv : Versions e cuts st t)
    (hnow : t < now) {c : CutRun} (hc : c ∈ cuts) :
    c.streamVersion e = getStreamVersion e.tapStreamId st now ↔
      c.last.getBookmark e.tapStreamId "version" ≠ .null := by
  constructor
  · intro heq hnull
    obtain ⟨n, hn, hcn, hlater⟩ := hv.lost c hc hnull
    rcases getStreamVersion_cases st now e.tapStreamId with ⟨-, h⟩ | ⟨hne, h⟩
    · rw [hcn, h, Val.int.injEq] at heq
      omega
    · rcases hlater with hst | ⟨n', hst, hlt⟩
      · exact hne hst
      · rw [hcn, h, hst, Val.int.injEq] at heq
        omega
  · intro hne
    have hst := hv.kept c hc hne
    rcases getStreamVersion_cases st now e.tapStreamId with ⟨hnull, -⟩ | ⟨-, h⟩
    · rw [hnull] at hst
      exact absurd hst.symm (streamVersion_ne_null _ _ _)
    · rw [h, hst]

theorem Versions.cut_keeps {cuts : List CutRun} {c : CutRun} {t : Int}
    (hv : Versions e cuts c.start t) (hnow : t < c.run.now)
    (hfacts : CutFacts e c)
    (hsame : c.last.getBookmark e.tapStreamId "version" =
      c.start.getBookmark e.tapStreamId "version") (hstart : AtStart e c.last) :
    Versions e (cuts ++ [c]) c.last c.run.now where
  atStart := hstart
  current := by
    rw [hsame]
    exact hv.current.imp_right fun ⟨n, hn, h⟩ => ⟨n, hn.trans hnow.le, h⟩
  facts := List.forall_mem_append.mpr ⟨hv.facts, by simpa using hfacts⟩
  kept := by
    refine List.forall_mem_append.mpr ⟨fun c' hc' hne => by rw [hsame, hv.kept c' hc' hne], ?_⟩
    simp only [List.mem_singleton, forall_eq]
    intro hne
    rcases getStreamVersion_cases c.start c.run.now e.tapStreamId with ⟨hnull, -⟩ | ⟨-, h⟩
    · exact absurd (hsame.trans hnull) hne
    · rw [hsame, CutRun.streamVersion, h]
  lost := by
    refine List.forall_mem_append.mpr ⟨fun c' hc' hnull => ?_, ?_⟩
    · obtain ⟨m, hm, hversion, hlater⟩ := hv.lost c' hc' hnull
      exact ⟨m, hm.trans hnow.le, hversion, by rw [hsame]; exact hlater⟩
    · simp only [List.mem_singleton, forall_eq]
      intro hnull
      rcases getStreamVersion_cases c.start c.run.now e.tapStreamId with ⟨-, h⟩ | ⟨hne, -⟩
      · exact ⟨c.run.now, le_rfl, h, Or.inl hnull⟩
      · exact absurd (hsame.symm.trans hnull) hne

theorem Versions.cut_stores {cuts : List CutRun} {c : CutRun} {t : Int}
    (hm : e.replicationMethod = .logBased) (hv : Versions e cuts c.start t)
    (hnow : t < c.run.now)
    (hfacts : CutFacts e c)
    (hstored : c.last.getBookmark e.tapStreamId "version" = c.streamVersion e) :
    Versions e (cuts ++ [c]) c.last c.run.now := by
  have hne : c.last.getBookmark e.tapStreamId "version" ≠ .null := by
    rw [hstored]
    exact streamVersion_ne_null _ _ _
  have hcases := getStreamVersion_cases c.start c.run.now e.tapStreamId
  rw [← CutRun.streamVersion] at hcases
  refine ⟨⟨fun _ hnull => absurd hnull hne, fun hf => by simp [hm] at hf⟩, Or.inr ?_,
    List.forall_mem_append.mpr ⟨hv.facts, by simpa using hfacts⟩,
    List.forall_mem_append.mpr ⟨fun c' hc' hne' => ?_, by simpa using fun _ => hstored⟩,
    List.forall_mem_append.mpr ⟨fun c' hc' hnull => ?_, by simpa using fun h => absurd h hne⟩⟩
  · rcases hcases with ⟨-, h⟩ | ⟨hne', h⟩
    · exact ⟨c.run.now, le_rfl, hstored.trans h⟩
    · rcases hv.current with hnull | ⟨n, hn, hint⟩
      · contradiction
      · exact ⟨n, hn.trans hnow.le, (hstored.trans h).trans hint⟩
  · have hkept := hv.kept c' hc' hne'
    rcases hcases with ⟨hnull, -⟩ | ⟨-, h⟩
    · rw [hnull] at hkept
      exact absurd hkept.symm (streamVersion_ne_null _ _ _)
    · rw [hstored, h, hkept]
  · obtain ⟨m, hm, hversion, hlater⟩ := hv.lost c' hc' hnull
    refine ⟨m, hm.trans hnow.le, hversion, Or.inr ?_⟩
    rcases hcases with ⟨-, h⟩ | ⟨hne', h⟩
    · exact ⟨c.run.now, hstored.trans h, hm.trans_lt hnow⟩
    · rcases hlater with hnull | ⟨n, hn, hlt⟩
      · contradiction
      · exact ⟨n, (hstored.trans h).trans hn, hlt⟩

theorem pass_versions
    (hm : e.replicationMethod = .fullTable ∨ e.replicationMethod = .logBased)
    {cuts : List CutRun} {t : Int} (h : Pass e autoIncrement gtidConfig cuts st t) :
    Versions e cuts st t := by
  induction h with
  | start t hst => exact .start hst t
  | @cut cuts t c _ hnow _ hc ih =>
    obtain ⟨hfacts, hsame | hstored⟩ := cut_carries hm ih.atStart hc
    · exact ih.cut_keeps hnow hfacts (hsame "version")
        ⟨by simpa only [hsame] using ih.atStart.snapshot,
          by simpa only [hsame] using ih.atStart.fullTable⟩
    · rcases hm with hm | hm
      · rw [if_pos hm] at hstored
        exact ih.cut_keeps hnow hfacts (hstored.trans (ih.atStart.fullTable hm).symm)
          ⟨fun h => by simp [hm] at h, fun _ => hstored⟩
      · rw [hm, if_neg (by decide)] at hstored
        exact ih.cut_stores hm hnow hfacts hstored

/-! ### The run that closes the pass -/

theorem closingVersion_append (before : List Message) (w : Val) {stream : String}
    {after : List Message} (hafter : ∀ m ∈ after, ∃ v, m = .state v) :
    closingVersion (before ++ .activateVersion stream w :: after) = some w := by
  have hnone : after.filterMap (fun m => match m with
      | .activateVersion _ w => some w
      | _ => none) = [] := by
    refine List.filterMap_eq_nil_iff.mpr fun m hm => ?_
    obtain ⟨v, rfl⟩ := hafter m hm
    rfl
  rw [closingVersion, List.filterMap_append, List.filterMap_cons, hnone]
  simp

theorem syncTable_closes {server : Nat → Attempt}
    (h : (FullTable.syncTable e autoIncrement server args st).error = none) :
    ∃ before, (FullTable.syncTable e autoIncrement server args st).messages =
      before ++ [.activateVersion e.stream args.streamVersion] := by
  unfold FullTable.syncTable at h ⊢
  simp only at h ⊢
  split at h
  · cases h
  · exact ⟨_, rfl⟩

/-- A run that returns writes ACTIVATE_VERSION after everything but a last STATE. -/
theorem syncStream_closes
    (hm : e.replicationMethod = .fullTable ∨ e.replicationMethod = .logBased)
    (h : (syncStream e autoIncrement gtidConfig run st).error = none) :
    closingVersion (syncStream e autoIncrement gtidConfig run st).messages =
      some (getStreamVersion e.tapStreamId st run.now) := by
  set st' := st.setCurrentlySyncing (some e.tapStreamId) with hst'
  set run' := { run with args := { run.args with columns := e.schema.keys } } with hrun'
  have hversion : (versionedArgs e run' st').streamVersion =
      getStreamVersion e.tapStreamId st run.now := rfl
  have hcloses : ∀ before st'' after, (∀ m ∈ after, ∃ v, m = Message.state v) →
      (FullTable.syncTable e autoIncrement run'.server (versionedArgs e run' st') st'').error =
        none →
      closingVersion (before ++ ((FullTable.syncTable e autoIncrement run'.server
        (versionedArgs e run' st') st'').messages ++ after)) =
        some (getStreamVersion e.tapStreamId st run.now) := by
    intro before st'' after hafter hsync
    obtain ⟨ms, hms⟩ := syncTable_closes hsync
    rw [hms, List.append_assoc, ← List.append_assoc, List.singleton_append, hversion]
    exact closingVersion_append _ _ hafter
  rcases hm with hm | hm
  · simp only [syncStream, hm, doSyncFullTable, Outcome.error_after, Outcome.error_thenState]
      at h ⊢
    rw [Outcome.messages_after, Outcome.messages_after, Outcome.messages_thenState h,
      ← List.append_assoc]
    exact hcloses _ _ _ (by simp) h
  · simp only [syncStream, hm, Outcome.error_after, Outcome.messages_after] at h ⊢
    rcases doSyncHistoricalBinlog_cases e autoIncrement gtidConfig run' st' with
      ⟨before, st'', err, -, ho⟩ | ⟨-, ho⟩ | ⟨-, position, gtid, -, -, ho⟩
    · rw [ho] at h
      cases h
    · rw [ho] at h ⊢
      rw [Outcome.messages_after, ← List.append_assoc,
        ← List.append_nil (FullTable.syncTable _ _ _ _ _).messages]
      exact hcloses _ _ _ (by simp) h
    · rw [ho, Outcome.error_after, startSnapshot] at h
      rw [ho, Outcome.messages_after, startSnapshot, ← List.append_assoc]
      split_ifs at h ⊢
      · rw [← List.append_nil (FullTable.syncTable _ _ _ _ _).messages]
        exact hcloses _ _ _ (by simp) h
      · rw [Outcome.error_thenState] at h
        rw [Outcome.messages_thenState h]
        exact hcloses _ _ _ (by simp) h

/-- A full pass carries one version, that of the ACTIVATE_VERSION that closes it, exactly when
every run that was cut off after a RECORD left a STATE with a version. A FULL_TABLE run leaves
none; a LOG_BASED run does with every STATE of its query. In BATCH mode no run writes a RECORD. -/
theorem one_version_iff (e : CatalogEntry) (autoIncrement : String → Bool)
    (gtidConfig : GtidConfig) (cuts : List CutRun) (st : State) (t : Int) (final : StreamRun)
    (hm : e.replicationMethod = .fullTable ∨ e.replicationMethod = .logBased)
    (hpass : Pass e autoIncrement gtidConfig cuts st t) (hnow : t < final.now)
    (hdone : (syncStream e autoIncrement gtidConfig final st).error = none) :
    ((∃ version,
        closingVersion (syncStream e autoIncrement gtidConfig final st).messages =
          some version ∧
        ∀ messages ∈ cuts.map CutRun.messages ++
            [(syncStream e autoIncrement gtidConfig final st).messages],
          ∀ stream r w time, Message.record stream r w time ∈ messages → w = version) ↔
      ∀ c ∈ cuts, (∃ m ∈ c.messages, m.isRecord = true) →
        c.last.getBookmark e.tapStreamId "version" ≠ .null) ∧
    ∀ c ∈ cuts,
      (c.run.args.config.isSome → ∀ m ∈ c.messages, m.isRecord = false) ∧
      (e.replicationMethod = .fullTable →
        c.last.getBookmark e.tapStreamId "version" = .null) ∧
      (e.replicationMethod = .logBased → (∃ v ms ms', c.messages =
          .state v :: ms ++ .state c.last :: ms') →
        c.last.getBookmark e.tapStreamId "version" ≠ .null) := by
  have hversions := pass_versions hm hpass
  obtain ⟨ms, hfinal, hcarries⟩ := syncStream_carries hm autoIncrement gtidConfig final
    hversions.atStart
  have hclosing := syncStream_closes hm hdone
  refine ⟨⟨?_, ?_⟩, fun c hc => ⟨fun hconfig m hmc => ?_, (hversions.facts c hc).fullTable,
    (hversions.facts c hc).logBased⟩⟩
  · rintro ⟨version, hclose, hall⟩ c hc ⟨m, hmc, hrecord⟩
    rw [hclosing, Option.some.injEq] at hclose
    have hm' := (hversions.facts c hc).records m hmc hrecord
    cases m with
    | record s r w time =>
      have hw : w = version := hall c.messages (by simp; exact Or.inl ⟨c, hc, rfl⟩) s r w time hmc
      refine (hversions.next_eq_iff hnow hc).mp ?_
      rw [hclose, ← hw]
      exact hm'.1.symm
    | _ => simp [Message.isRecord] at hrecord
  · intro hkept
    refine ⟨_, hclosing, List.forall_mem_append.mpr ⟨?_, ?_⟩⟩
    · rintro messages hmessages s r w time hmem
      obtain ⟨c, hc, rfl⟩ := List.mem_map.mp hmessages
      have hne := hkept c hc ⟨_, hmem, rfl⟩
      have hw : w = c.streamVersion e := ((hversions.facts c hc).records _ hmem rfl).1
      exact hw.trans ((hversions.next_eq_iff hnow hc).mpr hne)
    · simp only [List.mem_singleton, forall_eq]
      intro s r w time hmem
      rw [hfinal] at hmem
      rcases List.mem_cons.mp hmem with hmem | hmem
      · cases hmem
      · exact (hcarries _ hmem).1
  · cases m with
    | record s r w time =>
      have hnone : c.run.args.config = none := ((hversions.facts c hc).records _ hmc rfl).2
      simp [hnone] at hconfig
    | _ => rfl

namespace Sample

/-- A run in RECORD mode over the keys 1, 2, 3. -/
def recordRun (now : Int) : StreamRun where
  server := serverOf ([1, 2, 3].map row) fun _ => none
  master := ⟨.ok (), .ok (), .ok (.str "bin.1", .int 100), .ok .null⟩
  args := ⟨[], .null, "2024-01-01T00:00:00Z", none⟩
  now := now

def sampleStream (method : String) (run : StreamRun) (st : State) : Outcome :=
  syncStream (streamOf method) (fun _ => true) ⟨false, true⟩ run st

def lastState (messages : List Message) : State :=
  ((messages.filterMap fun m => match m with
    | .state v => some v
    | _ => none).getLast?).getD State.empty

/-- The first run, cut off after the STATE of its query. -/
def cutAfterQuery (method : String) : CutRun where
  start := State.empty
  run := recordRun 7
  messages := (sampleStream method (recordRun 7) State.empty).messages.take 7
  last := lastState ((sampleStream method (recordRun 7) State.empty).messages.take 7)

theorem cutAfterQuery_pass (method : String)
    (hlast : (cutAfterQuery method).messages =
      (cutAfterQuery method).messages.take 6 ++ [.state (cutAfterQuery method).last])
    (hunfinished : ((cutAfterQuery method).last.getBookmark "db-t"
      "initial_full_table_complete").truthy = false) :
    Pass (streamOf method) (fun _ => true) ⟨false, true⟩ [cutAfterQuery method]
      (cutAfterQuery method).last 7 := by
  have hstart : Pass (streamOf method) (fun _ => true) ⟨false, true⟩ []
      (cutAfterQuery method).start 0 := .start 0 rfl
  refine hstart.cut (by decide : (0 : Int) < 7) (fun _ => requiresHistorical_of_not_hasState rfl) ?_
  exact ⟨⟨_, (List.take_append_drop 7 _).symm⟩, ⟨_, [], hlast, by simp⟩, hunfinished⟩

end Sample

open Sample

/-- A LOG_BASED snapshot that is cut off after the STATE of its query and resumed: the records
of the first run carry the version that the second run closes with. -/
theorem one_version_iff_logBased :
    ∃ version,
      closingVersion (sampleStream "LOG_BASED" (recordRun 8)
        (cutAfterQuery "LOG_BASED").last).messages = some version ∧
      ∀ messages ∈ [cutAfterQuery "LOG_BASED"].map CutRun.messages ++
          [(sampleStream "LOG_BASED" (recordRun 8) (cutAfterQuery "LOG_BASED").last).messages],
        ∀ stream r w time, Message.record stream r w time ∈ messages → w = version := by
  have hpass := cutAfterQuery_pass "LOG_BASED" (by decide) (by decide)
  refine (one_version_iff (streamOf "LOG_BASED") (fun _ => true) ⟨false, true⟩
    [cutAfterQuery "LOG_BASED"] (cutAfterQuery "LOG_BASED").last 7 (recordRun 8)
    (Or.inr (by decide)) hpass (by decide) (by decide)).1.mpr ?_
  simp only [List.mem_singleton, forall_eq]
  exact fun _ => by decide

/-- The same with FULL_TABLE: the first run writes the records of all rows with version 7, the
second closes the pass with version 8. -/
theorem full_pass_two_versions :
    IntegerKeyed (streamOf "FULL_TABLE") "id" ([1, 2, 3].map row) ∧
    Pass (streamOf "FULL_TABLE") (fun _ => true) ⟨false, true⟩ [cutAfterQuery "FULL_TABLE"]
      (cutAfterQuery "FULL_TABLE").last 7 ∧
    (sampleStream "FULL_TABLE" (recordRun 8) (cutAfterQuery "FULL_TABLE").last).error = none ∧
    ¬∃ version,
      closingVersion (sampleStream "FULL_TABLE" (recordRun 8)
        (cutAfterQuery "FULL_TABLE").last).messages = some version ∧
      ∀ messages ∈ [cutAfterQuery "FULL_TABLE"].map CutRun.messages ++
          [(sampleStream "FULL_TABLE" (recordRun 8) (cutAfterQuery "FULL_TABLE").last).messages],
        ∀ stream r w time, Message.record stream r w time ∈ messages → w = version := by
  refine ⟨integerKeyed (by decide) (by decide) (by decide),
    cutAfterQuery_pass _ (by decide) (by decide), by decide, ?_⟩
  intro h
  obtain ⟨version, hclose, hall⟩ := h
  have hfirst : Val.int 7 = version :=
    hall (cutAfterQuery "FULL_TABLE").messages (by simp) "db-t" (row 1) (.int 7)
      "2024-01-01T00:00:00Z" (by decide)
  have hclosing : closingVersion (sampleStream "FULL_TABLE" (recordRun 8)
      (cutAfterQuery "FULL_TABLE").last).messages = some (.int 8) := by decide
  rw [hclosing, ← hfirst] at hclose
  exact absurd hclose (by decide)

end TapMysql
