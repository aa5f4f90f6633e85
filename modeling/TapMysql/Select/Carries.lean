import TapMysql.Select.Published
import TapMysql.Select.Sync

/-!
# What a sync carries and keeps

All messages of a sync carry one version, and its STATE messages keep every bookmark key but the
two that name the window of a pass.
-/

namespace TapMysql

/-- RECORD and ACTIVATE_VERSION carry `version`, and STATE keeps `kept` under a key of the
stream's bookmark; in BATCH mode there is no RECORD. -/
def Message.Carries (tapStreamId key : String) (config : Option BatchConfig) (version kept : Val) :
    Message → Prop
  | .record _ _ w _ => w = version ∧ config = none
  | .activateVersion _ w => w = version
  | .state v => v.getBookmark tapStreamId key = kept
  | _ => True

variable {e : CatalogEntry} {columns : List String} {version kept : Val} {time : String}
  {config : Option BatchConfig} {f : Fetch} {st : State} {args : SyncArgs} {key : String}

theorem writeRecords_carries (kept : Val) {s : QueryState}
    (hwriter : s.writer = none → config = none) (records : List Record) :
    ((writeRecords e version time s records).2.1 = none → config = none) ∧
      ∀ m ∈ (writeRecords e version time s records).1,
        m.Carries e.tapStreamId key config version kept := by
  rw [writeRecords]
  cases hw : s.writer with
  | none =>
    refine ⟨fun _ => hwriter hw, fun m hm => ?_⟩
    obtain ⟨r, -, rfl⟩ := List.mem_map.mp hm
    exact ⟨rfl, hwriter hw⟩
  | some w =>
    refine ⟨fun hnone => absurd hnone (Option.some_ne_none _), fun m hm => ?_⟩
    simp only [BatchWriter.write, BatchWriter.flush] at hm
    split_ifs at hm
    · simp at hm
    · rw [List.mem_singleton.mp hm]
      trivial
    · simp at hm

/-- A bookmark update writes `last_pk_fetched` only, and only while the pass has a maximum key. -/
theorem advance_keeps (hm : e.replicationMethod = .fullTable ∨ e.replicationMethod = .logBased)
    (replicationKey : Val) (pkFetched : List String → Record → Except Err (Option Val))
    (st : State) (r : Record)
    (hkey : key ≠ "last_pk_fetched" ∨
      (st.getBookmark e.tapStreamId "max_pk_values").truthy = false) :
    (advance e replicationKey pkFetched st r).1.getBookmark e.tapStreamId key =
      st.getBookmark e.tapStreamId key := by
  have hadvance : advance e replicationKey pkFetched st r = advancePk e pkFetched st r := by
    rcases hm with hm | hm <;> simp [advance, hm]
  rw [hadvance, advancePk]
  split_ifs with ht
  · have hne : key ≠ "last_pk_fetched" := hkey.resolve_right (by simp [ht])
    split
    · rfl
    · rfl
    · simp [State.getBookmark_writeBookmark, hne.symm]
  · rfl

theorem syncQuery_carries
    (hm : e.replicationMethod = .fullTable ∨ e.replicationMethod = .logBased)
    (hkey : key ≠ "last_pk_fetched" ∨
      (st.getBookmark e.tapStreamId "max_pk_values").truthy = false) :
    (syncQuery e st columns version time config f).2.1.getBookmark e.tapStreamId key =
        st.getBookmark e.tapStreamId key ∧
      ∀ m ∈ (syncQuery e st columns version time config f).1,
        m.Carries e.tapStreamId key config version (st.getBookmark e.tapStreamId key) := by
  set kept := st.getBookmark e.tapStreamId key with hkept
  set maximum := st.getBookmark e.tapStreamId "max_pk_values" with hmaximum
  have hstate : ∀ c st', st'.getBookmark e.tapStreamId key = kept →
      ∀ m ∈ stateIf c st', m.Carries e.tapStreamId key config version kept := by
    intro c st' hst' m hmem
    rw [stateIf] at hmem
    split_ifs at hmem
    · rw [List.mem_singleton.mp hmem]
      exact hst'
    · simp at hmem
  rw [syncQuery_eq]
  refine Loop.run_invariant (I := fun s : QueryState =>
      s.st.getBookmark e.tapStreamId key = kept ∧
        s.st.getBookmark e.tapStreamId "max_pk_values" = maximum ∧
        (s.writer = none → config = none))
    (Q := fun t : State × Option Err => t.1.getBookmark e.tapStreamId key = kept)
    ?_ ?_ ?_ _ ⟨hkept.symm, hmaximum.symm, Option.map_eq_none_iff.mp⟩
  · rintro s unit em s' ⟨hs, hmax, hw⟩ hstep
    rcases queryStep_next hstep with ⟨-, rfl, rfl⟩ | ⟨records, last, st', -, -, hu, rfl, rfl⟩
    · exact ⟨⟨hs, hmax, hw⟩, by simp⟩
    · have hst' : st'.getBookmark e.tapStreamId key = kept := by
        rw [← hs, ← advance_keeps hm _ _ s.st last (by rwa [hmax]), ← bookmarkUpdate, hu]
      have hmax' : st'.getBookmark e.tapStreamId "max_pk_values" = maximum := by
        rw [← hmax, ← advance_keeps hm _ _ s.st last (Or.inl (by decide)), ← bookmarkUpdate, hu]
      obtain ⟨hw', hmsgs⟩ := writeRecords_carries kept hw records
      exact ⟨⟨hst', hmax', hw'⟩, List.forall_mem_append.mpr ⟨hmsgs, hstate _ _ hst'⟩⟩
  · rintro s unit em t ⟨hs, hmax, hw⟩ hstep
    obtain ⟨err, -, ⟨-, ht, rfl⟩ | ⟨records, last, -, -, hu, rfl⟩⟩ := queryStep_halt hstep
    · exact ⟨by rw [ht, hs], by simp⟩
    · refine ⟨?_, (writeRecords_carries kept hw records).2⟩
      rw [← hu, bookmarkUpdate, advance_keeps hm _ _ s.st last (by rwa [hmax]), hs]
  · intro s h
    obtain ⟨hs, -⟩ := h
    unfold queryEnd
    split
    · exact ⟨hs, by simp⟩
    · refine ⟨hs, List.forall_mem_append.mpr ⟨fun m hmem => ?_, hstate _ _ hs⟩⟩
      unfold lastFlush BatchWriter.flush at hmem
      split at hmem
      · split_ifs at hmem
        · simp at hmem
        · rw [List.mem_singleton.mp hmem]
          trivial
      · simp at hmem

/-- Everything that `o` wrote carries the version, and its state keeps the bookmark's. -/
def Outcome.Carries (tapStreamId key : String) (config : Option BatchConfig) (version kept : Val)
    (o : Outcome) : Prop :=
  o.state.getBookmark tapStreamId key = kept ∧
    ∀ m ∈ o.messages, m.Carries tapStreamId key config version kept

theorem runSelect_carries
    (hm : e.replicationMethod = .fullTable ∨ e.replicationMethod = .logBased)
    (hkey : key ≠ "last_pk_fetched" ∨
      (st.getBookmark e.tapStreamId "max_pk_values").truthy = false) (a : Attempt)
    (sql : SelectSql)
    (hkept : st.getBookmark e.tapStreamId key = kept) :
    (runSelect e args a st sql).Carries e.tapStreamId key args.config args.streamVersion kept := by
  subst hkept
  exact syncQuery_carries hm hkey

theorem failed_carries (err : Err) (hkept : st.getBookmark e.tapStreamId key = kept) :
    (Outcome.failed st err).Carries e.tapStreamId key config version kept :=
  ⟨hkept, by simp [Outcome.failed]⟩

namespace FullTable

theorem attempt_carries
    (hm : e.replicationMethod = .fullTable ∨ e.replicationMethod = .logBased)
    (hlast : key ≠ "last_pk_fetched") (hmax : key ≠ "max_pk_values") (args : SyncArgs)
    (autoIncrementing : Bool) (a : Attempt)
    (hkept : st.getBookmark e.tapStreamId key = kept) :
    (attempt e autoIncrementing args a st).Carries e.tapStreamId key args.config args.streamVersion
      kept := by
  rw [attempt]
  split
  · exact failed_carries _ hkept
  · split_ifs
    · split
      · exact failed_carries _ hkept
      · rename_i maximum _
        split_ifs
        · have hkept' : (st.writeBookmark e.tapStreamId "max_pk_values" maximum).getBookmark
              e.tapStreamId key = kept := by
            simpa [State.getBookmark_writeBookmark, hmax.symm] using hkept
          simp only
          split
          · exact failed_carries _ hkept'
          · exact runSelect_carries hm (Or.inl hlast) a _ hkept'
        · exact runSelect_carries hm (Or.inl hlast) a _ hkept
    · exact runSelect_carries hm (Or.inl hlast) a _ hkept

/-- What each attempt keeps, and writes in its messages, the whole loop does. -/
theorem attempts_invariant (config : Option BatchConfig) {body : Nat → State → Outcome}
    {I : State → Prop} {Q : Message → Prop}
    (hbody : ∀ n st, I st → I (body n st).state ∧ ∀ m ∈ (body n st).messages, Q m) (left n : Nat)
    (hst : I st) :
    I (attempts config body left n st).state ∧
      ∀ m ∈ (attempts config body left n st).messages, Q m := by
  induction left generalizing n st with
  | zero => exact ⟨hst, by simp [attempts]⟩
  | succ left ih =>
    have hone := hbody n st hst
    rw [attempts]
    split
    · exact hone
    · split_ifs
      · obtain ⟨hstate, hmsgs⟩ := ih (n + 1) hone.1
        exact ⟨hstate, List.forall_mem_append.mpr ⟨hone.2, hmsgs⟩⟩
      · exact hone

theorem syncTable_carries
    (hm : e.replicationMethod = .fullTable ∨ e.replicationMethod = .logBased)
    (hlast : key ≠ "last_pk_fetched") (hmax : key ≠ "max_pk_values")
    (hmem : key ∈ generateBookmarkKeys e) (autoIncrement : String → Bool)
    (server : Nat → Attempt) (hkept : st.getBookmark e.tapStreamId key = kept) :
    (syncTable e autoIncrement server args st).Carries e.tapStreamId key args.config
      args.streamVersion kept := by
  have hkept' : (whitelistBookmarkKeys (generateBookmarkKeys e) e.tapStreamId st).getBookmark
      e.tapStreamId key = kept := by
    rw [getBookmark_whitelistBookmarkKeys]
    simpa [hmem] using hkept
  obtain ⟨hstate, hmsgs⟩ := attempts_invariant args.config
    (fun n st (h : st.getBookmark e.tapStreamId key = kept) =>
      attempt_carries hm hlast hmax args (pksAreAutoIncrementing autoIncrement e) (server n) h)
    maxSyncRetries 0 hkept'
  have hfirst : ∀ m ∈ firstActivation e args
      (whitelistBookmarkKeys (generateBookmarkKeys e) e.tapStreamId st),
      m.Carries e.tapStreamId key args.config args.streamVersion kept := by
    intro m hmem
    rw [firstActivation] at hmem
    split_ifs at hmem
    · rw [List.mem_singleton.mp hmem]
      rfl
    · simp at hmem
  unfold syncTable retryLoop
  simp only
  split
  · exact ⟨hstate, List.forall_mem_append.mpr ⟨hfirst, hmsgs⟩⟩
  · refine ⟨?_, List.forall_mem_append.mpr
      ⟨List.forall_mem_append.mpr ⟨hfirst, hmsgs⟩, by simp [activateVersion, Message.Carries]⟩⟩
    simpa [clearPass, State.getBookmark_clearBookmark, hlast.symm, hmax.symm] using hstate

theorem version_mem : "version" ∈ generateBookmarkKeys e := mem_generateBookmarkKeys (by simp)

end FullTable

end TapMysql
