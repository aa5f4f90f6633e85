import TapMysql.Replication
import TapMysql.Select.Phase

/-!
# The turn of a stream in a run

A stream of the SELECT phase has one turn in a run. What comes before it and after it, the binlog
phase included, says nothing about the rows of the stream.
-/

namespace TapMysql

open Binlog (Effect)

section Turn

variable {S : SyncSource} {config : SyncConfig} {catalog : List CatalogEntry} {st st' v : State}
  {plan : SyncPlan} {pre : List Effect} {e : CatalogEntry} {s : String}

/-- The turn of a stream, which begins in the state `st`. -/
def SyncPlan.turn (plan : SyncPlan) (S : SyncSource) (config : SyncConfig) (e : CatalogEntry)
    (st : State) : Outcome :=
  syncStream e (S.autoIncrement e) config.gtidConfig (S.runOf plan.settings e) st

theorem syncBinlogStreams_elsewhere (hcat : Binlog.Resolved catalog) (hs : s ∉ idsOf catalog)
    (B : Binlog.BinlogSource) (config : Binlog.BinlogConfig) (st : State) :
    Elsewhere s (st.bookmarks.get? s) (Binlog.syncBinlogStreams B config catalog st).1 := by
  have heffects := (Binlog.syncBinlogStreams_effects B config catalog st).1
  constructor
  · intro m hm hdata
    cases m with
    | record t row version time =>
      obtain rfl : t = s := Option.some.inj hdata
      exact hs (Binlog.syncBinlogStreams_stream hcat hm)
    | batch => exact (heffects _ hm).elim
    | activateVersion => exact (heffects _ hm).elim
    | _ => cases hdata
  · intro v hv
    have hsame : Binlog.SameBut catalog st v := heffects _ hv
    exact hsame.others s hs

/-- A turn belongs to its stream: its rows do, and its STATEs name it. -/
theorem SyncPlan.turn_message (he : e.stream = e.tapStreamId) (hnames : S.NamesColumns)
    {m : Message} (hm : m ∈ (plan.turn S config e st).messages) :
    (∀ s, m.dataOf? = some s → s = e.tapStreamId) ∧
      ∀ v, m = .state v → v.currentlySyncing = some e.tapStreamId := by
  obtain ⟨announcement, ms, hmsgs, hann, hms, -⟩ := syncStream_turn e he (S.autoIncrement e)
    config.gtidConfig (show (S.runOf plan.settings e).NamesColumns from hnames e) st
  rw [SyncPlan.turn, hmsgs, List.cons_append, List.mem_cons, List.mem_append] at hm
  rcases hm with rfl | hm | hm
  · refine ⟨by simp [Message.dataOf?], ?_⟩
    rintro v ⟨⟩
    rfl
  · rcases hann with ⟨rfl, -⟩ | ⟨keys, rfl⟩
    · cases hm
    · rw [List.mem_singleton.mp hm]
      simp [schemaMessage, Message.dataOf?]
  · refine ⟨fun s hs => (hms m hm).dataOf? hs, ?_⟩
    rintro v rfl
    exact (hms _ hm).syncing

/-- The turn of the stream, with the effects around it, in what a run does from `st` on. -/
structure RunsTurn (s : String) (st : State) (turn : Outcome)
    (out : List Effect × Except Err State) (before after : List Effect) : Prop where
  effects : out.1 = before ++ turn.messages.map .message ++ after
  quietBefore : Elsewhere s (st.bookmarks.get? s) before
  quietAfter : Elsewhere s (turn.state.bookmarks.get? s) after
  failed : turn.error ≠ none → after = [] ∧ ∀ st', out.2 ≠ .ok st'
  state : ∀ st', out.2 = .ok st' → st'.bookmarks.get? s = turn.state.bookmarks.get? s

/-- A run comes to the turn of a stream of the SELECT phase, or it says nothing about it. -/
theorem doSync_split (hplan : planSync S config catalog st = .ok plan)
    (hdistinct : (idsOf catalog).Nodup) (hnodup : (idsOf plan.nonBinlog).Nodup)
    (hnames : S.NamesColumns) (he : e ∈ plan.nonBinlog) :
    (Elsewhere e.tapStreamId (st.bookmarks.get? e.tapStreamId) (doSync S config catalog st).1 ∧
      ∀ st', (doSync S config catalog st).2 = .ok st' → e.schema.keys.isEmpty = true) ∨
    ∃ st' before after, st'.bookmarks.get? e.tapStreamId = st.bookmarks.get? e.tapStreamId ∧
      RunsTurn e.tapStreamId st (plan.turn S config e st') (doSync S config catalog st) before
        after ∧
      (plan.turn S config e st').executed ⊆ (plan.select S config st).executed := by
  obtain ⟨hres, hcat⟩ := planSync_resolved hplan
  have hnot : e.tapStreamId ∉ idsOf plan.binlog := fun hmem =>
    Binlog.not_scheduled_of_binlog hdistinct hplan hmem (List.mem_map_of_mem he)
  -- what follows the SELECT phase
  obtain ⟨rest, hout, hrest, hfailed, hstate⟩ : ∃ rest, (doSync S config catalog st).1 =
      (plan.select S config st).messages.map .message ++ rest ∧
      Elsewhere e.tapStreamId ((plan.select S config st).state.bookmarks.get? e.tapStreamId) rest ∧
      ((plan.select S config st).error ≠ none → rest = [] ∧
        ∀ st', (doSync S config catalog st).2 ≠ .ok st') ∧
      ∀ st', (doSync S config catalog st).2 = .ok st' → st'.bookmarks.get? e.tapStreamId =
        (plan.select S config st).state.bookmarks.get? e.tapStreamId := by
    rcases doSync_cases S config catalog st with ⟨err, hfail, -⟩ | ⟨plan', hplan', hrest⟩
    · rw [hplan] at hfail
      cases hfail
    · obtain rfl : plan' = plan := Except.ok.inj (hplan'.symm.trans hplan)
      rcases hrest with ⟨err, -, hout⟩ | ⟨hnone, hout⟩
      · exact ⟨[], by rw [hout, List.append_nil], elsewhere_nil _ _,
          fun _ => ⟨rfl, fun st' h => by simp [hout] at h⟩, fun st' h => by simp [hout] at h⟩
      · refine ⟨_, by rw [hout], syncBinlogStreams_elsewhere hcat hnot _ _ _,
          fun h => absurd hnone h, fun st' hst' => ?_⟩
        rw [hout] at hst'
        exact ((Binlog.syncBinlogStreams_effects _ _ _ _).2 st' hst').others _ hnot
  have hruns : ∀ e ∈ plan.nonBinlog, (S.runOf plan.settings e).NamesColumns :=
    fun e _ => hnames e
  have hphase : (Elsewhere e.tapStreamId (st.bookmarks.get? e.tapStreamId)
        ((plan.select S config st).messages.map .message) ∧
      (plan.select S config st).state.bookmarks.get? e.tapStreamId =
        st.bookmarks.get? e.tapStreamId ∧
      ((plan.select S config st).error = none → e.schema.keys.isEmpty = true)) ∨
      ∃ st' before after, st'.bookmarks.get? e.tapStreamId = st.bookmarks.get? e.tapStreamId ∧
        HasTurn e.tapStreamId st (plan.turn S config e st') (plan.select S config st) before
          after := syncNonBinlogStreams_split hres hruns hnodup he st
  rcases hphase with ⟨hquiet, hkept, hempty⟩ | ⟨st', before, after, hst', hturn⟩
  · refine .inl ⟨hout ▸ hquiet.append (hkept ▸ hrest), fun st' hst' => ?_⟩
    by_contra hne
    exact (hfailed fun hnone => hne (hempty hnone)).2 st' hst'
  · refine .inr ⟨st', before, after ++ rest, hst', ⟨?_, hturn.quietBefore,
      hturn.quietAfter.append (hturn.state ▸ hrest), fun herr => ?_,
      fun st' h => (hstate st' h).trans hturn.state⟩, hturn.executed⟩
    · rw [hout, hturn.messages, List.append_assoc, List.append_assoc]
    · obtain ⟨hnil, hselect⟩ := hturn.failed herr
      obtain ⟨hrestNil, hraises⟩ := hfailed hselect
      exact ⟨by rw [hnil, hrestNil, List.append_nil], hraises⟩

/-- What a run says up to a STATE that comes after the turn of the stream. -/
structure PassedTurn (s : String) (st : State) (turn : Outcome) (pre : List Effect) (v : State) :
    Prop where
  split : ∃ before after, pre = before ++ turn.messages.map .message ++ after ∧
    Elsewhere s (st.bookmarks.get? s) before ∧ Elsewhere s (turn.state.bookmarks.get? s) after
  returned : turn.error = none
  bookmark : v.bookmarks.get? s = turn.state.bookmarks.get? s

/-- A STATE of a run that has another bookmark for a stream of the SELECT phase, and does not name
the stream, comes after a turn of the stream that returned. -/
theorem doSync_passedTurn (hplan : planSync S config catalog st = .ok plan)
    (hdistinct : (idsOf catalog).Nodup) (hnodup : (idsOf plan.nonBinlog).Nodup)
    (hnames : S.NamesColumns) (he : e ∈ plan.nonBinlog)
    (hpre : pre <+: (doSync S config catalog st).1) (hv : .message (.state v) ∈ pre)
    (hother : v.currentlySyncing ≠ some e.tapStreamId)
    (hchanged : v.bookmarks.get? e.tapStreamId ≠ st.bookmarks.get? e.tapStreamId) :
    ∃ st', st'.bookmarks.get? e.tapStreamId = st.bookmarks.get? e.tapStreamId ∧
      PassedTurn e.tapStreamId st (plan.turn S config e st') pre v ∧
      (plan.turn S config e st').executed ⊆ (plan.select S config st).executed := by
  have hres := (planSync_resolved hplan).1 e he
  rcases doSync_split hplan hdistinct hnodup hnames he with
    ⟨hquiet, -⟩ | ⟨st', before, after, hst', hturn, hexecuted⟩
  · exact absurd (hquiet.states v (hpre.subset hv)) hchanged
  · refine ⟨st', hst', ?_, hexecuted⟩
    rw [hturn.effects] at hpre
    have hnotBefore : .message (.state v) ∉ before := fun hin =>
      hchanged (hturn.quietBefore.states v hin)
    have hnotTurn : Effect.message (.state v) ∉
        (plan.turn S config e st').messages.map Effect.message :=
      fun hin => hother ((SyncPlan.turn_message hres hnames (message_mem_map.mp hin)).2 v rfl)
    rcases Binlog.prefix_append_cases hpre with hpre | ⟨after', rfl, hafter⟩
    · exact absurd (List.mem_append.mp (hpre.subset hv)) (not_or.mpr ⟨hnotBefore, hnotTurn⟩)
    · have hquiet : Elsewhere e.tapStreamId
          ((plan.turn S config e st').state.bookmarks.get? e.tapStreamId) after' := by
        obtain ⟨tail, htail⟩ := hafter
        exact (htail ▸ hturn.quietAfter).of_append_left
      have hin : .message (.state v) ∈ after' := by
        rcases List.mem_append.mp hv with hin | hin
        · exact absurd (List.mem_append.mp hin) (not_or.mpr ⟨hnotBefore, hnotTurn⟩)
        · exact hin
      refine ⟨⟨before, after', rfl, hturn.quietBefore, hquiet⟩, ?_, hquiet.states v hin⟩
      by_contra hne
      rw [(hturn.failed hne).1, List.prefix_nil] at hafter
      rw [hafter] at hin
      cases hin

end Turn

end TapMysql
