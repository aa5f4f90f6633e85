import TapMysql.Select.Turns

/-!
# What the SELECT phase makes of one stream

A stream has at most one turn in the phase. The messages before it and after it say nothing about
the rows of the stream, and their STATEs have the bookmark that the turn found, or that it left.
-/

namespace TapMysql

open Binlog (Effect)

/-- A message that says something about the rows of the stream. -/
def Message.dataOf? : Message → Option String
  | .record s _ _ _ => some s
  | .batch s _ _ => some s
  | .activateVersion s _ => some s
  | _ => none

/-- Nothing is said about the rows of the stream, and each STATE has this bookmark for it. -/
structure Elsewhere (s : String) (b : Option Bookmark) (out : List Effect) : Prop where
  data : ∀ m, .message m ∈ out → m.dataOf? ≠ some s
  states : ∀ v, .message (.state v) ∈ out → v.bookmarks.get? s = b

section Elsewhere

variable {s : String} {b : Option Bookmark} {out em : List Effect}

theorem elsewhere_nil (s : String) (b : Option Bookmark) : Elsewhere s b [] :=
  ⟨by simp, by simp⟩

theorem Elsewhere.append (h : Elsewhere s b out) (h' : Elsewhere s b em) :
    Elsewhere s b (out ++ em) := by
  constructor
  · intro m hm
    exact (List.mem_append.mp hm).elim (h.data m) (h'.data m)
  · intro v hv
    exact (List.mem_append.mp hv).elim (h.states v) (h'.states v)

theorem Elsewhere.of_append_left (h : Elsewhere s b (out ++ em)) : Elsewhere s b out :=
  ⟨fun m hm => h.data m (List.mem_append_left _ hm),
    fun v hv => h.states v (List.mem_append_left _ hv)⟩

theorem message_mem_map {m : Message} {ms : List Message} :
    .message m ∈ ms.map Effect.message ↔ m ∈ ms := by
  constructor
  · intro h
    obtain ⟨m', hm', heq⟩ := List.mem_map.mp h
    cases heq
    exact hm'
  · exact List.mem_map_of_mem

end Elsewhere

section Phase

variable {autoIncrement : CatalogEntry → String → Bool} {gtidConfig : GtidConfig}
  {runs : CatalogEntry → StreamRun} {streams : List CatalogEntry} {e : CatalogEntry}
  {st : State} {s : String}

theorem TurnMessage.dataOf? {m : Message} (h : TurnMessage e st m) (hm : m.dataOf? = some s) :
    s = e.tapStreamId := by
  cases m with
  | record t row version time => exact (Option.some.inj hm).symm.trans h.1
  | batch t format rows => exact (Option.some.inj hm).symm.trans h.1
  | activateVersion t version => exact (Option.some.inj hm).symm.trans h
  | _ => cases hm

/-- The turn of another stream. -/
theorem syncStream_elsewhere (he : e.stream = e.tapStreamId) (autoIncrement : String → Bool)
    (gtidConfig : GtidConfig) {run : StreamRun} (hnames : run.NamesColumns) (st : State)
    (hs : s ≠ e.tapStreamId) :
    Elsewhere s (st.bookmarks.get? s)
        ((syncStream e autoIncrement gtidConfig run st).messages.map .message) ∧
      (syncStream e autoIncrement gtidConfig run st).state.bookmarks.get? s =
        st.bookmarks.get? s := by
  obtain ⟨announcement, ms, hmsgs, hann, hms, hstate⟩ :=
    syncStream_turn e he autoIncrement gtidConfig hnames st
  refine ⟨⟨fun m hm hdata => ?_, fun v hv => ?_⟩, hstate.others s hs⟩
  · rw [message_mem_map, hmsgs, List.cons_append, List.mem_cons, List.mem_append] at hm
    rcases hm with rfl | hm | hm
    · cases hdata
    · rcases hann with ⟨rfl, -⟩ | ⟨keys, rfl⟩
      · cases hm
      · rw [List.mem_singleton.mp hm] at hdata
        cases hdata
    · exact hs ((hms m hm).dataOf? hdata)
  · rw [message_mem_map, hmsgs, List.cons_append, List.mem_cons, List.mem_append] at hv
    rcases hv with hv | hv | hv
    · cases hv
      rfl
    · rcases hann with ⟨rfl, -⟩ | ⟨keys, rfl⟩
      · cases hv
      · simp [schemaMessage] at hv
    · exact (hms _ hv).others s hs

/-- A phase without the stream. -/
theorem syncNonBinlogStreams_elsewhere (hres : Binlog.Resolved streams)
    (hnames : ∀ e ∈ streams, (runs e).NamesColumns) (hs : s ∉ idsOf streams) (st : State) :
    Elsewhere s (st.bookmarks.get? s)
      ((syncNonBinlogStreams autoIncrement gtidConfig runs streams st).messages.map .message) := by
  induction streams generalizing st with
  | nil =>
    constructor
    · intro m hm
      rw [message_mem_map, syncNonBinlogStreams, List.mem_singleton] at hm
      rw [hm]
      simp [Message.dataOf?]
    · intro v hv
      rw [message_mem_map, syncNonBinlogStreams, List.mem_singleton, Message.state.injEq] at hv
      rw [hv]
      rfl
  | cons e streams ih =>
    have hrest := ih (fun e' he' => hres e' (List.mem_cons_of_mem _ he'))
      (fun e' he' => hnames e' (List.mem_cons_of_mem _ he'))
      fun hmem => hs (List.mem_cons_of_mem _ hmem)
    obtain ⟨hturn, hstate⟩ := syncStream_elsewhere
      (hres e List.mem_cons_self) (autoIncrement e) gtidConfig (hnames e List.mem_cons_self) st
      (s := s) fun h => hs (by rw [h]; exact List.mem_cons_self)
    rw [syncNonBinlogStreams]
    split_ifs
    · exact hrest st
    · dsimp only
      split
      · exact hturn
      · rw [Outcome.andThen, List.map_append]
        exact hturn.append (hstate ▸ hrest _)

/-- The turn of the stream, with the messages around it, in what is done from `st` on. -/
structure HasTurn (s : String) (st : State) (turn o : Outcome) (before after : List Effect) :
    Prop where
  messages : o.messages.map .message = before ++ turn.messages.map .message ++ after
  quietBefore : Elsewhere s (st.bookmarks.get? s) before
  quietAfter : Elsewhere s (turn.state.bookmarks.get? s) after
  state : o.state.bookmarks.get? s = turn.state.bookmarks.get? s
  executed : turn.executed ⊆ o.executed
  failed : turn.error ≠ none → after = [] ∧ o.error ≠ none

/-- A phase comes to the turn of a stream, or it says nothing about it. -/
theorem syncNonBinlogStreams_split (hres : Binlog.Resolved streams)
    (hnames : ∀ e ∈ streams, (runs e).NamesColumns) (hnodup : (idsOf streams).Nodup)
    (he : e ∈ streams) (st : State) :
    (Elsewhere e.tapStreamId (st.bookmarks.get? e.tapStreamId)
        ((syncNonBinlogStreams autoIncrement gtidConfig runs streams st).messages.map .message) ∧
      (syncNonBinlogStreams autoIncrement gtidConfig runs streams st).state.bookmarks.get?
        e.tapStreamId = st.bookmarks.get? e.tapStreamId ∧
      ((syncNonBinlogStreams autoIncrement gtidConfig runs streams st).error = none →
        e.schema.keys.isEmpty = true)) ∨
    ∃ st' before after, st'.bookmarks.get? e.tapStreamId = st.bookmarks.get? e.tapStreamId ∧
      HasTurn e.tapStreamId st (syncStream e (autoIncrement e) gtidConfig (runs e) st')
        (syncNonBinlogStreams autoIncrement gtidConfig runs streams st) before after := by
  induction streams generalizing st with
  | nil => cases he
  | cons first streams ih =>
    have hres' : Binlog.Resolved streams := fun e' he' => hres e' (List.mem_cons_of_mem _ he')
    have hnames' : ∀ e' ∈ streams, (runs e').NamesColumns :=
      fun e' he' => hnames e' (List.mem_cons_of_mem _ he')
    obtain ⟨hnotin, hnodup'⟩ := List.nodup_cons.mp hnodup
    rw [syncNonBinlogStreams]
    rcases List.mem_cons.mp he with rfl | he
    · -- the later turns belong to other streams
      have hothers : ∀ st, Elsewhere e.tapStreamId (st.bookmarks.get? e.tapStreamId)
          ((syncNonBinlogStreams autoIncrement gtidConfig runs streams st).messages.map
            .message) := syncNonBinlogStreams_elsewhere hres' hnames' hnotin
      split_ifs
      · exact .inl ⟨hothers st, syncNonBinlogStreams_others hres' hnames' hnotin, fun _ => ‹_›⟩
      · refine .inr ⟨st, [], ?_⟩
        dsimp only
        split
        · rename_i err herr
          exact ⟨[], rfl, by simp, elsewhere_nil _ _, elsewhere_nil _ _, rfl,
            List.Subset.refl _, fun _ => ⟨rfl, by rw [herr]; simp⟩⟩
        · rename_i herr
          exact ⟨_, rfl, by simp [Outcome.andThen], elsewhere_nil _ _, hothers _,
            syncNonBinlogStreams_others hres' hnames' hnotin, List.subset_append_left _ _,
            fun h => absurd herr h⟩
    · have hne : e.tapStreamId ≠ first.tapStreamId := fun h =>
        hnotin (h ▸ List.mem_map_of_mem he)
      obtain ⟨hturn, hstate⟩ := syncStream_elsewhere
        (hres first List.mem_cons_self) (autoIncrement first) gtidConfig
        (hnames first List.mem_cons_self) st hne
      split_ifs
      · exact ih hres' hnames' hnodup' he st
      · dsimp only
        split
        · rename_i err herr
          exact .inl ⟨hturn, hstate, fun hnone => by simp [herr] at hnone⟩
        · rcases ih hres' hnames' hnodup' he
            (syncStream first (autoIncrement first) gtidConfig (runs first) st).state with
            ⟨hrest, hkept, hempty⟩ | ⟨st', before, after, hst', h⟩
          · left
            rw [Outcome.andThen, List.map_append]
            exact ⟨hturn.append (hstate ▸ hrest), hkept.trans hstate, hempty⟩
          · refine .inr ⟨st', _ ++ before, after, hst'.trans hstate, ?_,
              hturn.append (hstate ▸ h.quietBefore), h.quietAfter, h.state,
              fun x hx => List.mem_append_right _ (h.executed hx), h.failed⟩
            rw [Outcome.andThen, List.map_append, h.messages]
            simp

end Phase

end TapMysql
