import TapMysql.Binlog.NoSkip
import TapMysql.Binlog.TableLog
import TapMysql.Binlog.Turn

/-!
# The part of the log of a table that a run writes

A run in log file and position mode writes the records of the changes of a table from the position
of its reader on, up to some later place, and every STATE that it writes stores a position that it
has brought the table to. Other streams of the run may fail or be discovered again in between.
-/

namespace TapMysql.Binlog

open Loop (Reaches)

/-! ### What one delivery writes of it -/

/-- A RECORD message of the stream. -/
def Effect.recordOn? (s : String) : Effect → Option Message
  | .message (.record t row version time) =>
    if t = s then some (.record t row version time) else none
  | _ => none

def recordsOn (s : String) (out : List Effect) : List Message := out.filterMap (Effect.recordOn? s)

@[simp] theorem recordsOn_append (s : String) (out em : List Effect) :
    recordsOn s (out ++ em) = recordsOn s out ++ recordsOn s em :=
  List.filterMap_append

theorem recordsOn_eq_nil {s : String} {out : List Effect}
    (h : ∀ row version time, .message (.record s row version time) ∉ out) :
    recordsOn s out = [] := by
  rw [recordsOn, List.filterMap_eq_nil_iff]
  intro x hx
  cases x with
  | autoPosition g => rfl
  | message m =>
    cases m with
    | record t row version time =>
      have hne : t ≠ s := fun ht => h row version time (ht ▸ hx)
      simp [Effect.recordOn?, hne]
    | _ => rfl

namespace SyncedTable

variable {T : SyncedTable}

/-- The message is the RECORD of an edit. -/
def Shows (T : SyncedTable) (m : Message) (e : Edit T.Row) : Prop :=
  ∃ ev : T.Event, m = ev.messageOf e

theorem foldl_applyMessage_of_shows {ms : List Message} {es : List (Edit T.Row)}
    (h : List.Forall₂ T.Shows ms es) (target : T.Target) :
    ms.foldl applyMessage target = target.writeAll (es.map (Edit.map Row.record)) := by
  induction h generalizing target with
  | nil => rfl
  | cons hm _ ih =>
    obtain ⟨ev, rfl⟩ := hm
    rw [List.foldl_cons, applyMessage_messageOf, ih]
    rfl

end SyncedTable

section Delivery

open SyncedTable

variable {T : SyncedTable} {H : TableLog T} {env : Env} {v v' : Vars} {d : Delivery}
  {ev : RowsEvent} {em : List Effect}

/-- At a loop head the table has its entry, and every entry writes on its own stream. -/
structure Follows (T : SyncedTable) (env : Env) (v : Vars) : Prop where
  lib : env.lib = T.lib
  entry : v.streamsMap.get? T.streamId = some T.entry
  streams : ∀ t entry, v.streamsMap.get? t = some entry → entry.catalogEntry.stream = t

theorem selected?_only {ev : RowsEvent} :
    d.event.selected? T.only = some ev ↔ d.event = .rows ev ∧ ev.tapStreamId = T.streamId := by
  have hkey : ∀ t, T.only.contains t = true ↔ t = T.streamId := by
    intro t
    rw [Dict.contains_iff, only, Dict.mem_keys_set]
    simp [Dict.keys, Dict.empty]
  unfold Event.selected?
  cases hd : d.event with
  | rows ev' =>
    simp only [Event.rows.injEq]
    split_ifs with hin
    · simp only [Option.some.injEq]
      constructor
      · rintro rfl
        exact ⟨rfl, (hkey _).mp hin⟩
      · exact fun h => h.1
    · constructor
      · intro h
        cases h
      · rintro ⟨rfl, h⟩
        exact absurd ((hkey _).mpr h) hin
  | _ => simp

theorem Follows.placed (h : Follows T env v) (hT : T.Settled)
    (hd : d.event.selected? T.only = some ev) (hcolumns : ev.columns = T.dbColumns)
    (hend : reachedEnd env d = false) :
    ∃ vars, PlacedRows env v d ev T.entry ⟨[], T.entry, vars⟩ := by
  obtain ⟨hrows, hid⟩ := selected?_only.mp hd
  have hplace : ∃ vars, placeColumns env (takePosition v d) ev.tapStreamId T.entry ev =
      .ok ⟨[], T.entry, vars⟩ := by
    unfold placeColumns
    dsimp only
    rw [hT.known ev hcolumns]
    rw [Bool.not_false, if_pos rfl]
    split_ifs
    · exact ⟨_, rfl⟩
    · exact ⟨_, rfl⟩
  obtain ⟨vars, hp⟩ := hplace
  exact ⟨vars, hend, hrows, hid ▸ h.entry, hT.named ev hcolumns, hp⟩

theorem recordsOn_states (s : String) {out : List Effect}
    (h : ∀ x ∈ out, ∃ st, x = .message (.state st)) : recordsOn s out = [] := by
  apply recordsOn_eq_nil
  intro row version time hx
  obtain ⟨st, hst⟩ := h _ hx
  cases hst

theorem recordsOn_messages {s : String} {ms : List Message}
    (h : ∀ m ∈ ms, ∃ row version time, m = .record s row version time) :
    recordsOn s (ms.map .message) = ms := by
  induction ms with
  | nil => rfl
  | cons m ms ih =>
    obtain ⟨row, version, time, rfl⟩ := h m List.mem_cons_self
    have hrest := ih fun m' hm' => h m' (List.mem_cons_of_mem _ hm')
    unfold recordsOn at hrest ⊢
    rw [List.map_cons, List.filterMap_cons, hrest, Effect.recordOn?, if_pos rfl]

/-- A delivery before the captured end writes the records of its changes of the table. -/
theorem Follows.emitted (h : Follows T env v) (hT : T.Settled)
    (hrows : ∀ ev, d.event.selected? T.only = some ev → ev = T.rowsOf (H.change ev) ev.timestamp)
    (hend : reachedEnd env d = false) :
    List.Forall₂ T.Shows (recordsOn T.streamId (iteration env v d).emitted)
      (H.editsOf (selectedRows T.only [d])) := by
  cases hd : d.event.selected? T.only with
  | none =>
    -- whatever is written then is on another stream
    have hnil : selectedRows T.only [d] = [] := by simp [selectedRows, hd]
    have hnone : recordsOn T.streamId (iteration env v d).emitted = [] := by
      apply recordsOn_eq_nil
      intro row version time hx
      obtain ⟨ev, entry, p, -, hev, hfound, hnamed, hp, hstream, -⟩ := record_emitted hx
      have hplaced : PlacedRows env v d ev entry p := ⟨hend, hev, hfound, hnamed, hp⟩
      have hid : ev.tapStreamId = T.streamId := by
        rw [← hstream]
        rcases hplaced.entry_cases with ⟨hentry, -⟩ | ⟨new, hreplaces, hentry, -⟩
        · rw [hentry, h.streams _ _ hfound]
        · rw [hentry]
          exact hreplaces.stream.symm
      rw [selected?_only.mpr ⟨hev, hid⟩] at hd
      cases hd
    rw [hnil, hnone]
    exact .nil
  | some ev =>
    obtain ⟨hev, hid⟩ := selected?_only.mp hd
    have hcolumns : ev.columns = T.dbColumns := by
      rw [hrows ev hd]
      rfl
    obtain ⟨vars, hplaced⟩ := h.placed hT hd hcolumns hend
    obtain ⟨tail, hem, htail⟩ := hplaced.emitted
    let written : T.Event := ⟨H.change ev, ev.timestamp, vars.state, d.now, d.millis⟩
    have hrecords : Placed.records ⟨[], T.entry, vars⟩ env d ev =
        (H.change ev).edits.map written.messageOf := by
      have hhandled := congrArg Prod.fst written.handled_eq
      rw [Event.handled, show written.rowsEvent = ev from (hrows ev hd).symm] at hhandled
      rw [Placed.records, h.lib]
      exact hhandled
    have hstream : T.entry.catalogEntry.stream = T.streamId := h.streams _ _ h.entry
    have hown : ∀ m ∈ (H.change ev).edits.map written.messageOf,
        ∃ row version time, m = .record T.streamId row version time := by
      intro m hm
      obtain ⟨e, -, rfl⟩ := List.mem_map.mp hm
      exact ⟨_, _, _, by rw [Event.messageOf, hstream]⟩
    have hsaid : recordsOn T.streamId (iteration env v d).emitted =
        (H.change ev).edits.map written.messageOf := by
      rw [hem, recordsOn_append, recordsOn_append, recordsOn_states _ htail, hrecords,
        recordsOn_messages hown, List.append_nil]
      rfl
    have hedits : H.editsOf (selectedRows T.only [d]) = (H.change ev).edits := by
      simp [TableLog.editsOf, selectedRows, hd]
    rw [hsaid, hedits, List.forall₂_map_left_iff, List.forall₂_same]
    exact fun e _ => ⟨written, rfl⟩

/-- The table keeps its entry, as no event of it leads to a discovery. -/
theorem Follows.next (h : Follows T env v) (hT : T.Settled)
    (hrows : ∀ ev, d.event.selected? T.only = some ev → ev.columns = T.dbColumns)
    (hs : iteration env v d = .next em v') : Follows T env v' := by
  have hnot : ¬ ∃ entry new, Replaces env v d T.streamId entry new := by
    rintro ⟨entry, new, ⟨-, ev, found, hev, hid, hfound, -, hdiff, hrun, -⟩, -⟩
    obtain rfl : found = T.entry := Option.some.inj (hfound.symm.trans h.entry)
    have hcolumns := hrows ev (selected?_only.mpr ⟨hev, hid⟩)
    rw [hT.known ev hcolumns] at hrun
    cases hrun
  refine ⟨h.lib, ?_, fun t entry hget => ?_⟩
  · rw [iteration_map_of_not_replaces hs hnot]
    exact h.entry
  · rcases iteration_map hs with hmap | ⟨t', old, new, hreplaces, hmap⟩
    · exact h.streams t entry (hmap ▸ hget)
    · rw [hmap, Dict.get?_set] at hget
      split_ifs at hget with ht
      · cases hget
        exact ht ▸ hreplaces.stream
      · exact h.streams t entry hget

end Delivery

/-! ### What a run writes of it -/

section Run

open SyncedTable

variable {T : SyncedTable} {H : TableLog T} {env : Env} {v₀ v : Vars} {p c : Position}
  {l l₁ l₂ : List LogEntry} {ds : List Delivery} {out pre : List Effect} {failure : Option Err}

theorem ReadsTable.rows (h : ReadsTable H p l) {d : Delivery} (hd : d ∈ deliveries false l)
    {ev : RowsEvent} (hsel : d.event.selected? T.only = some ev) :
    ev = T.rowsOf (H.change ev) ev.timestamp := by
  obtain ⟨e, he, hde⟩ := mem_of_delivery hd
  have hrow : e.selectedRow T.only = some ev := by
    rw [← selectedRow_delivery false T.only e, hde]
    exact hsel
  exact H.rows e (h.logged e he (by simp [TableLog.owns, hrow])) ev hrow

theorem reaches_shows (hT : T.Settled) (h₀ : Follows T env v₀)
    (hrows : ∀ d ∈ ds, ∀ ev, d.event.selected? T.only = some ev →
      ev = T.rowsOf (H.change ev) ev.timestamp)
    (hr : Reaches (iteration env) v₀ ds out v) :
    Follows T env v ∧ (∀ d ∈ ds, reachedEnd env d = false) ∧
      List.Forall₂ T.Shows (recordsOn T.streamId out) (H.editsOf (selectedRows T.only ds)) := by
  induction hr with
  | start => exact ⟨h₀, by simp, .nil⟩
  | @step ds out v d em v' hr hs ih =>
    obtain ⟨hv, hend, hshows⟩ := ih fun d' hd' => hrows d' (List.mem_append_left _ hd')
    have hd := hrows d (by simp)
    have hbefore : reachedEnd env d = false := (iteration_next hs).1
    have hem := hv.emitted hT hd hbefore
    rw [hs] at hem
    refine ⟨hv.next hT (fun ev hev => ?_) hs, ?_, ?_⟩
    · rw [hd ev hev]
      rfl
    · intro d' hd'
      rcases List.mem_append.mp hd' with hd' | hd'
      · exact hend d' hd'
      · exact List.mem_singleton.mp hd' ▸ hbefore
    · rw [recordsOn_append, selectedRows_append, TableLog.editsOf, List.flatMap_append]
      exact List.rel_append hshows hem

theorem reaches_edits (hT : T.Settled) (h₀ : Follows T env v₀) (hread : ReadsTable H p l)
    (hl : l₁ <+: l) (hr : Reaches (iteration env) v₀ (deliveries false l₁) out v) :
    Follows T env v ∧ (∀ d ∈ deliveries false l₁, reachedEnd env d = false) ∧
      List.Forall₂ T.Shows (recordsOn T.streamId out) (H.edits l₁) := by
  rw [TableLog.edits_eq_deliveries]
  refine reaches_shows hT h₀ (fun d hd ev hev => ?_) hr
  obtain ⟨rest, rfl⟩ := hl
  refine hread.rows (d := d) ?_ hev
  rw [deliveries_append]
  exact List.mem_append_left _ hd

/-- How far a run goes: to the end of what its reader delivers, to the first event at or behind
the captured end, or to an exception. -/
def StopsAt (env : Env) (failure : Option Err) (l₂ : List LogEntry) : Prop :=
  (l₂ = [] ∧ failure = none) ∨ ∃ e rest, l₂ = e :: rest ∧ env.endPosition ≤ e.readerPosition

/-- A run that wrote `out` returned the state `st`, after it had taken `l₁` and not `l₂`. -/
structure Returns (env : Env) (v₀ : Vars) (failure : Option Err) (l₁ l₂ : List LogEntry)
    (out : List Effect) (st : State) : Prop where
  stops : StopsAt env failure l₂
  reaches : ∃ v, Reaches (iteration env) v₀ (deliveries false l₁) out v ∧
    (finish env v = .ok st ∨
      finish env { v with logFile := some env.endLogFile, logPos := some env.endLogPos } = .ok st)

/-- A run writes the records of a first part of what its reader delivers. -/
theorem run_shows (hT : T.Settled) (h₀ : Follows T env v₀) (hread : ReadsTable H p l)
    (failure : Option Err) :
    ∃ l₁ l₂, l = l₁ ++ l₂ ∧ (∀ d ∈ deliveries false l₁, reachedEnd env d = false) ∧
      List.Forall₂ T.Shows (recordsOn T.streamId
        (Loop.run (iteration env) (readerEnd failure) (deliveries false l) v₀).1) (H.edits l₁) ∧
      ∀ st, resultOf env (Loop.run (iteration env) (readerEnd failure) (deliveries false l)
        v₀).2 = .ok st → Returns env v₀ failure l₁ l₂
          (Loop.run (iteration env) (readerEnd failure) (deliveries false l) v₀).1 st := by
  rcases Loop.run_cases (iteration env) (readerEnd failure) (deliveries false l) v₀ with
    ⟨out, v, hr, hrun⟩ | ⟨a, d, b, out, v, em, t, hds, hr, hs, hrun⟩
  · obtain ⟨-, hend, hshows⟩ := reaches_edits hT h₀ hread List.prefix_rfl hr
    refine ⟨l, [], by simp, hend, ?_, fun st hst => ?_⟩
    · rw [hrun]
      cases failure <;> simpa [readerEnd] using hshows
    · rw [hrun] at hst ⊢
      cases failure with
      | none => exact ⟨.inl ⟨rfl, rfl⟩, v, by simpa [readerEnd] using hr, .inl hst⟩
      | some err => cases hst
  · obtain ⟨l₁, e, l₂, rfl, rfl, hde, -⟩ := deliveries_split hds
    obtain ⟨hv, hend, hshows⟩ := reaches_edits hT h₀ hread (List.prefix_append _ _) hr
    rw [hrun]
    rcases iteration_halt hs with ⟨hreach, rfl, rfl⟩ | ⟨hbefore, rfl, err, rfl⟩
    · rw [List.append_nil]
      refine ⟨l₁, e :: l₂, rfl, hend, hshows, fun st hst => ⟨.inr ⟨e, l₂, rfl, ?_⟩, v, hr, .inr hst⟩⟩
      rw [← delivery_position hde]
      exact reachedEnd_iff.mp hreach
    · -- an event that raises has written all of its records of the table
      have hd : d ∈ deliveries false (l₁ ++ e :: l₂) := by
        rw [hds]
        simp
      have hem := hv.emitted hT (fun ev hev => hread.rows hd hev) hbefore
      rw [hs, Step.emitted] at hem
      refine ⟨l₁ ++ [e], l₂, by simp, ?_, ?_, fun st hst => by cases hst⟩
      · rw [deliveries_concat hde]
        intro d' hd'
        rcases List.mem_append.mp hd' with hd' | hd'
        · exact hend d' hd'
        · exact List.mem_singleton.mp hd' ▸ hbefore
      · have hlast : H.edits [e] = H.editsOf (selectedRows T.only [d]) := by
          rw [H.edits_eq_deliveries, deliveries, List.filterMap_cons_some hde]
          rfl
        rw [recordsOn_append, TableLog.edits_append, hlast]
        exact List.rel_append hshows hem

theorem owned_before (hend : ∀ d ∈ deliveries false l₁, reachedEnd env d = false) {x : LogEntry}
    (hx : x ∈ l₁) (howns : TableLog.owns T x = true) : x.readerPosition < env.endPosition := by
  obtain ⟨ev, hev⟩ := Option.isSome_iff_exists.mp howns
  rw [← selectedRow_delivery false] at hev
  obtain ⟨d, hd, -⟩ := Option.bind_eq_some_iff.mp hev
  have hnot := hend d (List.mem_filterMap.mpr ⟨x, hx, hd⟩)
  rw [← delivery_position hd]
  by_contra hle
  rw [reachedEnd_iff.mpr (not_lt.mp hle)] at hnot
  cases hnot

/-- The changes that a run writes are those from its start to a later place. -/
theorem ReadsTable.upTo_append_prefix (hread : ReadsTable H p (l₁ ++ l₂)) (hpc : p ≤ c)
    (hbefore : ∀ x ∈ l₁, TableLog.owns T x = true → x.readerPosition ≤ c) :
    H.upTo p ++ H.edits l₁ <+: H.upTo c := by
  rcases List.eq_nil_or_concat l₁ with rfl | ⟨l, e, rfl⟩
  · rw [show H.edits [] = [] from rfl, List.append_nil]
    exact H.upTo_prefix hpc
  · have he : (l.concat e).getLast? = some e := by simp
    rw [H.upTo_append hread he]
    have hmin : H.upTo e.readerPosition = H.upTo (min e.readerPosition c) := by
      apply H.owned_eq_of_mem_iff (H.ordered.filter _) (H.ordered.filter _)
      intro x hx
      rw [H.mem_upTo, H.mem_upTo, le_min_iff]
      refine ⟨fun ⟨hlog, hle⟩ => ⟨hlog, hle, ?_⟩, fun h => ⟨h.1, h.2.1⟩⟩
      rcases le_or_gt x.readerPosition p with hxp | hpx
      · exact hxp.trans hpc
      · have hin := hread.complete e (by simp) x hlog hx hpx hle
        refine hbefore x ((List.mem_append.mp hin).resolve_right fun hx₂ => ?_) hx
        have hlt := hread.ordered.behind (by simp : e ∈ l.concat e) x hx₂
          (TableLog.isRows_of_owns hx)
        exact absurd hlt (not_lt_of_ge hle)
    rw [hmin]
    exact H.upTo_prefix (min_le_right _ _)

/-- The messages `pre` show the changes of the table behind `p`, in the order of the log up to `c`
and as far as they go, and no STATE among them has the stream `t` beyond that. -/
structure Replayed (H : TableLog T) (t : String) (p c : Position) (pre : List Effect) : Prop where
  shows : List.Forall₂ T.Shows (recordsOn T.streamId pre)
    (((H.upTo c).drop (H.upTo p).length).take (recordsOn T.streamId pre).length)
  states : ∀ st, .message (.state st) ∈ pre → ∃ q, storedPosition st t = some q ∧
    (H.upTo q).length ≤ (H.upTo p).length + (recordsOn T.streamId pre).length

theorem recordsOn_mono (s : String) (h : pre <+: out) : recordsOn s pre <+: recordsOn s out :=
  h.filterMap _

theorem edits_prefix_drop (hread : ReadsTable H p (l₁ ++ l₂)) (hc : env.endPosition ≤ c)
    (hend : ∀ d ∈ deliveries false l₁, reachedEnd env d = false) :
    H.edits l₁ <+: (H.upTo c).drop (H.upTo p).length := by
  have hbefore : ∀ x ∈ l₁, TableLog.owns T x = true → x.readerPosition < c :=
    fun x hx howns => (owned_before hend hx howns).trans_le hc
  rcases le_or_gt p c with hpc | hcp
  · obtain ⟨rest, hrest⟩ := hread.upTo_append_prefix hpc fun x hx hown => (hbefore x hx hown).le
    refine ⟨rest, ?_⟩
    rw [← hrest, List.append_assoc, List.drop_left]
  · -- the reader starts behind the end
    have hnil : l₁.filter (TableLog.owns T) = [] := by
      apply List.filter_eq_nil_iff.mpr
      intro x hx howns
      have hafter := hread.ordered.after_start x (List.mem_append_left _ hx)
      exact absurd (hcp.trans_le hafter.1) (hbefore x hx howns).not_gt
    rw [← H.edits_filter_owns, hnil]
    exact List.nil_prefix

theorem run_replayed (hT : T.Settled) (h₀ : Follows T env v₀) (hread : ReadsTable H p l)
    (hc : env.endPosition ≤ c) {t : String} (ht : t ∈ v₀.streamsMap.keys)
    (hpre : pre <+:
      (Loop.run (iteration env) (readerEnd failure) (deliveries false l) v₀).1) :
    Replayed H t p c pre := by
  obtain ⟨l₁, l₂, rfl, hend, hshows, -⟩ := run_shows hT h₀ hread failure
  have hedits := edits_prefix_drop hread hc hend
  have hshown := recordsOn_mono T.streamId hpre
  have hn : (recordsOn T.streamId pre).length ≤ (H.edits l₁).length :=
    hshows.length_eq ▸ hshown.length_le
  constructor
  · have htake := List.forall₂_take (recordsOn T.streamId pre).length hshows
    rw [← List.prefix_iff_eq_take.mp hshown] at htake
    rwa [List.prefix_iff_eq_take.mp hedits, List.take_take, min_eq_left hn] at htake
  · intro st hst
    obtain ⟨x, y, rfl⟩ := List.append_of_mem hst
    obtain ⟨z, hz⟩ := hpre
    rw [List.append_assoc, List.cons_append] at hz
    obtain ⟨k₁, e, k₂, hl, hcheck⟩ := state_message_entry hz.symm
    obtain ⟨v, hr⟩ := hcheck.reaches
    have hsplit : l₁ ++ l₂ = (k₁ ++ [e]) ++ k₂ := by
      rw [hl]
      simp
    obtain ⟨-, -, hshows'⟩ := reaches_edits hT h₀ hread ⟨k₂, hsplit.symm⟩ hr
    have hq := H.upTo_append (hsplit ▸ hread) (by simp : (k₁ ++ [e]).getLast? = some e)
    refine ⟨e.readerPosition, hcheck.stored t ht, ?_⟩
    have hsub : (recordsOn T.streamId (x ++ [.message (.state st)])).length ≤
        (recordsOn T.streamId (x ++ .message (.state st) :: y)).length :=
      (recordsOn_mono _ ⟨y, by simp⟩).length_le
    rw [← hq, List.length_append, ← hshows'.length_eq]
    omega

/-- A run that returns has written the whole log of the table up to the captured end, where no
change of the table ends. -/
theorem run_complete (hT : T.Settled) (h₀ : Follows T env v₀) (hread : ReadsTable H p l)
    (hpc : p ≤ env.endPosition)
    (hend : ∀ x ∈ H.log, TableLog.owns T x = true → x.readerPosition ≠ env.endPosition)
    (hlast : failure = none → ∀ x ∈ H.log, TableLog.owns T x = true → p < x.readerPosition →
      x.readerPosition ≤ env.endPosition → x ∈ l) {st : State}
    (hret : resultOf env (Loop.run (iteration env) (readerEnd failure) (deliveries false l)
      v₀).2 = .ok st) :
    List.Forall₂ T.Shows (recordsOn T.streamId
        (Loop.run (iteration env) (readerEnd failure) (deliveries false l) v₀).1)
      ((H.upTo env.endPosition).drop (H.upTo p).length) := by
  obtain ⟨l₁, l₂, rfl, hbefore, hshows, hreturns⟩ := run_shows hT h₀ hread failure
  have hafter : ∀ x ∈ l₁, x.After p := fun x hx =>
    hread.ordered.after_start x (List.mem_append_left _ hx)
  have hall : H.upTo p ++ H.edits l₁ = H.upTo env.endPosition := by
    rw [TableLog.upTo, ← TableLog.edits_append, TableLog.upTo]
    apply H.owned_eq_of_mem_iff
    · refine List.pairwise_append.mpr ⟨H.ordered.filter _, hread.ordered.left, fun x hx y hy => ?_⟩
      have hxp := (H.mem_upTo.mp hx).2
      exact ⟨hxp.trans (hafter y hy).1, fun hr => hxp.trans_lt ((hafter y hy).2 hr)⟩
    · exact H.ordered.filter _
    · intro x hx
      rw [List.mem_append, H.mem_upTo, H.mem_upTo]
      constructor
      · rintro (⟨hlog, hxp⟩ | hxl)
        · exact ⟨hlog, hxp.trans hpc⟩
        · exact ⟨hread.logged x (List.mem_append_left _ hxl) hx, (owned_before hbefore hxl hx).le⟩
      · rintro ⟨hlog, hxe⟩
        rcases le_or_gt x.readerPosition p with hxp | hpx
        · exact .inl ⟨hlog, hxp⟩
        · right
          rcases (hreturns st hret).stops with ⟨rfl, hnone⟩ | ⟨e, rest, rfl, hge⟩
          · simpa using hlast hnone x hlog hx hpx hxe
          · have hin := hread.complete e (by simp) x hlog hx hpx (hxe.trans hge)
            refine (List.mem_append.mp hin).resolve_right fun hx₂ => hend x hlog hx ?_
            -- an event that the loop has not taken ends at the captured end or behind it
            apply le_antisymm hxe
            rcases List.mem_cons.mp hx₂ with rfl | hx₂
            · exact hge
            · have hpair := (List.pairwise_append.mp hread.ordered.pairwise).2.1
              exact hge.trans ((List.pairwise_cons.mp hpair).1 x hx₂).1
  rw [← hall, List.drop_left]
  exact hshows

theorem keptByUpdates_stored (streams : List String) (t : String) :
    KeptByUpdates streams (fun _ => True) fun st => ∃ q, storedPosition st t = some q := by
  rintro m - st f k gtid st' - ⟨q, hq⟩ hu
  rw [storedPosition_updateBookmarks hu]
  split_ifs
  · exact ⟨_, rfl⟩
  · exact ⟨q, hq⟩

/-- A position that the run passed is not beyond what it has written. -/
theorem length_upTo_le (hread : ReadsTable H p (l₁ ++ l₂)) {d : Delivery}
    (hd : d ∈ deliveries false l₁) {q : Position} (hq : d.Marks q) :
    (H.upTo q).length ≤ (H.upTo p).length + (H.edits l₁).length := by
  obtain ⟨e, he, hde⟩ := mem_of_delivery hd
  obtain ⟨k₁, k₂, rfl⟩ := List.append_of_mem he
  have hsplit : k₁ ++ e :: k₂ ++ l₂ = (k₁ ++ [e]) ++ (k₂ ++ l₂) := by simp
  have hupTo := H.upTo_append (hsplit ▸ hread) (by simp : (k₁ ++ [e]).getLast? = some e)
  rw [delivery_marks hde hq, ← hupTo, List.length_append,
    show k₁ ++ e :: k₂ = (k₁ ++ [e]) ++ k₂ by simp, TableLog.edits_append H (k₁ ++ [e]) k₂,
    List.length_append]
  omega

/-- The state that a run returns has the stream of its start no further than it has written. -/
theorem run_final (hT : T.Settled) (h₀ : Follows T env v₀) (hread : ReadsTable H p l)
    (hend : ∀ x ∈ H.log, TableLog.owns T x = true → x.readerPosition ≠ env.endPosition)
    (hlast : failure = none → ∀ x ∈ H.log, TableLog.owns T x = true → p < x.readerPosition →
      x.readerPosition ≤ env.endPosition → x ∈ l) {t : String}
    (hp : storedPosition v₀.state t = some p) (hfile : v₀.logFile = none) {st : State}
    (hret : resultOf env (Loop.run (iteration env) (readerEnd failure) (deliveries false l)
      v₀).2 = .ok st) :
    ∃ q, storedPosition st t = some q ∧ (H.upTo q).length ≤ (H.upTo p).length +
      (recordsOn T.streamId
        (Loop.run (iteration env) (readerEnd failure) (deliveries false l) v₀).1).length := by
  obtain ⟨l₁, l₂, rfl, hbefore, hshows, hreturns⟩ := run_shows hT h₀ hread failure
  obtain ⟨v, hr, hfinish⟩ := (hreturns st hret).reaches
  have hmarked := reaches_marked hr
  have hhead : HeadKeeps v₀.streamsMap (fun st => ∃ q, storedPosition st t = some q) v :=
    reaches_keeps (keptByUpdates_stored _ t) hr (fun d _ => ⟨trivial, fun _ _ _ => trivial⟩)
      ⟨rfl, p, hp⟩
  have hcaptured : (H.upTo env.endPosition).length ≤ (H.upTo p).length + (recordsOn T.streamId
      (Loop.run (iteration env) (readerEnd failure) (deliveries false (l₁ ++ l₂)) v₀).1).length := by
    rcases le_or_gt p env.endPosition with hpc | hcp
    · have hcomplete := run_complete hT h₀ hread hpc hend hlast hret
      have hlength := hcomplete.length_eq
      rw [List.length_drop] at hlength
      omega
    · exact (H.upTo_prefix hcp.le).length_le.trans (Nat.le_add_right _ _)
  have hstored : ∀ q, storedPosition v.state t = some q →
      (H.upTo q).length ≤ (H.upTo p).length + (H.edits l₁).length := by
    intro q hq
    rcases hmarked.stored t q hq with h | ⟨d, hd, hmark⟩
    · obtain rfl : p = q := Option.some.inj (hp.symm.trans h)
      exact Nat.le_add_right _ _
    · exact length_upTo_le hread hd hmark
  rw [hshows.length_eq] at hcaptured ⊢
  have hfinal : ∀ v', v'.streamsMap.keys = v.streamsMap.keys → v'.state = v.state →
      (∀ f n, v'.logFile = some f → v'.logPos = some n →
        (H.upTo (toLex (f, n))).length ≤ (H.upTo p).length + (H.edits l₁).length) →
      finish env v' = .ok st → ∃ q, storedPosition st t = some q ∧
        (H.upTo q).length ≤ (H.upTo p).length + (H.edits l₁).length := by
    intro v' hkeys hstate hposition hf
    obtain ⟨q, hq⟩ := finish_keeps (keptByUpdates_stored _ t) (fun _ _ => trivial)
      ⟨hkeys.trans hhead.keys, hstate ▸ hhead.state⟩ hf
    refine ⟨q, hq, ?_⟩
    rcases finish_storedPosition hf hq with h | rfl | ⟨f, n, hlf, hln, rfl⟩
    · exact hstored q (hstate ▸ h)
    · exact hcaptured
    · exact hposition f n hlf hln
  rcases hfinish with hf | hf
  · refine hfinal v rfl rfl (fun f n hlf hln => ?_) hf
    rcases hmarked.reader with ⟨hnone, -⟩ | ⟨d, hd, hdf, hdn⟩
    · rw [hnone, hfile] at hlf
      cases hlf
    · rw [hlf, Option.some.injEq] at hdf
      rw [hln, Option.some.injEq] at hdn
      exact length_upTo_le hread hd (.inl (by rw [hdf, hdn]; rfl))
  · refine hfinal { v with logFile := some env.endLogFile, logPos := some env.endLogPos } rfl rfl
      (fun f n hlf hln => ?_) hf
    cases hlf
    cases hln
    exact hcaptured

end Run

/-! ### The binlog sync -/

section Sync

open SyncedTable

variable {T : SyncedTable} {H : TableLog T} {S : BinlogSource} {config : BinlogConfig}
  {m : StreamsMap} {catalog : List CatalogEntry} {st : State} {r : PreparedRun} {p c : Position}
  {t : String} {pre out : List Effect}

theorem storedPosition_congr {st st' : State}
    (h : ∀ key ∈ ["log_file", "log_pos"], st'.getBookmark t key = st.getBookmark t key) :
    storedPosition st' t = storedPosition st t := by
  unfold storedPosition
  rw [h _ (by simp), h _ (by simp)]

theorem storedPosition_whitelistStreams (m : StreamsMap) (st : State) (t : String) :
    storedPosition (whitelistStreams m st) t = storedPosition st t := by
  refine List.foldlRecOn (motive := fun st' => storedPosition st' t = storedPosition st t)
    m.keys _ rfl fun st' h s _ => ?_
  rw [← h]
  apply storedPosition_congr
  intro key hkey
  have hkept : key ∈ bookmarkKeys := by
    rcases List.mem_cons.mp hkey with rfl | hkey
    · decide
    · obtain rfl := List.mem_singleton.mp hkey
      decide
  rw [getBookmark_whitelistBookmarkKeys]
  simp [hkept]

/-- In log file and position mode the reader is created at the position of the bookmarks. -/
theorem prepareRun_position (hmode : config.useGtid = false)
    (h : prepareRun S config m st = .ok r) :
    ∃ f pos reader file n, calculateBookmark S.server m (whitelistStreams m st) = .ok (f, pos) ∧
      reader.start = .logPosition f pos ∧ S.fetchCurrentLogFileAndPos = .ok (file, n) ∧
      r = ⟨⟨S.lib, S.discover, file, n⟩, whitelistStreams m st, none, (S.read reader).1,
        (S.read reader).2⟩ := by
  unfold prepareRun at h
  split at h
  · cases h
  · dsimp only at h
    split at h
    · cases h
    · rename_i logFile logPos gtid hresume
      unfold resumePosition at hresume
      rw [hmode] at hresume
      simp only [Bool.false_eq_true, if_false] at hresume
      split at hresume
      · cases hresume
      · rename_i f pos hbookmark
        rw [Except.ok.injEq, Prod.mk.injEq, Prod.mk.injEq] at hresume
        obtain ⟨rfl, rfl, rfl⟩ := hresume
        split at h
        · cases h
        · rename_i reader hreader
          split at h
          · cases h
          · rename_i file n hend
            cases h
            have hstart : reader.start = .logPosition f pos := by
              unfold createBinlogStreamReader at hreader
              split at hreader
              · cases hreader
              · split at hreader
                · cases hreader
                · rename_i start hstart
                  cases hreader
                  unfold readerStart at hstart
                  rw [hmode] at hstart
                  simp only [Bool.false_eq_true, if_false] at hstart
                  split_ifs at hstart
                  split at hstart
                  · cases hstart
                  · cases hstart
                  · cases hstart
                    rfl
            refine ⟨f, pos, reader, file, n, hbookmark, hstart, hend, ?_⟩
            rw [ReaderArgs.autoPosition, hstart]

/-- The position is stored for a stream, and no stream is behind it. -/
def StartsFrom (ids : List String) (st : State) (p : Position) (t : String) : Prop :=
  t ∈ ids ∧ storedPosition st t = some p ∧
    ∀ t' ∈ ids, ∀ q, storedPosition st t' = some q → p ≤ q

/-- A reader that is created at `p` goes through the log of the table from there on, and when it
ends without an exception it has gone through it up to the captured end, where no change of the
table ends. -/
structure ReadsAt (H : TableLog T) (S : BinlogSource) (p : Position) : Prop where
  reads : ∀ args, args.start = .logPosition (ofLex p).1 (.int (ofLex p).2) →
    ∃ l, (S.read args).1 = deliveries false l ∧ ReadsTable H p l ∧
      ((S.read args).2 = none → ∀ f n, S.fetchCurrentLogFileAndPos = .ok (f, n) →
        ∀ x ∈ H.log, TableLog.owns T x = true → p < x.readerPosition →
          x.readerPosition ≤ toLex (f, n) → x ∈ l)
  commits : ∀ f n, S.fetchCurrentLogFileAndPos = .ok (f, n) →
    ∀ x ∈ H.log, TableLog.owns T x = true → x.readerPosition ≠ toLex (f, n)

/-- A binlog sync that takes the table along with its entry. -/
structure SyncsTable (T : SyncedTable) (S : BinlogSource) (config : BinlogConfig)
    (catalog : List CatalogEntry) : Prop where
  settled : T.Settled
  mode : config.useGtid = false
  lib : S.lib = T.lib
  resolved : Resolved catalog
  entry : (generateStreamsMap catalog).get? T.streamId = some T.entry

theorem SyncsTable.follows (h : SyncsTable T S config catalog) {env : Env}
    (henv : env.lib = S.lib) {st : State} {g : Option String} :
    Follows T env (initialVars (generateStreamsMap catalog) st g) := by
  refine ⟨henv.trans h.lib, h.entry, fun t entry hget => ?_⟩
  obtain ⟨e, he, hid, rfl⟩ := generateStreamsMap_get? hget
  exact (h.resolved e he).trans hid

/-- A binlog sync is a run from the least position of the bookmarks, unless it fails before. -/
theorem SyncsTable.run_eq (h : SyncsTable T S config catalog)
    (hstored : ∀ t ∈ idsOf catalog, ∃ q, storedPosition st t = some q)
    (hr : prepareRun S config (generateStreamsMap catalog) st = .ok r) :
    ∃ p t reader, StartsFrom (idsOf catalog) st p t ∧
      reader.start = .logPosition (ofLex p).1 (.int (ofLex p).2) ∧
      S.fetchCurrentLogFileAndPos = .ok (ofLex r.env.endPosition) ∧ r.env.lib = S.lib ∧
      r.state = whitelistStreams (generateStreamsMap catalog) st ∧ r.autoPosition = none ∧
      r.deliveries = (S.read reader).1 ∧ r.failure = (S.read reader).2 := by
  obtain ⟨f, pos, reader, file, n, hbookmark, hstart, hend, rfl⟩ := prepareRun_position h.mode hr
  have hstored' : ∀ t ∈ (generateStreamsMap catalog).keys, ∃ q,
      storedPosition (whitelistStreams (generateStreamsMap catalog) st) t = some q := by
    intro t ht
    rw [storedPosition_whitelistStreams]
    exact hstored t (mem_generateStreamsMap_keys.mp ht)
  obtain ⟨q, rfl, rfl, ⟨t, ht, hq⟩, hleast⟩ := calculateBookmark_stored hstored' hbookmark
  rw [storedPosition_whitelistStreams] at hq
  refine ⟨q, t, reader, ⟨mem_generateStreamsMap_keys.mp ht, hq, fun t' ht' q' hq' => ?_⟩, hstart,
    hend, rfl, rfl, rfl, rfl, rfl⟩
  refine hleast t' (mem_generateStreamsMap_keys.mpr ht') q' ?_
  rw [storedPosition_whitelistStreams]
  exact hq'

theorem prefix_append_cases {ε : Type*} {pre a b : List ε} (h : pre <+: a ++ b) :
    pre <+: a ∨ ∃ b', pre = a ++ b' ∧ b' <+: b := by
  rcases List.prefix_or_prefix_of_prefix h (List.prefix_append a b) with hpre | ⟨b', rfl⟩
  · exact .inl hpre
  · exact .inr ⟨b', rfl, (List.prefix_append_right_inj a).mp h⟩

theorem replayed_nil : Replayed H t p c [] :=
  ⟨by simp [recordsOn], by simp⟩

/-- Messages that say nothing of the table and leave the stream where it was may come first. -/
theorem replayed_append {a b : List Effect} (hpre : pre <+: a ++ b)
    (hnone : recordsOn T.streamId a = [])
    (hstates : ∀ st, .message (.state st) ∈ a → storedPosition st t = some p)
    (hb : ∀ b', b' <+: b → Replayed H t p c b') : Replayed H t p c pre := by
  have hfirst : ∀ a', a' <+: a → ∀ b', Replayed H t p c b' → Replayed H t p c (a' ++ b') := by
    intro a' ha b' hb'
    have hnil : recordsOn T.streamId a' = [] :=
      List.prefix_nil.mp (hnone ▸ recordsOn_mono T.streamId ha)
    constructor
    · rw [recordsOn_append, hnil, List.nil_append]
      exact hb'.shows
    · intro st hst
      rw [recordsOn_append, hnil, List.nil_append]
      rcases List.mem_append.mp hst with hst | hst
      · exact ⟨p, hstates st (ha.subset hst), Nat.le_add_right _ _⟩
      · exact hb'.states st hst
  rcases prefix_append_cases hpre with hpre | ⟨b', rfl, hb'⟩
  · rw [← List.append_nil pre]
    exact hfirst pre hpre [] replayed_nil
  · exact hfirst a List.prefix_rfl b' (hb b' hb')

/-- The run of a binlog sync that was prepared, with the reader at the least position. -/
structure RunOf (H : TableLog T) (S : BinlogSource) (catalog : List CatalogEntry) (st : State)
    (p : Position) (t : String) (r : PreparedRun) : Prop where
  follows : Follows T r.env (r.variables (generateStreamsMap catalog))
  captured : S.fetchCurrentLogFileAndPos = .ok (ofLex r.env.endPosition)
  member : t ∈ (r.variables (generateStreamsMap catalog)).streamsMap.keys
  stored : storedPosition (r.variables (generateStreamsMap catalog)).state t = some p
  reads : ∃ l, r.deliveries = deliveries false l ∧ ReadsTable H p l ∧
    (r.failure = none → ∀ x ∈ H.log, TableLog.owns T x = true → p < x.readerPosition →
      x.readerPosition ≤ r.env.endPosition → x ∈ l)
  commits : ∀ x ∈ H.log, TableLog.owns T x = true → x.readerPosition ≠ r.env.endPosition

theorem SyncsTable.runOf (h : SyncsTable T S config catalog)
    (hstored : ∀ t ∈ idsOf catalog, ∃ q, storedPosition st t = some q)
    (hstart : StartsFrom (idsOf catalog) st p t) (hreads : ReadsAt H S p)
    (hr : prepareRun S config (generateStreamsMap catalog) st = .ok r) :
    RunOf H S catalog st p t r := by
  obtain ⟨p', t', reader, hstart', hreader, hend, hlib, hstate, hauto, hds, hfailure⟩ :=
    h.run_eq hstored hr
  obtain rfl : p' = p := le_antisymm (hstart'.2.2 t hstart.1 p hstart.2.1)
    (hstart.2.2 t' hstart'.1 p' hstart'.2.1)
  obtain ⟨l, hl, hread, hlast⟩ := hreads.reads reader hreader
  refine ⟨h.follows hlib, hend, mem_generateStreamsMap_keys.mpr hstart.1, ?_,
    ⟨l, hds.trans hl, hread, fun hnone x hx howns hpx hxe => ?_⟩, ?_⟩
  · show storedPosition r.state t = some p'
    rw [hstate, storedPosition_whitelistStreams]
    exact hstart.2.1
  · exact hlast (hfailure.symm.trans hnone) _ _ hend x hx howns hpx hxe
  · exact hreads.commits _ _ hend

theorem recordsOn_schemasOf (s : String) (catalog : List CatalogEntry) :
    recordsOn s (schemasOf catalog) = [] := by
  apply recordsOn_eq_nil
  intro row version time hx
  obtain ⟨e, -, he⟩ := List.mem_map.mp hx
  cases he

theorem syncBinlogStreams_eq (config : BinlogConfig) (st : State) (ht : t ∈ idsOf catalog) :
    syncBinlogStreams S config catalog st =
      (schemasOf catalog ++ (syncBinlogStream S config (generateStreamsMap catalog) st).1,
        (syncBinlogStream S config (generateStreamsMap catalog) st).2) := by
  have hne : catalog.isEmpty = false := by
    rw [List.isEmpty_eq_false_iff]
    rintro rfl
    cases ht
  rw [syncBinlogStreams, hne]
  rfl

/-- Whatever part of the messages of a binlog sync was read, it replays a part of the log. -/
theorem SyncsTable.replayed (h : SyncsTable T S config catalog)
    (hstored : ∀ t ∈ idsOf catalog, ∃ q, storedPosition st t = some q)
    (hstart : StartsFrom (idsOf catalog) st p t) (hreads : ReadsAt H S p)
    (hc : ∀ f n, S.fetchCurrentLogFileAndPos = .ok (f, n) → toLex (f, n) ≤ c)
    (hpre : pre <+: (syncBinlogStreams S config catalog st).1) : Replayed H t p c pre := by
  rw [syncBinlogStreams_eq config st hstart.1] at hpre
  refine replayed_append hpre (recordsOn_schemasOf _ _) ?_ fun b' hb' => ?_
  · intro st' hx
    obtain ⟨e, -, he⟩ := List.mem_map.mp hx
    cases he
  rw [syncBinlogStream] at hb'
  split at hb'
  · rw [List.prefix_nil.mp hb']
    exact replayed_nil
  · rename_i r hr
    obtain ⟨hfollows, hcaptured, ht, hp, ⟨l, hds, hread, hlast⟩, hcommits⟩ :=
      h.runOf hstored hstart hreads hr
    have hend : r.env.endPosition ≤ c := hc _ _ hcaptured
    have hrun : ∀ b', b' <+: (Loop.run (iteration r.env) (readerEnd r.failure) r.deliveries
        (r.variables (generateStreamsMap catalog))).1 → Replayed H t p c b' := by
      rw [hds]
      exact fun b' hb' => run_replayed h.settled hfollows hread hend ht hb'
    dsimp only at hb'
    split at hb'
    · exact hrun b' hb'
    · rename_i st' hret
      rcases prefix_append_cases hb' with hb' | ⟨tail, rfl, htail⟩
      · exact hrun b' hb'
      · -- the STATE after the run
        have hall := hrun _ List.prefix_rfl
        have hnone : recordsOn T.streamId tail = [] := by
          apply recordsOn_states
          exact fun x hx => ⟨st', List.mem_singleton.mp (htail.subset hx)⟩
        constructor
        · rw [recordsOn_append, hnone, List.append_nil]
          exact hall.shows
        · intro st'' hx
          rw [recordsOn_append, hnone, List.append_nil]
          rcases List.mem_append.mp hx with hx | hx
          · exact hall.states st'' hx
          · cases List.mem_singleton.mp (htail.subset hx)
            have hfinal := run_final h.settled hfollows hread hcommits hlast hp rfl
              (hds ▸ hret)
            rw [← hds] at hfinal
            exact hfinal

/-- A binlog sync that returns has replayed the log up to the captured end. -/
theorem SyncsTable.complete (h : SyncsTable T S config catalog)
    (hstored : ∀ t ∈ idsOf catalog, ∃ q, storedPosition st t = some q)
    (hstart : StartsFrom (idsOf catalog) st p t) (hreads : ReadsAt H S p)
    (hc : S.fetchCurrentLogFileAndPos = .ok (ofLex c)) {st' : State}
    (hret : (syncBinlogStreams S config catalog st).2 = .ok st') :
    List.Forall₂ T.Shows (recordsOn T.streamId (syncBinlogStreams S config catalog st).1)
      ((H.upTo c).drop (H.upTo p).length) := by
  rcases le_or_gt p c with hpc | hcp
  · rw [syncBinlogStreams_eq config st hstart.1] at hret ⊢
    rw [recordsOn_append, recordsOn_schemasOf, List.nil_append]
    dsimp only at hret ⊢
    rw [syncBinlogStream] at hret ⊢
    split at hret
    · cases hret
    · rename_i r hr
      obtain ⟨hfollows, hcaptured, -, -, ⟨l, hds, hread, hlast⟩, hcommits⟩ :=
        h.runOf hstored hstart hreads hr
      obtain rfl : c = r.env.endPosition :=
        ofLex.injective (Except.ok.inj (hc.symm.trans hcaptured))
      dsimp only at hret ⊢
      cases hres : (runBinlogSync r.env (generateStreamsMap catalog) r.state r.autoPosition
          r.deliveries r.failure).2 with
      | error err =>
        rw [hres] at hret
        cases hret
      | ok final =>
        have hlastState : recordsOn T.streamId [.message (.state final)] = [] :=
          recordsOn_states _ (by simp)
        dsimp only
        rw [recordsOn_append, hlastState, List.append_nil]
        rw [runBinlogSync, hds] at hres
        rw [runBinlogSync, hds]
        exact run_complete h.settled hfollows hread hpc hcommits hlast hres
  · -- the reader starts behind the captured end, and nothing is left to write
    have hcaptured : ∀ f n, S.fetchCurrentLogFileAndPos = .ok (f, n) → toLex (f, n) ≤ c := by
      intro f n hfn
      rw [hc, Except.ok.injEq] at hfn
      exact (congrArg toLex hfn).ge
    have hshows := (h.replayed hstored hstart hreads hcaptured List.prefix_rfl).shows
    have hnil : (H.upTo c).drop (H.upTo p).length = [] :=
      List.drop_eq_nil_of_le (H.upTo_prefix hcp.le).length_le
    rw [hnil, List.take_nil] at hshows
    rw [hnil]
    exact hshows

end Sync

end TapMysql.Binlog
