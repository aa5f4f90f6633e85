import TapMysql.Binlog.Run
import Mathlib.Data.List.Forall2

/-!
# What one iteration can do

One inversion lemma for each part of the loop, guards included, and the invariants that every
loop head keeps: the keys of the streams map, where its entries come from, and the RECORD
messages written for the events taken so far.
-/

namespace TapMysql.Binlog

open Loop (Reaches)

/-! ### Bookmarks -/

/-- The value of one bookmark key after `bookmarkPosition`, given the value before. -/
def positionValue (logFile : String) (logPos : Nat) (gtid : Option String) (key : String)
    (old : Val) : Val :=
  if key = "log_file" then .str logFile
  else if key = "log_pos" then .int logPos
  else if key = "gtid" then
    match gtid with
    | some g => if g = "" then old else .str g
    | none => old
  else old

theorem positionValue_idem (f : String) (p : Nat) (g : Option String) (key : String) (old : Val) :
    positionValue f p g key (positionValue f p g key old) = positionValue f p g key old := by
  unfold positionValue
  split_ifs
  · rfl
  · rfl
  · cases g with
    | none => rfl
    | some g => by_cases hg : g = "" <;> simp [hg]
  · rfl

theorem getBookmark_bookmarkPosition (f : String) (p : Nat) (g : Option String) (st : State)
    (s t j : String) :
    (bookmarkPosition f p g st s).getBookmark t j =
      if s = t then positionValue f p g j (st.getBookmark t j) else st.getBookmark t j := by
  by_cases hs : s = t
  · subst hs
    cases g with
    | none =>
      simp only [bookmarkPosition, State.getBookmark_writeBookmark, positionValue, true_and,
        if_true, eq_comm (b := j)]
      split_ifs <;> simp_all
    | some g =>
      by_cases hg : g = "" <;>
        simp only [bookmarkPosition, hg, if_true, if_false, State.getBookmark_writeBookmark,
          positionValue, true_and, eq_comm (b := j)] <;> split_ifs <;> simp_all
  · cases g with
    | none => simp [bookmarkPosition, State.getBookmark_writeBookmark, hs]
    | some g =>
      by_cases hg : g = "" <;>
        simp [bookmarkPosition, State.getBookmark_writeBookmark, hs, hg]

theorem getBookmark_foldl_bookmarkPosition (f : String) (p : Nat) (g : Option String)
    (keys : List String) (st : State) (t j : String) :
    (keys.foldl (bookmarkPosition f p g) st).getBookmark t j =
      if t ∈ keys then positionValue f p g j (st.getBookmark t j) else st.getBookmark t j := by
  induction keys generalizing st with
  | nil => simp
  | cons s keys ih =>
    rw [List.foldl_cons, ih, getBookmark_bookmarkPosition]
    by_cases hs : s = t
    · subst hs
      by_cases hm : s ∈ keys <;> simp [hm, positionValue_idem]
    · have hne : t ≠ s := fun h => hs h.symm
      simp [hs, hne]

theorem getBookmark_updateBookmarks {st st' : State} {m : StreamsMap} {f : String} {p : Nat}
    {g : Option String} (h : updateBookmarks st m f p g = .ok st') (t j : String) :
    st'.getBookmark t j =
      if t ∈ m.keys then positionValue f p g j (st.getBookmark t j) else st.getBookmark t j := by
  rw [updateBookmarks] at h
  split at h
  · cases h
  · cases h
    exact getBookmark_foldl_bookmarkPosition f p g m.keys st t j

/-! ### Inversion -/

theorem placeColumns_ok {env : Env} {v : Vars} {s : String} {entry : StreamsMapEntry}
    {ev : RowsEvent} {p : Placed} (h : placeColumns env v s entry ev = .ok p) :
    let diff := getDiffInColumnsList ev entry.catalogEntry.schema.keys v.ignoredColumns
    (diff = [] ∧ p = ⟨[], entry, v⟩) ∨
    (diff ≠ [] ∧ shouldRunDiscovery diff entry.catalogEntry.metadata = false ∧
      p = ⟨[], entry, { v with ignoredColumns := v.ignoredColumns ++ diff }⟩) ∨
    (diff ≠ [] ∧ shouldRunDiscovery diff entry.catalogEntry.metadata = true ∧
      ∃ new, rediscover env v.discoveries s entry.catalogEntry.table = .ok new ∧
        (p = ⟨[], entry, { v with
            discoveries := v.discoveries + 1
            ignoredColumns := v.ignoredColumns ++
              diff.filter fun c => !new.entry.schema.contains c }⟩ ∧
          new.entry.schema.sameItems entry.catalogEntry.schema = true ∨
         p = ⟨[schemaMessage new.entry []], ⟨new.entry, new.columns⟩, { v with
            discoveries := v.discoveries + 1
            ignoredColumns := v.ignoredColumns ++
              diff.filter fun c => !new.entry.schema.contains c
            streamsMap := v.streamsMap.set s ⟨new.entry, new.columns⟩ }⟩ ∧
          new.entry.schema.sameItems entry.catalogEntry.schema = false)) := by
  intro diff
  rw [placeColumns] at h
  by_cases hd : diff = []
  · left
    simp only [diff] at hd
    simp only [hd, List.isEmpty_nil, if_true, Except.ok.injEq] at h
    exact ⟨hd, h.symm⟩
  · right
    have hne : diff.isEmpty = false := by simpa using hd
    simp only [diff] at hne
    cases hrun : shouldRunDiscovery diff entry.catalogEntry.metadata with
    | false =>
      left
      simp only [diff] at hrun
      simp only [hne, hrun, Bool.not_false, if_true, Bool.false_eq_true, if_false,
        Except.ok.injEq] at h
      exact ⟨hd, rfl, h.symm⟩
    | true =>
      right
      simp only [diff] at hrun
      simp only [hne, hrun, Bool.not_true, Bool.false_eq_true, if_false] at h
      refine ⟨hd, rfl, ?_⟩
      cases hdis : rediscover env v.discoveries s entry.catalogEntry.table with
      | error e => simp [hdis] at h
      | ok new =>
        simp only [hdis] at h
        refine ⟨new, rfl, ?_⟩
        cases hsame : new.entry.schema.sameItems entry.catalogEntry.schema with
        | true =>
          simp only [hsame, if_true, Except.ok.injEq] at h
          exact Or.inl ⟨h.symm, rfl⟩
        | false =>
          simp only [hsame, Bool.false_eq_true, if_false, Except.ok.injEq] at h
          exact Or.inr ⟨h.symm, rfl⟩

theorem placeColumns_changed {env : Env} {v : Vars} {s : String} {entry : StreamsMapEntry}
    {ev : RowsEvent} {new : Rediscovery}
    (hdiff : getDiffInColumnsList ev entry.catalogEntry.schema.keys v.ignoredColumns ≠ [])
    (hrun : shouldRunDiscovery (getDiffInColumnsList ev entry.catalogEntry.schema.keys
      v.ignoredColumns) entry.catalogEntry.metadata = true)
    (hnew : rediscover env v.discoveries s entry.catalogEntry.table = .ok new)
    (hsame : new.entry.schema.sameItems entry.catalogEntry.schema = false) :
    ∃ vars, placeColumns env v s entry ev =
      .ok ⟨[schemaMessage new.entry []], ⟨new.entry, new.columns⟩, vars⟩ := by
  have hne : (getDiffInColumnsList ev entry.catalogEntry.schema.keys v.ignoredColumns).isEmpty =
      false := by simpa using hdiff
  rw [placeColumns]
  simp only [hne, hrun, hnew, hsame, Bool.not_true, Bool.false_eq_true, if_false]
  exact ⟨_, rfl⟩

/-- The event of a selected stream that was handled without an error. -/
structure HandledRows (env : Env) (v : Vars) (d : Delivery) (ev : RowsEvent) where
  entry : StreamsMapEntry
  placed : Placed
  records : List Message
  found : v.streamsMap.get? ev.tapStreamId = some entry
  named : verifyEventColumnNames ev ev.tapStreamId d.logFile d.logPos = .ok ()
  places : placeColumns env v ev.tapStreamId entry ev = .ok placed
  handles : handleRowsEvent ⟨env.lib, placed.entry.catalogEntry, placed.vars.state,
    placed.entry.desiredColumns, d.now, d.millis⟩ ev = (records, none)

/-- The variables after a handled event. -/
def HandledRows.after {env : Env} {v : Vars} {d : Delivery} {ev : RowsEvent}
    (h : HandledRows env v d ev) : Vars :=
  { h.placed.vars with
    processedRowsEvents := h.placed.vars.processedRowsEvents + ev.change.rowCount }

theorem handleEvent_ok {env : Env} {v v' : Vars} {d : Delivery} {em : List Effect}
    (h : handleEvent env v d = (em, .ok v')) :
    (∃ next position st, d.event = .rotate next position ∧
      updateBookmarks v.state v.streamsMap next position v.gtidPos = .ok st ∧
      em = [] ∧ v' = { v with state := st }) ∨
    (∃ g st, d.event = .gtid g ∧
      updateBookmarks v.state v.streamsMap d.logFile d.logPos (some g) = .ok st ∧
      em = [.autoPosition g] ∧ v' = { v with gtidPos := some g, state := st }) ∨
    (∃ ev, d.event = .rows ev ∧ v.streamsMap.get? ev.tapStreamId = none ∧
      em = [] ∧ v' = { v with eventsSkipped := v.eventsSkipped + 1 }) ∨
    (∃ ev, d.event = .rows ev ∧ ∃ hr : HandledRows env v d ev,
      em = (hr.placed.emitted ++ hr.records).map Effect.message ∧ v' = hr.after) := by
  rw [handleEvent] at h
  cases he : d.event with
  | rotate next position =>
    left
    simp only [he] at h
    cases hu : updateBookmarks v.state v.streamsMap next position v.gtidPos with
    | error e => simp [hu] at h
    | ok st =>
      simp only [hu, Prod.mk.injEq, Except.ok.injEq] at h
      exact ⟨next, position, st, rfl, hu, h.1.symm, h.2.symm⟩
  | gtid g =>
    right; left
    simp only [he] at h
    cases hu : updateBookmarks v.state v.streamsMap d.logFile d.logPos (some g) with
    | error e => simp [hu] at h
    | ok st =>
      simp only [hu, Prod.mk.injEq, Except.ok.injEq] at h
      exact ⟨g, st, rfl, hu, h.1.symm, h.2.symm⟩
  | rows ev =>
    right; right
    simp only [he, handleEventOfRows] at h
    cases hm : v.streamsMap.get? ev.tapStreamId with
    | none =>
      simp only [hm, List.map_nil, Prod.mk.injEq, Except.ok.injEq] at h
      exact Or.inl ⟨ev, rfl, hm, h.1.symm, h.2.symm⟩
    | some entry =>
      right
      simp only [hm] at h
      cases hv : verifyEventColumnNames ev ev.tapStreamId d.logFile d.logPos with
      | error e => simp [hv] at h
      | ok u =>
        simp only [hv] at h
        cases hp : placeColumns env v ev.tapStreamId entry ev with
        | error e => simp [hp] at h
        | ok p =>
          simp only [hp] at h
          cases hr : handleRowsEvent ⟨env.lib, p.entry.catalogEntry, p.vars.state,
              p.entry.desiredColumns, d.now, d.millis⟩ ev with
          | mk rs err =>
            cases err with
            | some e => simp [hr] at h
            | none =>
              simp only [hr, Prod.mk.injEq, Except.ok.injEq] at h
              exact ⟨ev, rfl, ⟨entry, p, rs, hm, hv, hp, hr⟩, h.1.symm, h.2.symm⟩

theorem handleEvent_of_handled {env : Env} {v : Vars} {d : Delivery} {ev : RowsEvent}
    (hd : d.event = .rows ev) (h : HandledRows env v d ev) :
    handleEvent env v d =
      ((h.placed.emitted ++ h.records).map Effect.message, .ok h.after) := by
  simp [handleEvent, hd, handleEventOfRows, h.found, h.named, h.places, h.handles,
    HandledRows.after]

theorem iteration_of_handleEvent {env : Env} {v v₁ : Vars} {d : Delivery} {em : List Effect}
    (hend : reachedEnd env d = false) (he : handleEvent env (takePosition v d) d = (em, .ok v₁))
    (hpos : d.logPos ≠ 0) : ∃ em' v', iteration env v d = .next em' v' := by
  simp only [iteration, hend, Bool.false_eq_true, if_false, he]
  split_ifs with hdue
  · simp only [updateBookmarks, hpos, and_false, if_false]
    exact ⟨_, _, rfl⟩
  · exact ⟨_, _, rfl⟩

theorem iteration_next {env : Env} {v v' : Vars} {d : Delivery} {em : List Effect}
    (h : iteration env v d = .next em v') :
    reachedEnd env d = false ∧ ∃ em₁ v₁,
      handleEvent env (takePosition v d) d = (em₁, .ok v₁) ∧
      ((periodicDue v₁ = false ∧ em = em₁ ∧ v' = v₁) ∨
        (periodicDue v₁ = true ∧ ∃ st,
          updateBookmarks v₁.state v₁.streamsMap d.logFile d.logPos v₁.gtidPos = .ok st ∧
          em = em₁ ++ [.message (.state st)] ∧ v' = { v₁ with state := st })) := by
  rw [iteration] at h
  cases hend : reachedEnd env d with
  | true => simp [hend] at h
  | false =>
    refine ⟨rfl, ?_⟩
    simp only [hend, Bool.false_eq_true, if_false] at h
    cases hr : handleEvent env (takePosition v d) d with
    | mk em₁ res =>
      cases res with
      | error e => simp [hr] at h
      | ok v₁ =>
        refine ⟨em₁, v₁, rfl, ?_⟩
        simp only [hr] at h
        cases hdue : periodicDue v₁ with
        | false =>
          simp only [hdue, Bool.false_eq_true, if_false, Step.next.injEq] at h
          exact Or.inl ⟨rfl, h.1.symm, h.2.symm⟩
        | true =>
          simp only [hdue, if_true] at h
          cases hu : updateBookmarks v₁.state v₁.streamsMap d.logFile d.logPos v₁.gtidPos with
          | error e => simp [hu] at h
          | ok st =>
            simp only [hu, Step.next.injEq] at h
            exact Or.inr ⟨rfl, st, rfl, h.1.symm, h.2.symm⟩

theorem iteration_halt {env : Env} {v : Vars} {d : Delivery} {em : List Effect} {t : LoopEnd}
    (h : iteration env v d = .halt em t) :
    (reachedEnd env d = true ∧ em = [] ∧
      t = .broke { v with logFile := some env.endLogFile, logPos := some env.endLogPos }) ∨
    (reachedEnd env d = false ∧ em = (handleEvent env (takePosition v d) d).1 ∧
      ∃ e, t = .raised e) := by
  rw [iteration] at h
  cases hend : reachedEnd env d with
  | true =>
    simp only [hend, if_true, Step.halt.injEq] at h
    exact Or.inl ⟨rfl, h.1.symm, h.2.symm⟩
  | false =>
    right
    simp only [hend, Bool.false_eq_true, if_false] at h
    refine ⟨rfl, ?_⟩
    cases hr : (handleEvent env (takePosition v d) d).2 with
    | error e =>
      simp only [hr, Step.halt.injEq] at h
      exact ⟨h.1.symm, e, h.2.symm⟩
    | ok v₁ =>
      simp only [hr] at h
      split at h
      · split at h
        · rename_i e _
          simp only [Step.halt.injEq] at h
          exact ⟨h.1.symm, e, h.2.symm⟩
        · cases h
      · cases h

end TapMysql.Binlog
