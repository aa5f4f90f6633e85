import Mathlib.Data.List.DropRight
import TapMysql.Binlog.Written

/-!
# How far STATE messages lag behind

The periodic test asks whether the number of rows processed so far is a multiple of the period.
An event adds all its rows at once, so it can step over a multiple, and then no STATE is written
until a later sum meets one. As long as an event that finds a whole period of rows without a
STATE brings the sum to a multiple, fewer rows than the period and the largest event lag behind.
-/

namespace TapMysql.Binlog

open Loop (Reaches Rounds)

/-! ### Rounds since the last STATE -/

def Effect.isState : Effect → Bool
  | .message (.state _) => true
  | _ => false

/-- The rounds of the loop after the one that wrote the last STATE message. -/
def sinceState (rs : List (Delivery × List Effect)) : List (Delivery × List Effect) :=
  rs.rtakeWhile fun r => !r.2.any Effect.isState

/-- The number of RECORD messages since the last STATE message. -/
def lag (rs : List (Delivery × List Effect)) : ℕ :=
  (recordsOf ((sinceState rs).flatMap Prod.snd)).length

def largestEvent (evs : List RowsEvent) : ℕ := (evs.map fun ev => ev.change.rowCount).foldr max 0

/-- The rows of the largest event of a selected stream since the last STATE message. -/
def largestSince (m : StreamsMap) (rs : List (Delivery × List Effect)) : ℕ :=
  largestEvent (selectedRows m ((sinceState rs).map Prod.fst))

/-- The periodic test after the deliveries `ds`. -/
def CheckpointDue (m : StreamsMap) (ds : List Delivery) : Prop :=
  PeriodReached (rowsProcessed m ds) ∨ PeriodReached (rowEventsSkipped m ds)

/-- A row event that finds a whole period of rows without a checkpoint ends at one. -/
def LateEventsLand (m : StreamsMap) (ds : List Delivery) : Prop :=
  ∀ a b d ev, a ++ b ++ [d] <+: ds → (∀ c, c ≠ [] → c <+: b → ¬CheckpointDue m (a ++ c)) →
    updateBookmarkPeriod ≤ rowsProcessed m b → d.event.selected? m = some ev →
    CheckpointDue m (a ++ b ++ [d])

section Run

variable {env : Env} {m : StreamsMap} {v₀ v : Vars} {rs : List (Delivery × List Effect)}

theorem sinceState_concat (rs : List (Delivery × List Effect)) (r : Delivery × List Effect) :
    sinceState (rs ++ [r]) =
      if r.2.any Effect.isState then [] else sinceState rs ++ [r] := by
  rw [sinceState, List.rtakeWhile_concat]
  cases r.2.any Effect.isState <;> rfl

theorem le_largestEvent {evs : List RowsEvent} {ev : RowsEvent} (h : ev ∈ evs) :
    ev.change.rowCount ≤ largestEvent evs := by
  induction evs with
  | nil => cases h
  | cons ev' evs ih =>
    rcases List.mem_cons.mp h with rfl | h
    · exact le_max_left _ _
    · exact (ih h).trans (le_max_right _ _)

theorem largestEvent_append_left (evs evs' : List RowsEvent) :
    largestEvent evs ≤ largestEvent (evs ++ evs') := by
  induction evs with
  | nil => exact Nat.zero_le _
  | cons ev evs ih =>
    simp only [largestEvent, List.cons_append, List.map_cons, List.foldr_cons] at ih ⊢
    omega

theorem rowsProcessed_selected {d : Delivery} {ev : RowsEvent}
    (h : d.event.selected? m = some ev) : rowsProcessed m [d] = ev.change.rowCount := by
  simp [rowsProcessed, selectedRows, h]

theorem rowsProcessed_of_none {d : Delivery} (h : d.event.selected? m = none) :
    rowsProcessed m [d] = 0 := by
  simp [rowsProcessed, selectedRows, h]

/-! ### One round -/

theorem records_of_progress {ds : List Delivery} {out : List Effect}
    (h : Progress env v₀ ds out v) :
    (recordsOf out).length = rowsProcessed v₀.streamsMap ds := by
  obtain ⟨rss, hrss, hout⟩ := h.records
  rw [hout, records_length hrss, rowsProcessed]

/-- A round writes one RECORD for each row that it processes. -/
theorem round_records (h : Rounds (iteration env) v₀ rs v) :
    ∀ r ∈ rs, (recordsOf r.2).length = rowsProcessed v₀.streamsMap [r.1] := by
  induction h with
  | start => simp
  | @next rs v d em v' hr hs ih =>
    intro r hmem
    rcases List.mem_append.mp hmem with hmem | hmem
    · exact ih r hmem
    · obtain rfl := List.mem_singleton.mp hmem
      have hbefore := records_of_progress (reaches_progress hr.reaches)
      have hafter := records_of_progress (reaches_progress (hr.reaches.step hs))
      rw [recordsOf_append, List.length_append, hbefore, rowsProcessed_append] at hafter
      exact Nat.add_left_cancel hafter

theorem records_of_rounds (h : ∀ r ∈ rs, (recordsOf r.2).length = rowsProcessed m [r.1]) :
    (recordsOf (rs.flatMap Prod.snd)).length = rowsProcessed m (rs.map Prod.fst) := by
  induction rs with
  | nil => rfl
  | cons r rs ih =>
    obtain ⟨hr, hrs⟩ := List.forall_mem_cons.mp h
    rw [List.flatMap_cons, recordsOf_append, List.length_append, hr, ih hrs, List.map_cons,
      ← rowsProcessed_append]
    rfl

/-- A round writes a STATE message exactly when the periodic test holds after its delivery. -/
theorem round_state_iff {st : State} {auto : Option String} {ds : List Delivery}
    {out em : List Effect} {v' : Vars} {d : Delivery}
    (h : Reaches (iteration env) (initialVars m st auto) ds out v)
    (hs : iteration env v d = .next em v') :
    em.any Effect.isState = true ↔ CheckpointDue m (ds ++ [d]) := by
  obtain ⟨-, em₁, v₁, he, hcase⟩ := iteration_next hs
  have hp := (reaches_progress h).event he
  have hdue : periodicDue v₁ = true ↔ CheckpointDue m (ds ++ [d]) := by
    rw [periodicDue_iff, hp.processed, hp.skipped]
    simp [CheckpointDue, initialVars]
  have hno : em₁.any Effect.isState = false := by
    rw [List.any_eq_false]
    intro x hx
    have hnot := handleEvent_no_state env (takePosition v d) d
    rw [he] at hnot
    cases x with
    | autoPosition g => simp [Effect.isState]
    | message msg =>
      cases msg with
      | state st => exact absurd hx (hnot st)
      | _ => simp [Effect.isState]
  rw [← hdue]
  rcases hcase with ⟨hfalse, rfl, -⟩ | ⟨htrue, st, -, rfl, -⟩
  · simp [hfalse, hno]
  · simp [htrue, Effect.isState]

/-! ### The lag of a run -/

theorem exists_sinceState (rs : List (Delivery × List Effect)) :
    ∃ a, rs = a ++ sinceState rs := by
  obtain ⟨a, ha⟩ := List.rtakeWhile_suffix (fun r : Delivery × List Effect =>
    !r.2.any Effect.isState) rs
  exact ⟨a, ha.symm⟩

theorem not_state_of_mem_sinceState {r : Delivery × List Effect} (h : r ∈ sinceState rs) :
    r.2.any Effect.isState = false := by
  simpa using List.mem_rtakeWhile_imp h

theorem lag_eq (h : Rounds (iteration env) v₀ rs v) :
    lag rs = rowsProcessed v₀.streamsMap ((sinceState rs).map Prod.fst) := by
  obtain ⟨a, ha⟩ := exists_sinceState rs
  refine records_of_rounds fun r hr => round_records h r ?_
  rw [ha]
  exact List.mem_append_right a hr

/-- Among the rounds since the last STATE message no checkpoint was due. -/
theorem not_due_sinceState {st : State} {auto : Option String}
    {a b : List (Delivery × List Effect)}
    (h : Rounds (iteration env) (initialVars m st auto) (a ++ b) v)
    (hb : ∀ r ∈ b, r.2.any Effect.isState = false) {c : List Delivery} (hne : c ≠ [])
    (hc : c <+: b.map Prod.fst) : ¬CheckpointDue m (a.map Prod.fst ++ c) := by
  obtain ⟨b₁, ⟨b₂, rfl⟩, rfl⟩ := List.prefix_map_iff.mp hc
  rcases List.eq_nil_or_concat b₁ with rfl | ⟨b₀, r, rfl⟩
  · exact absurd rfl hne
  · rw [List.concat_eq_append] at h hb ⊢
    have hround : Rounds (iteration env) (initialVars m st auto) ((a ++ b₀) ++ [r] ++ b₂) v := by
      simpa using h
    obtain ⟨v₁, hround⟩ := hround.of_append
    obtain ⟨v₂, hr, hs⟩ := hround.last
    have hdue := (round_state_iff hr.reaches hs).not.mp (by
      rw [hb r (by simp)]
      decide)
    simpa using hdue

/-- A row event after which no STATE is written found less than a period of rows without one. -/
theorem lag_lt_of_silent {st : State} {auto : Option String} {d : Delivery} {ev : RowsEvent}
    {em : List Effect} {v' : Vars} (hr : Rounds (iteration env) (initialVars m st auto) rs v)
    (hs : iteration env v d = .next em v') (hem : em.any Effect.isState = false)
    (hev : d.event.selected? m = some ev) (hland : LateEventsLand m (rs.map Prod.fst ++ [d])) :
    lag rs < updateBookmarkPeriod := by
  obtain ⟨a, ha⟩ := exists_sinceState rs
  have hsplit : rs.map Prod.fst = a.map Prod.fst ++ (sinceState rs).map Prod.fst := by
    rw [← List.map_append, ← ha]
  have hnot : ¬CheckpointDue m (rs.map Prod.fst ++ [d]) := fun hdue => by
    rw [(round_state_iff hr.reaches hs).mpr hdue] at hem
    cases hem
  rw [lag_eq hr]
  by_contra hge
  apply hnot
  rw [hsplit] at hland ⊢
  rw [ha] at hr
  exact hland _ _ d ev List.prefix_rfl
    (fun c hne hc => not_due_sinceState hr (fun r => not_state_of_mem_sinceState) hne hc)
    (Nat.le_of_not_lt hge) hev

/-- As long as every row event that finds a whole period of rows without a checkpoint ends at
one, fewer RECORD messages than the period and the largest event lag behind the last STATE. -/
theorem lag_bounded {st : State} {auto : Option String}
    (h : Rounds (iteration env) (initialVars m st auto) rs v)
    (hland : LateEventsLand m (rs.map Prod.fst)) :
    lag rs < updateBookmarkPeriod + largestSince m rs := by
  induction h with
  | start => exact Nat.add_pos_left (by decide) _
  | @next rs v d em v' hr hs ih =>
    cases hem : em.any Effect.isState with
    | true =>
      have hnil : sinceState (rs ++ [(d, em)]) = [] := by rw [sinceState_concat, hem]; rfl
      rw [lag, hnil]
      exact Nat.add_pos_left (by decide) _
    | false =>
      have hsince : sinceState (rs ++ [(d, em)]) = sinceState rs ++ [(d, em)] := by
        rw [sinceState_concat, hem]
        rfl
      have hlag : lag (rs ++ [(d, em)]) = lag rs + rowsProcessed m [d] := by
        rw [lag_eq (hr.next hs), lag_eq hr, hsince, List.map_append, rowsProcessed_append]
        rfl
      have hlargest : largestSince m (rs ++ [(d, em)]) =
          largestEvent (selectedRows m ((sinceState rs).map Prod.fst) ++ selectedRows m [d]) := by
        rw [largestSince, hsince, List.map_append, selectedRows_append]
        rfl
      rw [List.map_append] at hland
      rw [hlag, hlargest]
      cases hev : d.event.selected? m with
      | none =>
        have hbefore := ih fun a b d' ev' hp => hland a b d' ev' (hp.trans (List.prefix_append _ _))
        have hmono := largestEvent_append_left
          (selectedRows m ((sinceState rs).map Prod.fst)) (selectedRows m [d])
        rw [rowsProcessed_of_none hev]
        rw [largestSince] at hbefore
        omega
      | some ev =>
        have hsmall := lag_lt_of_silent hr hs hem hev hland
        have hle : ev.change.rowCount ≤
            largestEvent (selectedRows m ((sinceState rs).map Prod.fst) ++ selectedRows m [d]) :=
          le_largestEvent (by simp [selectedRows, hev])
        rw [rowsProcessed_selected hev]
        omega

end Run

/-! ### Events that step over the period -/

namespace Sample

def insertAt (n p : ℕ) : Delivery := ⟨.rows (insert "t" n), "bin.1", p, "", 0⟩

def insertRecords (n : ℕ) : List Message :=
  List.replicate n (.record "db-t" (Dict.ofList [("id", .int 1)]) (.int 0) "")

/-- The insert of `n` rows is handled. -/
def handledInsert (n p : ℕ) (v : Vars) (hv : v.streamsMap = streamsMap)
    (hig : v.ignoredColumns = []) (hst : getStreamVersion "db-t" v.state 0 = .int 0) :
    HandledRows (env "bin.1" 500) v (insertAt n p) (insert "t" n) where
  entry := ⟨addAutomaticProperties entry, ["id", sdcDeletedAt]⟩
  placed := ⟨[], ⟨addAutomaticProperties entry, ["id", sdcDeletedAt]⟩, v⟩
  records := insertRecords n
  found := by rw [hv]; rfl
  named := verify_of_unnamedColumns rfl _ _ _
  places := by
    have hnil : getDiffInColumnsList (insert "t" n)
        (addAutomaticProperties entry).schema.keys [] = [] := rfl
    simp [placeColumns, hig, hnil]
  handles := by
    have hversion : getStreamVersion (addAutomaticProperties entry).tapStreamId v.state 0 =
        .int 0 := hst
    rw [handleRowsEvent_eq, handleRows, insertAt, hversion]
    have hrecord : ∀ x ∈ List.replicate n (), rowToSingerRecord lib
        (addAutomaticProperties entry) (.int 0) (insert "t" n).columns
        ((Dict.ofList [("id", .int 1)]).filterKeys (["id", sdcDeletedAt] : List String).contains)
        "" = .ok (.record "db-t" (Dict.ofList [("id", .int 1)]) (.int 0) "") := fun _ _ => rfl
    have hwritten := emitRows_map hrecord
    rwa [List.map_replicate, List.map_replicate] at hwritten

theorem insertRecords_no_state (n : ℕ) :
    ((insertRecords n).map Effect.message).any Effect.isState = false := by
  rw [List.any_eq_false]
  intro x hx
  obtain ⟨msg, hmsg, rfl⟩ := List.mem_map.mp hx
  rw [List.eq_of_mem_replicate hmsg]
  simp [Effect.isState]

theorem insert_rowCount (n : ℕ) : (insert "t" n).change.rowCount = n := List.length_replicate

/-- What an insert finds: nothing skipped, nothing rediscovered, and the first version. -/
structure Inserting (v : Vars) (sum : ℕ) : Prop where
  streamsMap : v.streamsMap = streamsMap
  ignored : v.ignoredColumns = []
  version : getStreamVersion "db-t" v.state 0 = .int 0
  skipped : v.eventsSkipped = 0
  processed : v.processedRowsEvents = sum

theorem inserting_initial : Inserting (initialVars Sample.streamsMap State.empty none) 0 :=
  ⟨rfl, rfl, rfl, rfl, rfl⟩

theorem handleEvent_insert {n p sum : ℕ} {v : Vars} (hv : Inserting v sum) :
    ∃ v', handleEvent (env "bin.1" 500) (takePosition v (insertAt n p)) (insertAt n p) =
        ((insertRecords n).map .message, .ok v') ∧ Inserting v' (sum + n) := by
  set handled := handledInsert n p (takePosition v (insertAt n p)) hv.streamsMap hv.ignored
    hv.version
  refine ⟨handled.after, handleEvent_of_handled rfl handled, hv.streamsMap, hv.ignored, hv.version,
    hv.skipped, ?_⟩
  rw [HandledRows.after, insert_rowCount, ← hv.processed]
  rfl

theorem not_reachedEnd {n p : ℕ} (hp : p < 500) :
    reachedEnd (env "bin.1" 500) (insertAt n p) = false := by
  unfold reachedEnd
  have hfile : decide ("bin.1" < "bin.1") = false := by decide
  have hpos : decide (500 ≤ p) = false := decide_eq_false (Nat.not_le.mpr hp)
  rw [Bool.or_eq_false_iff, Bool.and_eq_false_iff]
  exact ⟨hfile, .inr hpos⟩

theorem periodicDue_insert {sum : ℕ} {v : Vars} (hv : Inserting v sum) :
    periodicDue v = true ↔ sum ≠ 0 ∧ sum % 1000 = 0 := by
  rw [periodicDue_iff, hv.skipped, hv.processed]
  simp [PeriodReached, updateBookmarkPeriod]

/-- An insert after which the sum is not a multiple of the period writes its records only. -/
theorem insert_silent {n p sum : ℕ} {v : Vars} (hp : p < 500) (hv : Inserting v sum)
    (hsum : (sum + n) % 1000 ≠ 0) :
    ∃ v', iteration (env "bin.1" 500) v (insertAt n p) =
      .next ((insertRecords n).map .message) v' ∧ Inserting v' (sum + n) := by
  obtain ⟨v', he, hv'⟩ := handleEvent_insert (n := n) (p := p) hv
  have hdue : periodicDue v' = false := by
    rw [Bool.eq_false_iff]
    exact fun hdue => hsum ((periodicDue_insert hv').mp hdue).2
  refine ⟨v', ?_, hv'⟩
  simp only [iteration, not_reachedEnd hp, he, hdue, Bool.false_eq_true, if_false]

/-- An insert after which the sum is a multiple of the period writes a STATE. -/
theorem insert_lands {n p sum : ℕ} {v : Vars} (hp : p < 500) (hpos : p ≠ 0) (hv : Inserting v sum)
    (hsum : sum + n ≠ 0 ∧ (sum + n) % 1000 = 0) :
    ∃ st v', iteration (env "bin.1" 500) v (insertAt n p) =
      .next ((insertRecords n).map .message ++ [.message (.state st)]) v' ∧
        Inserting v' (sum + n) := by
  obtain ⟨v', he, hv'⟩ := handleEvent_insert (n := n) (p := p) hv
  have hdue := (periodicDue_insert hv').mpr hsum
  set st := bookmarkPosition "bin.1" p v'.gtidPos v'.state "db-t" with hst
  have hupdate : updateBookmarks v'.state v'.streamsMap (insertAt n p).logFile
      (insertAt n p).logPos v'.gtidPos = .ok st := by
    have hlog : ¬((insertAt n p).logFile ≠ "" ∧ (insertAt n p).logPos = 0) := fun h => hpos h.2
    rw [updateBookmarks, if_neg hlog, hv'.streamsMap]
    rfl
  have hversion : st.getBookmark "db-t" "version" = v'.state.getBookmark "db-t" "version" := by
    rw [hst, getBookmark_bookmarkPosition, if_pos rfl]
    simp [positionValue]
  refine ⟨st, { v' with state := st }, ?_, hv'.streamsMap, hv'.ignored, ?_, hv'.skipped,
    hv'.processed⟩
  · simp only [iteration, not_reachedEnd hp, he, hdue, hupdate, Bool.false_eq_true, if_false,
      if_true]
  · rw [getStreamVersion, hversion, ← getStreamVersion]
    exact hv'.version

end Sample

namespace Sample

/-- An event of 1500 rows steps over the period; the next one, of 500 rows, is late and ends at
2000. -/
def landingInserts : List Delivery := [insertAt 1500 100, insertAt 500 200, insertAt 10 300]

theorem rowsProcessed_insertAt (n p : ℕ) : rowsProcessed streamsMap [insertAt n p] = n := by
  have hselected : (insertAt n p).event.selected? streamsMap = some (insert "t" n) := rfl
  rw [rowsProcessed_selected hselected, insert_rowCount]

theorem checkpointDue_landing :
    CheckpointDue streamsMap ([insertAt 1500 100] ++ [insertAt 500 200]) := by
  rw [CheckpointDue, rowsProcessed_append, rowsProcessed_insertAt, rowsProcessed_insertAt]
  exact .inl (by unfold PeriodReached; decide)

theorem landingInserts_land : LateEventsLand streamsMap landingInserts := by
  intro a b d ev hprefix hnone hlate _
  simp only [landingInserts, List.prefix_cons_iff, List.prefix_nil] at hprefix
  rcases hprefix with h | ⟨t, h, rfl | ⟨t, rfl, rfl | ⟨t, rfl, rfl⟩⟩⟩
  · simp at h
  · -- the first event is not late
    have hb : b = [] := by
      have := congrArg List.length h
      simp only [List.length_append, List.length_cons, List.length_nil] at this
      exact List.length_eq_zero_iff.mp (by omega)
    rw [hb] at hlate
    exact absurd hlate (by decide)
  · rw [h]
    exact checkpointDue_landing
  · -- after the checkpoint the third event is not late
    have hab : a ++ b = [insertAt 1500 100] ++ [insertAt 500 200] :=
      (List.append_inj' (show a ++ b ++ [d] = [insertAt 1500 100] ++ [insertAt 500 200] ++
        [insertAt 10 300] from h) rfl).1
    have hcheckpoint : ∀ c, c ≠ [] → c <+: b → a ++ c ≠ [insertAt 1500 100] ++ [insertAt 500 200] :=
      fun c hne hc heq => hnone c hne hc (heq ▸ checkpointDue_landing)
    rcases List.eq_nil_or_concat b with rfl | ⟨b', x, rfl⟩
    · exact absurd hlate (by decide)
    · exact absurd hab (hcheckpoint _ (by simp) List.prefix_rfl)

end Sample

/-- The STATE after the second event leaves the rows of the third one without one. -/
theorem lag_bounded_lateLands :
    ∃ rs v, Rounds (iteration (Sample.env "bin.1" 500))
        (initialVars Sample.streamsMap State.empty none) rs v ∧
      rs.map Prod.fst = Sample.landingInserts ∧
      LateEventsLand Sample.streamsMap (rs.map Prod.fst) ∧
      (rs.flatMap Prod.snd).any Effect.isState = true ∧
      lag rs < updateBookmarkPeriod + largestSince Sample.streamsMap rs := by
  obtain ⟨v₁, h₁, hv₁⟩ := Sample.insert_silent (n := 1500) (p := 100) (by decide)
    Sample.inserting_initial (by decide)
  obtain ⟨st, v₂, h₂, hv₂⟩ := Sample.insert_lands (n := 500) (p := 200) (by decide) (by decide)
    hv₁ (by decide)
  obtain ⟨v₃, h₃, -⟩ := Sample.insert_silent (n := 10) (p := 300) (by decide) hv₂ (by decide)
  have hrounds := ((Rounds.start.next h₁).next h₂).next h₃
  have hland := Sample.landingInserts_land
  refine ⟨_, v₃, hrounds, rfl, hland, ?_, lag_bounded hrounds hland⟩
  simp [Effect.isState]

/-- Three inserts of 999 rows: the sums 999, 1998 and 2997 step over the period twice, and 2997
rows are without a STATE message. -/
theorem events_step_over_period :
    ∃ rs v, Rounds (iteration (Sample.env "bin.1" 500))
        (initialVars Sample.streamsMap State.empty none) rs v ∧
      rs.map Prod.fst =
        [Sample.insertAt 999 100, Sample.insertAt 999 200, Sample.insertAt 999 300] ∧
      ¬lag rs < updateBookmarkPeriod + largestSince Sample.streamsMap rs := by
  obtain ⟨v₁, h₁, hv₁⟩ := Sample.insert_silent (n := 999) (p := 100) (by decide)
    Sample.inserting_initial (by decide)
  obtain ⟨v₂, h₂, hv₂⟩ := Sample.insert_silent (n := 999) (p := 200) (by decide) hv₁ (by decide)
  obtain ⟨v₃, h₃, -⟩ := Sample.insert_silent (n := 999) (p := 300) (by decide) hv₂ (by decide)
  have hrounds := ((Rounds.start.next h₁).next h₂).next h₃
  have hsince : ∀ rs : List (Delivery × List Effect),
      (∀ r ∈ rs, r.2 = (Sample.insertRecords 999).map .message) → sinceState rs = rs := by
    intro rs hrs
    rw [sinceState, List.rtakeWhile_eq_self_iff]
    intro r hr
    rw [hrs r hr, Sample.insertRecords_no_state]
    rfl
  refine ⟨_, v₃, hrounds, rfl, ?_⟩
  rw [lag_eq hrounds, largestSince, hsince _ (by simp only [List.nil_append, List.cons_append,
    List.mem_cons, List.not_mem_nil, or_false, forall_eq_or_imp, forall_eq, and_self])]
  have hselected : selectedRows Sample.streamsMap
      [Sample.insertAt 999 100, Sample.insertAt 999 200, Sample.insertAt 999 300] =
      List.replicate 3 (Sample.insert "t" 999) := rfl
  simp only [List.nil_append, List.cons_append, List.map_cons, List.map_nil, initialVars,
    rowsProcessed, hselected, largestEvent, List.map_replicate, Sample.insert_rowCount,
    updateBookmarkPeriod]
  decide

end TapMysql.Binlog
