import TapMysql.Binlog.Reader

/-!
# Stored positions

Which positions the bookmarks of the streams can hold at a loop head, at a STATE message and
after the loop.
-/

namespace TapMysql.Binlog

open Loop (Reaches)

/-- `(log_file, log_pos)` in the bookmark of a stream, when both are there. -/
def storedPosition (st : State) (s : String) : Option Position :=
  match st.getBookmark s "log_file", st.getBookmark s "log_pos" with
  | .str f, .int n => if 0 ≤ n then some (toLex (f, n.toNat)) else none
  | _, _ => none

theorem storedPosition_updateBookmarks {st st' : State} {m : StreamsMap} {f : String} {p : ℕ}
    {g : Option String} (h : updateBookmarks st m f p g = .ok st') (s : String) :
    storedPosition st' s = if s ∈ m.keys then some (toLex (f, p)) else storedPosition st s := by
  unfold storedPosition
  rw [getBookmark_updateBookmarks h s "log_file", getBookmark_updateBookmarks h s "log_pos"]
  by_cases hs : s ∈ m.keys <;> simp [hs, positionValue]

/-- The positions that the handling of a delivery can store. -/
def Delivery.Marks (d : Delivery) (p : Position) : Prop :=
  p = d.position ∨ ∃ f n, d.event = .rotate f n ∧ p = toLex (f, n)

theorem delivery_marks {useGtid : Bool} {e : LogEntry} {d : Delivery} {p : Position}
    (h : e.delivery useGtid = some d) (hp : d.Marks p) : p = e.readerPosition := by
  rcases hp with rfl | ⟨f, n, hd, rfl⟩
  · exact delivery_position h
  · exact (delivery_rotate h hd).symm

/-- What is known of the positions in the variables after some deliveries. -/
structure Marked (v₀ : Vars) (ds : List Delivery) (v : Vars) : Prop where
  keys : v.streamsMap.keys = v₀.streamsMap.keys
  stored : ∀ s p, storedPosition v.state s = some p →
    storedPosition v₀.state s = some p ∨ ∃ d ∈ ds, d.Marks p
  reader : (v.logFile = v₀.logFile ∧ v.logPos = v₀.logPos) ∨
    ∃ d ∈ ds, v.logFile = some d.logFile ∧ v.logPos = some d.logPos

theorem Marked.start (v₀ : Vars) : Marked v₀ [] v₀ :=
  ⟨rfl, fun _ _ h => Or.inl h, Or.inl ⟨rfl, rfl⟩⟩

theorem stored_updateBookmarks {v₀ v : Vars} {ds : List Delivery} {d : Delivery} {st : State}
    {m : StreamsMap} {f : String} {n : ℕ} {g : Option String}
    (h : ∀ s p, storedPosition v.state s = some p →
      storedPosition v₀.state s = some p ∨ ∃ d' ∈ ds ++ [d], d'.Marks p)
    (hu : updateBookmarks v.state m f n g = .ok st) (hd : d.Marks (toLex (f, n)))
    (s : String) (p : Position) (hp : storedPosition st s = some p) :
    storedPosition v₀.state s = some p ∨ ∃ d' ∈ ds ++ [d], d'.Marks p := by
  rw [storedPosition_updateBookmarks hu] at hp
  split_ifs at hp with hs
  · cases hp
    exact Or.inr ⟨d, by simp, hd⟩
  · exact h s p hp

theorem Marked.event {env : Env} {v₀ v v' : Vars} {ds : List Delivery} {em : List Effect}
    {d : Delivery} (h : Marked v₀ ds v)
    (he : handleEvent env (takePosition v d) d = (em, .ok v')) : Marked v₀ (ds ++ [d]) v' := by
  have hstored : ∀ s p, storedPosition v.state s = some p →
      storedPosition v₀.state s = some p ∨ ∃ d' ∈ ds ++ [d], d'.Marks p := by
    intro s p hp
    rcases h.stored s p hp with hp | ⟨d', hd', hp⟩
    · exact Or.inl hp
    · exact Or.inr ⟨d', List.mem_append_left _ hd', hp⟩
  rcases handleEvent_ok he with ⟨next, position, st, hd, hu, -, rfl⟩ |
    ⟨g, st, hd, hu, -, rfl⟩ | ⟨ev, hd, -, -, rfl⟩ | ⟨ev, hd, hr, -, rfl⟩
  · exact ⟨h.keys, stored_updateBookmarks hstored hu (Or.inr ⟨_, _, hd, rfl⟩),
      Or.inr ⟨d, by simp, rfl, rfl⟩⟩
  · exact ⟨h.keys, stored_updateBookmarks hstored hu (Or.inl rfl),
      Or.inr ⟨d, by simp, rfl, rfl⟩⟩
  · exact ⟨h.keys, hstored, Or.inr ⟨d, by simp, rfl, rfl⟩⟩
  · have hk := placeColumns_keeps hr.places hr.found
    refine ⟨hk.keys.trans h.keys, ?_, Or.inr ⟨d, by simp, hk.logFile, hk.logPos⟩⟩
    intro s p hp
    have hst : hr.after.state = v.state := hk.state
    exact hstored s p (hst ▸ hp)

theorem reaches_marked {env : Env} {v₀ v : Vars} {ds : List Delivery} {out : List Effect}
    (h : Reaches (iteration env) v₀ ds out v) : Marked v₀ ds v := by
  induction h with
  | start => exact .start v₀
  | step _ hs ih =>
    obtain ⟨-, em₁, v₁, he, ⟨-, -, rfl⟩ | ⟨-, st, hu, -, rfl⟩⟩ := iteration_next hs
    · exact ih.event he
    · have hm := ih.event he
      exact ⟨hm.keys, stored_updateBookmarks hm.stored hu (Or.inl rfl), hm.reader⟩

theorem Checkpoint.storedPosition {env : Env} {v₀ : Vars} {ds : List Delivery} {d : Delivery}
    {pre : List Effect} {st : State} (h : Checkpoint env v₀ ds d pre st) {s : String}
    (hs : s ∈ v₀.streamsMap.keys) : Binlog.storedPosition st s = some d.position := by
  obtain ⟨v, hp, -, hu⟩ := h.progress
  rw [storedPosition_updateBookmarks hu, if_pos (hp.keys ▸ hs)]
  rfl

/-- The bookmarks after the loop: as the loop left them, or at the last position, which is
advanced at most to the end. -/
theorem finish_storedPosition {env : Env} {v : Vars} {st : State} (h : finish env v = .ok st)
    {s : String} {p : Position} (hp : storedPosition st s = some p) :
    storedPosition v.state s = some p ∨ p = env.endPosition ∨
      ∃ f n, v.logFile = some f ∧ v.logPos = some n ∧ p = toLex (f, n) := by
  unfold finish positionOf at h
  cases hf : v.logFile with
  | none =>
    simp only [hf, Except.ok.injEq] at h
    exact Or.inl (h ▸ hp)
  | some f =>
    cases hn : v.logPos with
    | none =>
      simp only [hf, hn, Except.ok.injEq] at h
      exact Or.inl (h ▸ hp)
    | some n =>
      simp only [hf, hn] at h
      by_cases hz : f = "" ∨ n = 0
      · simp only [hz, if_true, Except.ok.injEq] at h
        exact Or.inl (h ▸ hp)
      · simp only [hz, if_false] at h
        rw [storedPosition_updateBookmarks h] at hp
        split_ifs at hp with hs
        · cases hp
          rw [finalPosition]
          split_ifs with hend
          · exact Or.inr (Or.inl (by rw [hend.1]; rfl))
          · exact Or.inr (Or.inr ⟨f, n, rfl, rfl, rfl⟩)
        · exact Or.inl hp

/-- Where a STATE message stands in the log of a run that started in `v₀`. -/
structure CheckpointAt (env : Env) (v₀ : Vars) (useGtid : Bool) (read before : List LogEntry)
    (e : LogEntry) (pre : List Effect) (st : State) : Prop where
  surfaced : ∃ d, e.delivery useGtid = some d
  taken : deliveries useGtid (before ++ [e]) <+: deliveries useGtid read
  progress : ∃ v, Progress env v₀ (deliveries useGtid (before ++ [e])) pre v ∧
    periodicDue v = true
  reaches : ∃ v, Reaches (iteration env) v₀ (deliveries useGtid (before ++ [e]))
    (pre ++ [.message (.state st)]) v
  stored : ∀ s ∈ v₀.streamsMap.keys, storedPosition st s = some e.readerPosition

theorem deliveries_concat {useGtid : Bool} {l : List LogEntry} {e : LogEntry} {d : Delivery}
    (h : e.delivery useGtid = some d) :
    deliveries useGtid (l ++ [e]) = deliveries useGtid l ++ [d] := by
  rw [deliveries_append]
  simp [deliveries, h]

theorem state_message_entry {env : Env} {v₀ : Vars} {useGtid : Bool} {log : List LogEntry}
    {failure : Option Err} {pre post : List Effect} {st : State}
    (h : (Loop.run (iteration env) (readerEnd failure) (deliveries useGtid log) v₀).1 =
      pre ++ .message (.state st) :: post) :
    ∃ l₁ e l₂, log = l₁ ++ e :: l₂ ∧ CheckpointAt env v₀ useGtid log l₁ e pre st := by
  obtain ⟨a, d, b, hds, hc⟩ := state_message_checkpoint h
  obtain ⟨l₁, e, l₂, rfl, rfl, hde, rfl⟩ := deliveries_split hds
  obtain ⟨v, hv, hdue, -⟩ := hc.progress
  obtain ⟨v', -, hr, -⟩ := hc.reaches
  refine ⟨l₁, e, l₂, rfl, ⟨d, hde⟩, ⟨deliveries useGtid l₂, ?_⟩, ⟨v, ?_, hdue⟩, ⟨v', ?_⟩,
    fun s hs => ?_⟩
  · rw [← deliveries_append, List.append_assoc, List.singleton_append]
  · rw [deliveries_concat hde]
    exact hv
  · rw [deliveries_concat hde]
    exact hr
  · rw [hc.storedPosition hs, delivery_position hde]

end TapMysql.Binlog
