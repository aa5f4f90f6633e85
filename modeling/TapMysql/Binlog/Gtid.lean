import TapMysql.Binlog.Reader

/-!
# Published gtids

A binlog read with GTIDs is a sequence of transactions: a GTID event, then the events of the
transaction. The loop publishes a gtid by writing it into the bookmarks of a STATE message and
by assigning it to `reader.auto_position`. Both happen from the GTID event on, so a published
transaction is finished only if it brings no row of a selected stream.
-/

namespace TapMysql.Binlog

open Loop (Reaches)

structure Transaction where
  gtid : String
  opening : LogEntry
  rest : List LogEntry
  gtid_ne : gtid ≠ ""
  opens : opening.body = .gtid gtid
  single : ∀ e ∈ rest, ∀ g, e.body ≠ .gtid g

namespace Transaction

def entries (t : Transaction) : List LogEntry := t.opening :: t.rest

def log (txns : List Transaction) : List LogEntry := txns.flatMap entries

/-- The row events of selected streams in some transactions. -/
def rows (m : StreamsMap) (txns : List Transaction) : List RowsEvent :=
  (log txns).filterMap (LogEntry.selectedRow m)

/-- The GTID event as the loop sees it. -/
def gtidDelivery (t : Transaction) : Delivery :=
  ⟨.gtid t.gtid, t.opening.file, t.opening.endPos, t.opening.now, t.opening.millis⟩

theorem delivery_opening (t : Transaction) : t.opening.delivery true = some t.gtidDelivery := by
  simp [LogEntry.delivery, LogEntry.surfaced, LogEntry.readerPosition, t.opens, gtidDelivery]

theorem deliveries_entries (t : Transaction) :
    deliveries true t.entries = t.gtidDelivery :: deliveries true t.rest := by
  rw [entries, deliveries, List.filterMap_cons, t.delivery_opening]
  rfl

theorem deliveries_log_split (a b : List Transaction) (t : Transaction) :
    deliveries true (log (a ++ t :: b)) =
      deliveries true (log a) ++ t.gtidDelivery ::
        (deliveries true t.rest ++ deliveries true (log b)) := by
  simp [log, deliveries_append, deliveries_entries]

theorem gtid_delivery {txns : List Transaction} {d : Delivery} {g : String}
    (h : d ∈ deliveries true (log txns)) (hd : d.event = .gtid g) :
    ∃ t ∈ txns, t.gtid = g ∧ d = t.gtidDelivery := by
  obtain ⟨e, he, hde⟩ := List.mem_filterMap.mp h
  obtain ⟨t, ht, het⟩ := List.mem_flatMap.mp he
  rcases List.mem_cons.mp het with rfl | hrest
  · rw [t.delivery_opening, Option.some.injEq] at hde
    rw [← hde] at hd
    exact ⟨t, ht, by simpa [gtidDelivery] using hd, hde.symm⟩
  · unfold LogEntry.delivery LogEntry.surfaced at hde
    have hsingle := t.single e hrest
    cases hb : e.body with
    | gtid g' => exact absurd hb (hsingle g')
    | rows ev =>
      simp only [hb, Option.map_some, Option.some.injEq] at hde
      rw [← hde] at hd
      cases hd
    | rotate next position => simp [hb] at hde
    | tableMap schema table => simp [hb] at hde
    | filtered => simp [hb] at hde

end Transaction

/-- The effect tells the reader or the target that the transaction `g` is done. -/
def Publishes (m : StreamsMap) (x : Effect) (g : String) : Prop :=
  x = .autoPosition g ∨
    ∃ st, x = .message (.state st) ∧ ∃ s ∈ m.keys, st.getBookmark s "gtid" = .str g

/-- When a gtid is published, its transaction and those before it have all their RECORDs. -/
def FinishedWhenPublished (env : Env) (m : StreamsMap) (txns : List Transaction)
    (out : List Effect) : Prop :=
  ∀ pre x post, out = pre ++ x :: post → ∀ a t b, txns = a ++ t :: b → Publishes m x t.gtid →
    Written env m (Transaction.rows m (a ++ [t])) pre

/-- The loop, started in `v₀` on the deliveries `ds`, handles the GTID event of `t`, which
comes after the transactions `a`. -/
def TakesGtid (env : Env) (v₀ : Vars) (ds : List Delivery) (a : List Transaction)
    (t : Transaction) : Prop :=
  deliveries true (Transaction.log a) ++ [t.gtidDelivery] <+: ds ∧
    ∃ out v em v', Reaches (iteration env) v₀ (deliveries true (Transaction.log a)) out v ∧
      reachedEnd env t.gtidDelivery = false ∧
      handleEvent env (takePosition v t.gtidDelivery) t.gtidDelivery = (em, .ok v')

/-- No transaction whose GTID event is handled brings a row of a selected stream. -/
def TakenAreEmpty (env : Env) (m : StreamsMap) (v₀ : Vars) (ds : List Delivery)
    (txns : List Transaction) : Prop :=
  ∀ a t b, txns = a ++ t :: b → TakesGtid env v₀ ds a t →
    ∀ ev ∈ Transaction.rows m [t], ev.change.rowCount = 0

/-! ### Where a gtid comes from -/

theorem reaches_gtidPos {env : Env} {v₀ v : Vars} {ds : List Delivery} {out : List Effect}
    (h : Reaches (iteration env) v₀ ds out v) :
    v.gtidPos = v₀.gtidPos ∨ ∃ d ∈ ds, ∃ g, d.event = .gtid g ∧ v.gtidPos = some g := by
  induction h with
  | start => exact Or.inl rfl
  | @step is out v d em v' _ hs ih =>
    have hkept : v.gtidPos = v₀.gtidPos ∨
        ∃ d' ∈ is ++ [d], ∃ g, d'.event = .gtid g ∧ v.gtidPos = some g := by
      rcases ih with h | ⟨d', hd', h⟩
      · exact Or.inl h
      · exact Or.inr ⟨d', List.mem_append_left _ hd', h⟩
    have hevent : ∀ em₁ v₁, handleEvent env (takePosition v d) d = (em₁, .ok v₁) →
        v₁.gtidPos = v₀.gtidPos ∨
          ∃ d' ∈ is ++ [d], ∃ g, d'.event = .gtid g ∧ v₁.gtidPos = some g := by
      intro em₁ v₁ he
      rcases handleEvent_ok he with ⟨next, position, st, -, -, -, rfl⟩ |
        ⟨g, st, hd, -, -, rfl⟩ | ⟨ev, -, -, -, rfl⟩ | ⟨ev, -, hr, -, rfl⟩
      · exact hkept
      · exact Or.inr ⟨d, by simp, g, hd, rfl⟩
      · exact hkept
      · have hk := placeColumns_keeps hr.places hr.found
        have hg : hr.after.gtidPos = v.gtidPos := hk.gtidPos
        rw [hg]
        exact hkept
    obtain ⟨-, em₁, v₁, he, ⟨-, -, rfl⟩ | ⟨-, st, -, -, rfl⟩⟩ := iteration_next hs
    · exact hevent em₁ _ he
    · have hg := hevent em₁ _ he
      exact hg

theorem handleEvent_autoPosition {env : Env} {v : Vars} {d : Delivery} {g : String}
    (h : .autoPosition g ∈ (handleEvent env v d).1) :
    d.event = .gtid g ∧ ∃ v', handleEvent env v d = ([.autoPosition g], .ok v') := by
  unfold handleEvent at h ⊢
  cases hd : d.event with
  | rotate next position =>
    simp only [hd] at h
    split at h <;> simp at h
  | gtid g' =>
    simp only [hd] at h ⊢
    split at h
    · simp at h
    · rename_i st hu
      have hg : g = g' := by simpa using h
      subst hg
      exact ⟨rfl, _, rfl⟩
  | rows ev => simp [hd] at h

/-- An assignment to `reader.auto_position` is the first thing its GTID event does. -/
theorem autoPosition_split {env : Env} {v₀ : Vars} {ds : List Delivery} {failure : Option Err}
    {pre post : List Effect} {g : String}
    (h : (Loop.run (iteration env) (readerEnd failure) ds v₀).1 =
      pre ++ .autoPosition g :: post) :
    ∃ a d b v v', ds = a ++ d :: b ∧ d.event = .gtid g ∧ Reaches (iteration env) v₀ a pre v ∧
      reachedEnd env d = false ∧
      handleEvent env (takePosition v d) d = ([.autoPosition g], .ok v') := by
  have hfirst : ∀ e₁ e₂ tail : List Effect,
      [.autoPosition g] ++ tail = e₁ ++ .autoPosition g :: e₂ → .autoPosition g ∉ tail →
        e₁ = [] := by
    intro e₁ e₂ tail he hnot
    cases e₁ with
    | nil => rfl
    | cons x e₁ =>
      simp only [List.cons_append, List.nil_append, List.cons.injEq] at he
      exact absurd (he.2 ▸ by simp) hnot
  rcases Loop.run_split h with ⟨a, d, b, out, v, em, v', e₁, e₂, rfl, hr, hs, hem, rfl⟩ |
    ⟨a, d, b, out, v, em, t, e₁, e₂, rfl, hr, hs, hem, rfl⟩ | ⟨out, v, e₁, e₂, hr, hem, rfl⟩
  · obtain ⟨hend, em₁, v₁, he, htail⟩ := iteration_next hs
    obtain ⟨tail, rfl, hnot⟩ : ∃ tail, em = em₁ ++ tail ∧ .autoPosition g ∉ tail := by
      rcases htail with ⟨-, rfl, -⟩ | ⟨-, st, -, rfl, -⟩
      · exact ⟨[], by simp, by simp⟩
      · exact ⟨_, rfl, by simp⟩
    have hmem : .autoPosition g ∈ (handleEvent env (takePosition v d) d).1 := by
      have hin : .autoPosition g ∈ em₁ ++ tail := hem ▸ by simp
      rw [he]
      exact (List.mem_append.mp hin).resolve_right hnot
    obtain ⟨hd, v₂, hv₂⟩ := handleEvent_autoPosition hmem
    have hem₁ : em₁ = [.autoPosition g] := by
      rw [hv₂] at he
      exact (Prod.mk.inj he).1.symm
    rw [hem₁] at hem
    rw [hfirst _ _ _ hem hnot, List.append_nil]
    exact ⟨a, d, b, v, v₂, rfl, hd, hr, hend, hv₂⟩
  · rcases iteration_halt hs with ⟨-, rfl, -⟩ | ⟨hend, rfl, -⟩
    · simp at hem
    · have hmem : .autoPosition g ∈ (handleEvent env (takePosition v d) d).1 := by
        rw [hem]
        simp
      obtain ⟨hd, v₂, hv₂⟩ := handleEvent_autoPosition hmem
      rw [hv₂] at hem
      have he₁ : e₁ = [] := hfirst e₁ e₂ [] (by simpa using hem) (by simp)
      rw [he₁, List.append_nil]
      exact ⟨a, d, b, v, v₂, rfl, hd, hr, hend, hv₂⟩
  · have hnil : (readerEnd failure v).1 = [] := by cases failure <;> rfl
    rw [hnil] at hem
    simp at hem

/-! ### Transactions taken -/

section Taken

variable {env : Env} {m : StreamsMap} {v₀ v : Vars} {ds ds' : List Delivery} {out : List Effect}
  {a b : List Transaction} {t : Transaction}

/-- A loop head behind a GTID event has taken it. -/
theorem takesGtid_of_reaches (hr : Reaches (iteration env) v₀ ds' out v) (hds : ds' <+: ds)
    (hp : deliveries true (Transaction.log a) ++ [t.gtidDelivery] <+: ds') :
    TakesGtid env v₀ ds a t := by
  refine ⟨hp.trans hds, ?_⟩
  obtain ⟨rest, hrest⟩ := hp
  rw [List.append_assoc, List.singleton_append] at hrest
  obtain ⟨out₁, v₁, em, v₂, hr₁, hs⟩ := Loop.Reaches.split (hrest ▸ hr)
  obtain ⟨hend, em₁, v₃, he, -⟩ := iteration_next hs
  exact ⟨out₁, v₁, em₁, v₃, hr₁, hend, he⟩

theorem gtid_behind (hnodup : ((a ++ t :: b).map Transaction.gtid).Nodup)
    (hds : ds <+: deliveries true (Transaction.log (a ++ t :: b)))
    (hmem : ∃ d ∈ ds, d.event = .gtid t.gtid) :
    deliveries true (Transaction.log a) ++ [t.gtidDelivery] <+: ds := by
  have hp : deliveries true (Transaction.log a) ++ [t.gtidDelivery] <+:
      deliveries true (Transaction.log (a ++ t :: b)) := by
    rw [Transaction.deliveries_log_split]
    exact ⟨deliveries true t.rest ++ deliveries true (Transaction.log b), by simp⟩
  rcases List.prefix_or_prefix_of_prefix hp hds with h | h
  · exact h
  · rcases List.prefix_concat_iff.mp h with rfl | h
    · exact List.prefix_rfl
    · -- otherwise a transaction before `t` would have its gtid
      obtain ⟨d, hd, hg⟩ := hmem
      obtain ⟨t', ht', hgt, -⟩ := Transaction.gtid_delivery (h.subset hd) hg
      rw [List.map_append, List.nodup_append] at hnodup
      exact absurd hgt (hnodup.2.2 _ (List.mem_map_of_mem ht') _
        (List.mem_map_of_mem List.mem_cons_self))

theorem rows_selected {txns : List Transaction} {ev : RowsEvent}
    (h : ev ∈ Transaction.rows m txns) : ∃ entry, m.get? ev.tapStreamId = some entry := by
  obtain ⟨e, -, hev⟩ := List.mem_filterMap.mp h
  exact selectedRow_found hev

theorem written_of_empty {evs : List RowsEvent}
    (h : ∀ ev ∈ evs, ev.change.rowCount = 0 ∧ ∃ entry, m.get? ev.tapStreamId = some entry) :
    Written env m evs out := by
  suffices hall : List.Forall₂ (RecordsOf env m) evs (evs.map fun _ => []) from
    ⟨_, hall, by simp⟩
  induction evs with
  | nil => exact .nil
  | cons ev evs ih =>
    refine .cons ?_ (ih fun ev' hev' => h ev' (List.mem_cons_of_mem _ hev'))
    obtain ⟨hzero, entry, hentry⟩ := h ev List.mem_cons_self
    have himages : ev.images = [] := by
      rw [← List.length_eq_zero_iff, images_length, hzero]
    exact ⟨entry, State.empty, "", 0, Or.inl hentry, by
      rw [handleRowsEvent_eq, handleRows, himages]
      rfl⟩

theorem rows_append (xs ys : List Transaction) :
    Transaction.rows m (xs ++ ys) = Transaction.rows m xs ++ Transaction.rows m ys := by
  simp [Transaction.rows, Transaction.log]

theorem mem_rows {txns : List Transaction} {ev : RowsEvent} :
    ev ∈ Transaction.rows m txns ↔ ∃ t ∈ txns, ev ∈ Transaction.rows m [t] := by
  simp only [Transaction.rows, Transaction.log, List.mem_filterMap, List.mem_flatMap,
    List.flatMap_singleton]
  constructor
  · intro h
    obtain ⟨e, ⟨t, ht, he⟩, hev⟩ := h
    exact ⟨t, ht, e, he, hev⟩
  · intro h
    obtain ⟨t, ht, e, he, hev⟩ := h
    exact ⟨e, ⟨t, ht, he⟩, hev⟩

theorem written_of_takenAreEmpty {txns : List Transaction} (ht : txns = a ++ t :: b)
    (hempty : TakenAreEmpty env m v₀ ds txns) (htake : TakesGtid env v₀ ds a t) :
    Written env m (Transaction.rows m (a ++ [t])) out := by
  refine written_of_empty fun ev hev => ⟨?_, rows_selected hev⟩
  obtain ⟨t', ht', hev'⟩ := mem_rows.mp hev
  rcases List.mem_append.mp ht' with hin | hin
  · obtain ⟨a₁, a₂, rfl⟩ := List.append_of_mem hin
    obtain ⟨hds, out₁, v₁, em, v₂, hr, -⟩ := htake
    have hpa : deliveries true (Transaction.log a₁) ++ [t'.gtidDelivery] <+:
        deliveries true (Transaction.log (a₁ ++ t' :: a₂)) := by
      rw [Transaction.deliveries_log_split]
      exact ⟨deliveries true t'.rest ++ deliveries true (Transaction.log a₂), by simp⟩
    have hda : deliveries true (Transaction.log (a₁ ++ t' :: a₂)) <+: ds :=
      (List.prefix_append _ _).trans hds
    exact hempty a₁ t' (a₂ ++ t :: b) (by simp [ht]) (takesGtid_of_reaches hr hda hpa) ev hev'
  · rw [List.mem_singleton] at hin
    subst hin
    exact hempty a t' b ht htake ev hev'

theorem not_written_at_gtid
    (hr : Reaches (iteration env) v₀ (deliveries true (Transaction.log a)) out v)
    (hm : v₀.streamsMap = m) {ev : RowsEvent} (hev : ev ∈ Transaction.rows m [t])
    (hrows : ev.change.rowCount ≠ 0) : ¬ Written env m (Transaction.rows m (a ++ [t])) out := by
  intro h
  obtain ⟨rss, hrss, hp⟩ := h
  obtain ⟨rss₀, hrss₀, hout⟩ := (reaches_progress hr).records
  rw [hm, selectedRows_deliveries] at hrss₀
  have hle := hp.length_le
  rw [hout, records_length hrss, records_length hrss₀, rows_append, List.map_append,
    List.sum_append] at hle
  have hpos : 0 < ((Transaction.rows m [t]).map fun ev => ev.change.rowCount).sum :=
    List.sum_pos_iff_exists_pos_nat.mpr
      ⟨_, List.mem_map_of_mem hev, Nat.pos_of_ne_zero hrows⟩
  unfold Transaction.rows at hle hpos
  omega

end Taken

/-! ### Whole runs -/

section Run

variable {env : Env} {m : StreamsMap} {st₀ : State} {g₀ : String} {txns : List Transaction} {n : ℕ}
  {failure : Option Err}

theorem run_autoPosition {v₀ v v' : Vars} {a b : List Delivery} {d : Delivery} {g : String}
    {out em : List Effect} (hr : Reaches (iteration env) v₀ a out v) (hd : d.event = .gtid g)
    (hend : reachedEnd env d = false)
    (he : handleEvent env (takePosition v d) d = (em, .ok v')) :
    ∃ post, (Loop.run (iteration env) (readerEnd failure) (a ++ d :: b) v₀).1 =
      out ++ .autoPosition g :: post := by
  have hem : em = [.autoPosition g] := by
    have hmem : .autoPosition g ∈ (handleEvent env (takePosition v d) d).1 := by
      rw [he]
      rcases handleEvent_ok he with ⟨next, position, st, hd', -⟩ | ⟨g', st, hd', -, rfl, -⟩ |
        ⟨ev, hd', -⟩ | ⟨ev, hd', -⟩
      · rw [hd] at hd'
        cases hd'
      · rw [hd] at hd'
        cases hd'
        simp
      · rw [hd] at hd'
        cases hd'
      · rw [hd] at hd'
        cases hd'
    obtain ⟨-, v₂, hv₂⟩ := handleEvent_autoPosition hmem
    rw [he] at hv₂
    exact (Prod.mk.inj hv₂).1
  subst hem
  rw [Loop.run_of_reaches hr]
  obtain ⟨post, hpost⟩ : ∃ post, (Loop.run (iteration env) (readerEnd failure) (d :: b) v).1 =
      .autoPosition g :: post := by
    simp only [Loop.run, iteration, hend, Bool.false_eq_true, if_false, he]
    split_ifs with hdue
    · cases updateBookmarks v'.state v'.streamsMap d.logFile d.logPos v'.gtidPos with
      | error e => exact ⟨_, rfl⟩
      | ok st => exact ⟨_, rfl⟩
    · exact ⟨_, rfl⟩
  exact ⟨post, by rw [hpost]⟩

theorem finished_of_takenAreEmpty (hnodup : (g₀ :: txns.map Transaction.gtid).Nodup)
    (hg₀ : g₀ ≠ "")
    (hempty : TakenAreEmpty env m (initialVars m st₀ (some g₀))
      (deliveries true ((Transaction.log txns).take n)) txns) :
    FinishedWhenPublished env m txns (runBinlogSync env m st₀ (some g₀)
      (deliveries true ((Transaction.log txns).take n)) failure).1 := by
  intro pre x post hout a t b htxns hpub
  obtain ⟨hnew, hdistinct⟩ := List.nodup_cons.mp hnodup
  have hlog : deliveries true ((Transaction.log txns).take n) <+:
      deliveries true (Transaction.log (a ++ t :: b)) := by
    rw [← htxns]
    exact ⟨deliveries true ((Transaction.log txns).drop n), by
      rw [← deliveries_append, List.take_append_drop]⟩
  have hdistinct' : ((a ++ t :: b).map Transaction.gtid).Nodup := htxns ▸ hdistinct
  refine written_of_takenAreEmpty htxns hempty ?_
  rcases hpub with rfl | ⟨st, rfl, s, hs, hgtid⟩
  · -- the assignment to `auto_position` is made by the GTID event of `t` itself
    obtain ⟨c, d, c', v, v', hds, hd, hr, hend, he⟩ := autoPosition_split hout
    have hp : c ++ [d] <+: deliveries true ((Transaction.log txns).take n) :=
      ⟨c', by simp [hds]⟩
    have hbehind := gtid_behind hdistinct' (hp.trans hlog) ⟨d, by simp, hd⟩
    rcases List.prefix_concat_iff.mp hbehind with heq | hlt
    · obtain ⟨rfl, hdd⟩ := List.append_inj' heq rfl
      simp only [List.cons.injEq, and_true] at hdd
      subst hdd
      exact ⟨hp, pre, v, _, v', hr, hend, he⟩
    · exact takesGtid_of_reaches hr ((List.prefix_append c [d]).trans hp) hlt
  · obtain ⟨c, d, c', hds, hc⟩ := state_message_checkpoint hout
    obtain ⟨v, before, hr, hu⟩ := hc.reaches
    have hp : c ++ [d] <+: deliveries true ((Transaction.log txns).take n) :=
      ⟨c', by simp [hds]⟩
    have hkeys : s ∈ v.streamsMap.keys := by
      rw [(reaches_progress hr).keys]
      exact hs
    rw [getBookmark_updateBookmarks hu, if_pos hkeys] at hgtid
    refine takesGtid_of_reaches hr hp (gtid_behind hdistinct' (hp.trans hlog) ?_)
    rcases reaches_gtidPos hr with hpos | ⟨d', hd', g, hg, hpos⟩
    · -- the gtid of the start is none of the transactions'
      have hpos' : v.gtidPos = some g₀ := hpos
      simp only [positionValue, hpos', hg₀, if_false] at hgtid
      refine absurd (List.mem_map.mpr ⟨t, ?_, ?_⟩) hnew
      · simp [htxns]
      · simpa [eq_comm] using hgtid
    · obtain ⟨t', -, hgt, -⟩ :=
        Transaction.gtid_delivery ((hp.trans hlog).subset hd') hg
      have hne : g ≠ "" := hgt ▸ t'.gtid_ne
      simp only [positionValue, hpos, hne, if_false] at hgtid
      have hgg : g = t.gtid := by simpa using hgtid
      exact ⟨d', hd', hgg ▸ hg⟩

theorem takenAreEmpty_of_finished
    (h : FinishedWhenPublished env m txns (runBinlogSync env m st₀ (some g₀)
      (deliveries true ((Transaction.log txns).take n)) failure).1) :
    TakenAreEmpty env m (initialVars m st₀ (some g₀))
      (deliveries true ((Transaction.log txns).take n)) txns := by
  intro a t b htxns htake ev hev
  by_contra hrows
  obtain ⟨⟨rest, hrest⟩, out, v, em, v', hr, hend, he⟩ := htake
  rw [List.append_assoc, List.singleton_append] at hrest
  obtain ⟨post, hpost⟩ : ∃ post, (Loop.run (iteration env) (readerEnd failure)
      (deliveries true (Transaction.log a) ++ t.gtidDelivery :: rest)
      (initialVars m st₀ (some g₀))).1 = out ++ .autoPosition t.gtid :: post :=
    run_autoPosition hr rfl hend he
  refine not_written_at_gtid hr rfl hev hrows (h out (.autoPosition t.gtid) post ?_ a t b htxns
    (Or.inl rfl))
  rw [runBinlogSync, ← hrest]
  exact hpost

/-- A published gtid names only finished transactions exactly when no transaction whose GTID
event the loop handles brings a row of a selected stream. -/
theorem finished_when_published_iff (hnodup : (g₀ :: txns.map Transaction.gtid).Nodup)
    (hg₀ : g₀ ≠ "") :
    FinishedWhenPublished env m txns (runBinlogSync env m st₀ (some g₀)
      (deliveries true ((Transaction.log txns).take n)) failure).1 ↔
    TakenAreEmpty env m (initialVars m st₀ (some g₀))
      (deliveries true ((Transaction.log txns).take n)) txns :=
  ⟨takenAreEmpty_of_finished, finished_of_takenAreEmpty hnodup hg₀⟩

end Run

/-! ### A transaction that inserts into a selected stream -/

def Sample.insertTransaction : Transaction where
  gtid := "0-1-2"
  opening := ⟨"bin.1", 80, .gtid "0-1-2", "", 0⟩
  rest := [⟨"bin.1", 120, .rows (Sample.insert "t" 1), "", 0⟩, ⟨"bin.1", 150, .filtered, "", 0⟩]
  gtid_ne := by decide
  opens := rfl
  single := by simp

/-- The gtid of the transaction is assigned to `auto_position` before its row is written. -/
theorem published_before_insert :
    ¬ FinishedWhenPublished (Sample.env "bin.1" 150) Sample.streamsMap [Sample.insertTransaction]
      (runBinlogSync (Sample.env "bin.1" 150) Sample.streamsMap State.empty (some "0-1-1")
        (deliveries true ((Transaction.log [Sample.insertTransaction]).take 3)) none).1 := by
  intro h
  have hrows : Transaction.rows Sample.streamsMap [Sample.insertTransaction] =
      [Sample.insert "t" 1] := rfl
  have hempty := takenAreEmpty_of_finished h [] Sample.insertTransaction [] rfl
    ⟨⟨[_], rfl⟩, [], _, _, _, .start, by decide, rfl⟩ (Sample.insert "t" 1) (by simp [hrows])
  exact absurd hempty (by decide)

theorem finished_when_published_iff_insert :
    FinishedWhenPublished (Sample.env "bin.1" 150) Sample.streamsMap [Sample.insertTransaction]
      (runBinlogSync (Sample.env "bin.1" 150) Sample.streamsMap State.empty (some "0-1-1")
        (deliveries true ((Transaction.log [Sample.insertTransaction]).take 3)) none).1 ↔
    TakenAreEmpty (Sample.env "bin.1" 150) Sample.streamsMap
      (initialVars Sample.streamsMap State.empty (some "0-1-1"))
      (deliveries true ((Transaction.log [Sample.insertTransaction]).take 3))
      [Sample.insertTransaction] :=
  finished_when_published_iff (by decide) (by decide)

end TapMysql.Binlog
