import TapMysql.Binlog.Written
import Mathlib.Data.Prod.Lex
import Mathlib.Data.String.Basic

/-!
# The binlog and its reader

A binlog is a list of entries in the order of their end offsets. The reader surfaces the kinds
of event it was created for and shows, after each of them, the end offset of the event just
read, or the target of a rotate event. Positions are compared by file name, then by offset.
-/

namespace TapMysql.Binlog

open Loop (Reaches)

abbrev Position := String ×ₗ ℕ

inductive LogBody where
  | rows (ev : RowsEvent)
  | tableMap (schema table : String)
  | rotate (nextBinlog : String) (position : ℕ)
  | gtid (gtid : String)
  /-- Any event the reader always drops, such as the commit of a transaction. -/
  | filtered
  deriving DecidableEq

/-- An event of the binlog, with the clock at the time the tap handles it. -/
structure LogEntry where
  file : String
  endPos : ℕ
  body : LogBody
  now : String
  millis : Int
  deriving DecidableEq

namespace LogEntry

/-- `(reader.log_file, reader.log_pos)` after the event was read. -/
def readerPosition (e : LogEntry) : Position :=
  match e.body with
  | .rotate next position => toLex (next, position)
  | _ => toLex (e.file, e.endPos)

def isRows (e : LogEntry) : Bool :=
  match e.body with
  | .rows _ => true
  | _ => false

def isRotate (e : LogEntry) : Bool :=
  match e.body with
  | .rotate _ _ => true
  | _ => false

/-- The event as the reader of `create_binlog_stream_reader` surfaces it. -/
def surfaced (useGtid : Bool) (e : LogEntry) : Option Event :=
  match e.body with
  | .rows ev => some (.rows ev)
  | .rotate next position => if useGtid then none else some (.rotate next position)
  | .gtid g => if useGtid then some (.gtid g) else none
  | _ => none

def delivery (useGtid : Bool) (e : LogEntry) : Option Delivery :=
  (e.surfaced useGtid).map fun event =>
    ⟨event, (ofLex e.readerPosition).1, (ofLex e.readerPosition).2, e.now, e.millis⟩

def selectedRow (m : StreamsMap) (e : LogEntry) : Option RowsEvent :=
  match e.body with
  | .rows ev => if m.contains ev.tapStreamId then some ev else none
  | _ => none

end LogEntry

def deliveries (useGtid : Bool) (log : List LogEntry) : List Delivery :=
  log.filterMap (LogEntry.delivery useGtid)

def Delivery.position (d : Delivery) : Position := toLex (d.logFile, d.logPos)

def Env.endPosition (env : Env) : Position := toLex (env.endLogFile, env.endLogPos)

/-- The row events of selected streams that end at or before a position. -/
def rowsUpTo (m : StreamsMap) (log : List LogEntry) (p : Position) : List RowsEvent :=
  (log.filter fun e => decide (e.readerPosition ≤ p)).filterMap (LogEntry.selectedRow m)

/-- An entry that comes after a position: it ends behind it, unless it is a rotate event, which
may name the very position the reader is at. -/
def LogEntry.After (p : Position) (e : LogEntry) : Prop :=
  p ≤ e.readerPosition ∧ (e.isRotate = false → p < e.readerPosition)

instance (p : Position) (e : LogEntry) : Decidable (e.After p) :=
  inferInstanceAs (Decidable (_ ∧ (_ → _)))

/-- The entries from a start position on, in the order of their offsets. -/
structure Ordered (start : Position) (log : List LogEntry) : Prop where
  after_start : ∀ e ∈ log, e.After start
  pairwise : log.Pairwise fun e e' => e'.After e.readerPosition

theorem isRotate_of_isRows {e : LogEntry} (h : e.isRows = true) : e.isRotate = false := by
  rw [LogEntry.isRows] at h
  rw [LogEntry.isRotate]
  cases hb : e.body <;> simp_all

theorem Ordered.behind {start : Position} {l₁ l₂ : List LogEntry}
    (h : Ordered start (l₁ ++ l₂)) {e : LogEntry} (he : e ∈ l₁) :
    ∀ e' ∈ l₂, e'.isRows = true → e.readerPosition < e'.readerPosition :=
  fun e' he' hr =>
    ((List.pairwise_append.mp h.pairwise).2.2 e he e' he').2 (isRotate_of_isRows hr)

theorem Ordered.split_unique {start : Position} {l₁ l₂ k₁ k₂ : List LogEntry} {e : LogEntry}
    (h : Ordered start (l₁ ++ e :: l₂)) (heq : l₁ ++ e :: l₂ = k₁ ++ e :: k₂)
    (he : e.isRows = true) : l₁ = k₁ := by
  rcases List.append_eq_append_iff.mp heq with ⟨c, rfl, hc⟩ | ⟨c, rfl, hc⟩
  · cases c with
    | nil => simp
    | cons x c =>
      simp only [List.cons_append, List.cons.injEq] at hc
      rw [heq] at h
      exact absurd (h.behind (by simp [hc.1] : e ∈ l₁ ++ x :: c) e (by simp) he) (lt_irrefl _)
  · cases c with
    | nil => simp
    | cons x c =>
      simp only [List.cons_append, List.cons.injEq] at hc
      exact absurd (h.behind (by simp [hc.1] : e ∈ k₁ ++ x :: c) e (by simp) he) (lt_irrefl _)

theorem Ordered.left {start : Position} {l₁ l₂ : List LogEntry} (h : Ordered start (l₁ ++ l₂)) :
    l₁.Pairwise fun e e' => e'.After e.readerPosition :=
  (List.pairwise_append.mp h.pairwise).1

/-! ### Deliveries -/

theorem deliveries_append (useGtid : Bool) (l₁ l₂ : List LogEntry) :
    deliveries useGtid (l₁ ++ l₂) = deliveries useGtid l₁ ++ deliveries useGtid l₂ :=
  List.filterMap_append

theorem delivery_position {useGtid : Bool} {e : LogEntry} {d : Delivery}
    (h : e.delivery useGtid = some d) : d.position = e.readerPosition := by
  rw [LogEntry.delivery] at h
  cases hs : e.surfaced useGtid with
  | none => simp [hs] at h
  | some event =>
    simp only [hs, Option.map_some, Option.some.injEq] at h
    rw [← h]
    rfl

theorem delivery_rotate {useGtid : Bool} {e : LogEntry} {d : Delivery} {f : String} {p : ℕ}
    (h : e.delivery useGtid = some d) (hd : d.event = .rotate f p) :
    e.readerPosition = toLex (f, p) := by
  unfold LogEntry.delivery LogEntry.surfaced at h
  rw [LogEntry.readerPosition]
  cases hb : e.body with
  | rows ev =>
    simp only [hb, Option.map_some, Option.some.injEq] at h
    rw [← h] at hd
    cases hd
  | rotate next position =>
    cases useGtid with
    | true => simp [hb] at h
    | false =>
      simp only [hb, Bool.false_eq_true, if_false, Option.map_some, Option.some.injEq] at h
      rw [← h] at hd
      simp only [Event.rotate.injEq] at hd
      rw [hd.1, hd.2]
  | gtid g =>
    cases useGtid with
    | true =>
      simp only [hb, if_true, Option.map_some, Option.some.injEq] at h
      rw [← h] at hd
      cases hd
    | false => simp [hb] at h
  | tableMap schema table => simp [hb] at h
  | filtered => simp [hb] at h

theorem deliveries_split {useGtid : Bool} {log : List LogEntry} {a b : List Delivery}
    {d : Delivery} (h : deliveries useGtid log = a ++ d :: b) :
    ∃ l₁ e l₂, log = l₁ ++ e :: l₂ ∧ deliveries useGtid l₁ = a ∧ e.delivery useGtid = some d ∧
      deliveries useGtid l₂ = b := by
  obtain ⟨l₁, rest, rfl, ha, hrest⟩ := List.filterMap_eq_append_iff.mp h
  obtain ⟨skipped, e, l₂, rfl, hskipped, he, hb⟩ := List.filterMap_eq_cons_iff.mp hrest
  refine ⟨l₁ ++ skipped, e, l₂, by simp, ?_, he, hb⟩
  have hnil : deliveries useGtid skipped = [] := by
    rw [deliveries, List.filterMap_eq_nil_iff]
    exact hskipped
  rw [deliveries_append, hnil, List.append_nil]
  exact ha

theorem selectedRow_delivery (useGtid : Bool) (m : StreamsMap) (e : LogEntry) :
    (e.delivery useGtid).bind (fun d => d.event.selected? m) = e.selectedRow m := by
  unfold LogEntry.delivery LogEntry.surfaced LogEntry.selectedRow
  cases hb : e.body with
  | rows ev => simp [Event.selected?]
  | rotate next position => cases useGtid <;> simp [Event.selected?]
  | gtid g => cases useGtid <;> simp [Event.selected?]
  | tableMap schema table => simp
  | filtered => simp

theorem selectedRows_deliveries (useGtid : Bool) (m : StreamsMap) (log : List LogEntry) :
    selectedRows m (deliveries useGtid log) = log.filterMap (LogEntry.selectedRow m) := by
  rw [selectedRows, deliveries, List.filterMap_filterMap]
  congr 1
  funext e
  exact selectedRow_delivery useGtid m e

theorem selectedRow_isRows {m : StreamsMap} {e : LogEntry} {ev : RowsEvent}
    (h : e.selectedRow m = some ev) : e.isRows = true := by
  rw [LogEntry.selectedRow] at h
  rw [LogEntry.isRows]
  cases hb : e.body with
  | rows ev' => rfl
  | tableMap schema table => simp [hb] at h
  | rotate next position => simp [hb] at h
  | gtid g => simp [hb] at h
  | filtered => simp [hb] at h

theorem selectedRow_found {m : StreamsMap} {e : LogEntry} {ev : RowsEvent}
    (h : e.selectedRow m = some ev) : ∃ entry, m.get? ev.tapStreamId = some entry := by
  rw [LogEntry.selectedRow] at h
  cases hb : e.body with
  | rows ev' =>
    simp only [hb] at h
    split_ifs at h with hc
    cases h
    exact Dict.mem_keys_iff.mp (Dict.contains_iff.mp hc)
  | tableMap schema table => simp [hb] at h
  | rotate next position => simp [hb] at h
  | gtid g => simp [hb] at h
  | filtered => simp [hb] at h

/-! ### Row events up to a position -/

theorem rowsUpTo_append (m : StreamsMap) (l₁ l₂ : List LogEntry) (p : Position) :
    rowsUpTo m (l₁ ++ l₂) p = rowsUpTo m l₁ p ++ rowsUpTo m l₂ p := by
  simp [rowsUpTo]

theorem rowsUpTo_eq_nil {m : StreamsMap} {log : List LogEntry} {p : Position}
    (h : ∀ e ∈ log, e.isRows = true → p < e.readerPosition) : rowsUpTo m log p = [] := by
  rw [rowsUpTo, List.filterMap_eq_nil_iff]
  intro e he
  obtain ⟨hmem, hle⟩ := List.mem_filter.mp he
  cases hs : e.selectedRow m with
  | none => rfl
  | some ev =>
    have hlt := h e hmem (selectedRow_isRows hs)
    exact absurd (of_decide_eq_true hle) (not_le_of_gt hlt)

theorem rowsUpTo_first (m : StreamsMap) (p : Position) {log : List LogEntry}
    (h : log.Pairwise fun e e' => e'.After e.readerPosition) :
    rowsUpTo m log p <+: log.filterMap (LogEntry.selectedRow m) := by
  induction log with
  | nil => exact List.prefix_rfl
  | cons e log ih =>
    obtain ⟨hafter, hlog⟩ := List.pairwise_cons.mp h
    by_cases hle : e.readerPosition ≤ p
    · have hcons : rowsUpTo m (e :: log) p =
          [e].filterMap (LogEntry.selectedRow m) ++ rowsUpTo m log p := by
        rw [← List.singleton_append, rowsUpTo_append]
        simp [rowsUpTo, hle]
      have hall : (e :: log).filterMap (LogEntry.selectedRow m) =
          [e].filterMap (LogEntry.selectedRow m) ++ log.filterMap (LogEntry.selectedRow m) := by
        rw [← List.filterMap_append, List.singleton_append]
      rw [hcons, hall]
      exact (List.prefix_append_right_inj _).mpr (ih hlog)
    · have hlt := lt_of_not_ge hle
      have hnil : rowsUpTo m (e :: log) p = [] := by
        refine rowsUpTo_eq_nil fun e' he' _ => ?_
        rcases List.mem_cons.mp he' with rfl | he'
        · exact hlt
        · exact lt_of_lt_of_le hlt (hafter e' he').1
      rw [hnil]
      exact List.nil_prefix

/-- When all row events of the rest lie behind a position, the row events up to it are among
those delivered. -/
theorem rowsUpTo_delivered {useGtid : Bool} {m : StreamsMap} {l₁ l₂ : List LogEntry}
    {p : Position} (hlog : l₁.Pairwise fun e e' => e'.After e.readerPosition)
    (hrest : ∀ e ∈ l₂, e.isRows = true → p < e.readerPosition) :
    rowsUpTo m (l₁ ++ l₂) p <+: selectedRows m (deliveries useGtid l₁) := by
  rw [rowsUpTo_append, rowsUpTo_eq_nil hrest, List.append_nil, selectedRows_deliveries]
  exact rowsUpTo_first m p hlog

end TapMysql.Binlog
