import TapMysql.Binlog.FileOrder
import TapMysql.Binlog.MinPositions
import TapMysql.Binlog.Mirror
import TapMysql.Binlog.Statement

/-!
# The log of a table

The row events of one table in a binlog, as changes of its rows, up to a position and behind it,
and a reader that goes through them from the position of a bookmark on.
-/

namespace TapMysql.Binlog

/-! ### The log of a table -/

namespace SyncedTable

def streamId (T : SyncedTable) : String := T.entry.catalogEntry.tapStreamId

/-- The table as the only one of a streams map. -/
def only (T : SyncedTable) : StreamsMap := Dict.empty.set T.streamId T.entry

/-- The row event of a change of the table. -/
def rowsOf (T : SyncedTable) (change : TableChange T.Row) (timestamp : Int) : RowsEvent :=
  Event.rowsEvent ⟨change, timestamp, State.empty, "", 0⟩

/-- The columns of the events have names, and none of them is a reason for a discovery. -/
structure Settled (T : SyncedTable) : Prop where
  named : ∀ ev : RowsEvent, ev.columns = T.dbColumns → unnamedColumns ev = []
  known : ∀ ev : RowsEvent, ev.columns = T.dbColumns → ∀ ignored,
    shouldRunDiscovery (getDiffInColumnsList ev T.entry.catalogEntry.schema.keys ignored)
      T.entry.catalogEntry.metadata = false

end SyncedTable

/-- A binlog with what its row events for the stream of the table change in the table. -/
structure TableLog (T : SyncedTable) where
  log : List LogEntry
  change : RowsEvent → TableChange T.Row
  ordered : log.Pairwise fun e e' => e'.After e.readerPosition
  rows : ∀ e ∈ log, ∀ ev, e.selectedRow T.only = some ev → ev = T.rowsOf (change ev) ev.timestamp

namespace TableLog

open SyncedTable

variable {T : SyncedTable} (H : TableLog T)

def owns (T : SyncedTable) (e : LogEntry) : Bool := (e.selectedRow T.only).isSome

def editsOf (evs : List RowsEvent) : List (Edit T.Row) := evs.flatMap fun ev => (H.change ev).edits

/-- The changes of the rows of the table in a part of the log. -/
def edits (l : List LogEntry) : List (Edit T.Row) :=
  H.editsOf (l.filterMap (LogEntry.selectedRow T.only))

/-- The changes of the rows up to a position. -/
def upTo (p : Position) : List (Edit T.Row) :=
  H.edits (H.log.filter fun e => decide (e.readerPosition ≤ p))

end TableLog

/-- What a reader created at `p` goes through: events in their order, and among them all row
events of the table behind `p`, as far as it reads. -/
structure ReadsTable {T : SyncedTable} (H : TableLog T) (p : Position) (l : List LogEntry) :
    Prop where
  ordered : Ordered p l
  logged : ∀ e ∈ l, TableLog.owns T e = true → e ∈ H.log
  complete : ∀ e ∈ l, ∀ x ∈ H.log, TableLog.owns T x = true → p < x.readerPosition →
    x.readerPosition ≤ e.readerPosition → x ∈ l

namespace TableLog

open SyncedTable

variable {T : SyncedTable} (H : TableLog T) {p q : Position} {l l₁ l₂ : List LogEntry}

theorem edits_append (l₁ l₂ : List LogEntry) : H.edits (l₁ ++ l₂) = H.edits l₁ ++ H.edits l₂ := by
  rw [edits, List.filterMap_append, editsOf, List.flatMap_append]
  rfl

theorem edits_eq_deliveries (l : List LogEntry) :
    H.edits l = H.editsOf (selectedRows T.only (deliveries false l)) := by
  rw [edits, selectedRows_deliveries]

theorem edits_filter_owns (l : List LogEntry) : H.edits (l.filter (owns T)) = H.edits l := by
  unfold edits
  rw [List.filterMap_filter]
  congr 2
  funext e
  cases h : e.selectedRow T.only <;> simp [owns, h]

theorem isRows_of_owns {e : LogEntry} (h : owns T e = true) : e.isRows = true := by
  obtain ⟨ev, hev⟩ := Option.isSome_iff_exists.mp h
  exact selectedRow_isRows hev

/-- The row events of the table stand in the order of their positions. -/
theorem owned_sorted (h : l.Pairwise fun e e' => e'.After e.readerPosition) :
    (l.filter (owns T)).Pairwise fun e e' => e.readerPosition < e'.readerPosition := by
  rw [List.pairwise_filter]
  refine h.imp fun {e e'} hafter _ he' => hafter.2 (isRotate_of_isRows (isRows_of_owns he'))

theorem owned_eq_of_mem_iff (h₁ : l₁.Pairwise fun e e' => e'.After e.readerPosition)
    (h₂ : l₂.Pairwise fun e e' => e'.After e.readerPosition)
    (h : ∀ e, owns T e = true → (e ∈ l₁ ↔ e ∈ l₂)) : H.edits l₁ = H.edits l₂ := by
  have hirrefl : Std.Irrefl fun e e' : LogEntry => e.readerPosition < e'.readerPosition :=
    ⟨fun e => lt_irrefl _⟩
  rw [← H.edits_filter_owns l₁, ← H.edits_filter_owns l₂]
  congr 1
  apply (owned_sorted h₁).eq_of_mem_iff (owned_sorted h₂)
  intro e
  simp only [List.mem_filter]
  constructor
  · intro he
    exact ⟨(h e he.2).mp he.1, he.2⟩
  · intro he
    exact ⟨(h e he.2).mpr he.1, he.2⟩

theorem mem_upTo {p : Position} {e : LogEntry} :
    e ∈ H.log.filter (fun e => decide (e.readerPosition ≤ p)) ↔
      e ∈ H.log ∧ e.readerPosition ≤ p := by
  simp

/-- What a reader at `p` has gone through up to an event joins what lies before `p`. -/
theorem upTo_append (h : ReadsTable H p (l₁ ++ l₂)) {e : LogEntry} (he : l₁.getLast? = some e) :
    H.upTo p ++ H.edits l₁ = H.upTo e.readerPosition := by
  have hlast : e ∈ l₁ := List.mem_of_getLast? he
  have hafter : ∀ x ∈ l₁, x.After p := fun x hx =>
    h.ordered.after_start x (List.mem_append_left _ hx)
  have hpair : l₁.Pairwise fun e e' => e'.After e.readerPosition := h.ordered.left
  have hle : ∀ x ∈ l₁, x.readerPosition ≤ e.readerPosition := by
    obtain ⟨l, rfl⟩ := List.getLast?_eq_some_iff.mp he
    intro x hx
    rcases List.mem_append.mp hx with hx | hx
    · exact ((List.pairwise_append.mp hpair).2.2 x hx e (by simp)).1
    · rw [List.mem_singleton.mp hx]
  rw [upTo, ← edits_append, upTo]
  apply H.owned_eq_of_mem_iff
  · refine List.pairwise_append.mpr ⟨H.ordered.filter _, hpair, fun x hx y hy => ?_⟩
    have hxp := (H.mem_upTo.mp hx).2
    exact ⟨hxp.trans (hafter y hy).1, fun hr => hxp.trans_lt ((hafter y hy).2 hr)⟩
  · exact H.ordered.filter _
  · intro x hx
    rw [List.mem_append, H.mem_upTo, H.mem_upTo]
    constructor
    · rintro (⟨hlog, hxp⟩ | hxl)
      · exact ⟨hlog, hxp.trans (hafter e hlast).1⟩
      · exact ⟨h.logged x (List.mem_append_left _ hxl) hx, hle x hxl⟩
    · rintro ⟨hlog, hxe⟩
      rcases le_or_gt x.readerPosition p with hxp | hpx
      · exact .inl ⟨hlog, hxp⟩
      · right
        have hin := h.complete e (List.mem_append_left _ hlast) x hlog hx hpx hxe
        refine (List.mem_append.mp hin).resolve_right fun hx₂ => ?_
        exact absurd (h.ordered.behind hlast x hx₂ (isRows_of_owns hx)) (not_lt_of_ge hxe)

theorem upTo_prefix (h : p ≤ q) : H.upTo p <+: H.upTo q := by
  refine ⟨H.edits (H.log.filter fun e => decide (p < e.readerPosition ∧ e.readerPosition ≤ q)), ?_⟩
  rw [upTo, ← edits_append, upTo]
  apply H.owned_eq_of_mem_iff
  · refine List.pairwise_append.mpr ⟨H.ordered.filter _, H.ordered.filter _, fun x hx y hy => ?_⟩
    have hlt : x.readerPosition < y.readerPosition :=
      (H.mem_upTo.mp hx).2.trans_lt (by simpa using (List.mem_filter.mp hy).2 : _ ∧ _).1
    exact ⟨hlt.le, fun _ => hlt⟩
  · exact H.ordered.filter _
  · intro x _
    rw [List.mem_append, H.mem_upTo, H.mem_upTo, List.mem_filter, decide_eq_true_eq]
    constructor
    · rintro (⟨hlog, hxp⟩ | ⟨hlog, -, hxq⟩)
      · exact ⟨hlog, hxp.trans h⟩
      · exact ⟨hlog, hxq⟩
    · rintro ⟨hlog, hxq⟩
      rcases le_or_gt x.readerPosition p with hxp | hpx
      · exact .inl ⟨hlog, hxp⟩
      · exact .inr ⟨hlog, hpx, hxq⟩

end TableLog

/-! ### Where a reader starts -/

section Start

variable {T : SyncedTable} {H : TableLog T} {server : Server} {m : StreamsMap} {st : State}
  {p : Position}

theorem readFrom_behind {known : List (String × String)} {log : List LogEntry} {e : LogEntry}
    (h : e ∈ readFrom p known log) : p < e.readerPosition := by
  induction log generalizing known with
  | nil => cases h
  | cons e' log ih =>
    rw [readFrom] at h
    by_cases hle : e'.readerPosition ≤ p
    · rw [if_pos hle] at h
      exact ih h
    · have hcons : ∀ {known}, e ∈ e' :: readFrom p known log → p < e.readerPosition := by
        intro known h
        rcases List.mem_cons.mp h with rfl | h
        · exact lt_of_not_ge hle
        · exact ih h
      rw [if_neg hle] at h
      split at h
      · exact ih h
      · split_ifs at h
        · exact hcons h
        · exact ih h
      · split_ifs at h
        · exact hcons h
        · exact ih h

/-- A reader that starts where it can be restarted reads the log of the table from there on. -/
theorem readsTable_readFrom (h : Restartable T.only H.log p) (n : ℕ) :
    ReadsTable H p ((readFrom p [] H.log).take n) := by
  have hsub : (readFrom p [] H.log).Sublist H.log := readFrom_sublist p [] H.log
  have hpair : (readFrom p [] H.log).Pairwise fun e e' => e'.After e.readerPosition :=
    H.ordered.sublist hsub
  have hbehind : ∀ e ∈ (readFrom p [] H.log).take n, p < e.readerPosition :=
    fun e he => readFrom_behind (List.mem_of_mem_take he)
  refine ⟨⟨fun e he => ⟨(hbehind e he).le, fun _ => hbehind e he⟩,
    hpair.sublist (List.take_sublist n _)⟩,
    fun e he _ => hsub.subset (List.mem_of_mem_take he), ?_⟩
  intro e he x hx howns hpx hxe
  have hin : x ∈ readFrom p [] H.log := h x hx howns hpx
  rw [← List.take_append_drop n (readFrom p [] H.log)] at hin hpair
  refine (List.mem_append.mp hin).resolve_right fun hdrop => ?_
  have hlt := ((List.pairwise_append.mp hpair).2.2 e he x hdrop).2
    (isRotate_of_isRows (TableLog.isRows_of_owns howns))
  exact absurd hxe (not_le_of_gt hlt)

theorem storedPosition_eq_some {s : String} :
    storedPosition st s = some p ↔ st.getBookmark s "log_file" = .str (ofLex p).1 ∧
      st.getBookmark s "log_pos" = .int (ofLex p).2 := by
  unfold storedPosition
  constructor
  · intro h
    split at h
    · rename_i f n hf hn
      split_ifs at h with hle
      cases h
      exact ⟨hf, hn.trans (by simp [Int.toNat_of_nonneg hle])⟩
    · cases h
  · rintro ⟨hf, hn⟩
    rw [hf, hn]
    simp

theorem bookmarkedAt_iff {s file : String} {pos : ℤ} (hs : s ∈ m.keys) :
    BookmarkedAt m st s file pos ↔
      st.getBookmark s "log_file" = .str file ∧ st.getBookmark s "log_pos" = .int pos := by
  have hvalue : ∀ (b : Bookmark) key (x : Val), x ≠ .null →
      ((b.get? key).getD .null = x ↔ b.get? key = some x) := by
    intro b key x hx
    cases b.get? key <;> simp [Ne.symm hx]
  unfold BookmarkedAt State.getBookmark State.bookmark
  rw [and_iff_right hs]
  cases hb : st.bookmarks.get? s with
  | none => simp [Dict.empty, Dict.get?, Dict.assocGet]
  | some b =>
    rw [Option.getD_some, hvalue b _ _ (by simp), hvalue b _ _ (by simp)]
    constructor
    · rintro ⟨b', hb', hat⟩
      cases hb'
      exact ⟨hat.file, hat.pos⟩
    · exact fun h => ⟨b, rfl, h.1, h.2⟩

/-- The position that the reader is created at is stored for a stream of the map, and it is not
behind that of any other. -/
theorem calculateBookmark_stored {f : String} {pos : Val}
    (hstored : ∀ t ∈ m.keys, ∃ q, storedPosition st t = some q)
    (h : calculateBookmark server m st = .ok (f, pos)) :
    ∃ q : Position, f = (ofLex q).1 ∧ pos = .int (ofLex q).2 ∧
      (∃ t ∈ m.keys, storedPosition st t = some q) ∧
      ∀ t ∈ m.keys, ∀ q', storedPosition st t = some q' → q ≤ q' := by
  have hat : ∀ t ∈ m.keys, ∀ q, storedPosition st t = some q →
      BookmarkedAt m st t (ofLex q).1 (ofLex q).2 := fun t ht q hq =>
    (bookmarkedAt_iff ht).mpr (storedPosition_eq_some.mp hq)
  have hnames : BookmarksNamePositions m st := by
    intro t b ht hb
    obtain ⟨q, hq⟩ := hstored t ht
    obtain ⟨-, b', hb', hat⟩ := hat t ht q hq
    rw [hb, Option.some.injEq] at hb'
    exact ⟨_, _, hb' ▸ hat⟩
  have hminima := minimaOfBookmarks m st
  obtain ⟨-, hfiles⟩ := calculateBookmark_ok h
  rw [calculateBookmark, getMinLogPosPerLogFile_eq hnames] at h
  dsimp only at h
  split_ifs at h
  · obtain ⟨⟨found, hfound, hpos⟩, -⟩ := firstLogFile_ok h
    obtain ⟨k, hk, ⟨t, ht⟩, hleast⟩ := hminima.least f found hfound
    obtain ⟨q, hq⟩ := hstored t ht.1
    obtain ⟨hfile, hint⟩ := (bookmarkedAt_iff ht.1).mp ht
    obtain ⟨hfile', hint'⟩ := storedPosition_eq_some.mp hq
    rw [hfile, Val.str.injEq] at hfile'
    rw [hint, Val.int.injEq] at hint'
    refine ⟨q, hfile', by rw [← hpos, hk, hint'], ⟨t, ht.1, hq⟩, fun t' ht' q' hq' => ?_⟩
    obtain ⟨-, b, hb, hnamed⟩ := hat t' ht' q' hq'
    have hmem : b ∈ mapBookmarks m st.bookmarks.entries :=
      List.mem_map.mpr ⟨(t', b), List.mem_filter.mpr ⟨Dict.get?_eq_some.mp hb,
        Dict.contains_iff.mpr ht'⟩, rfl⟩
    obtain ⟨g, -, hg, hfg, -⟩ := hfiles b hmem
    rw [hnamed.file, Option.getD_some, Val.str.injEq] at hg
    subst hg
    rw [hfile'] at hfg
    rcases lt_or_eq_of_le hfg with hlt | heq
    · exact (Prod.Lex.lt_iff.mpr (.inl hlt)).le
    · have hle := hleast ⟨t', hfile'.trans heq ▸ hat t' ht' q' hq'⟩
      rw [hint'] at hle
      exact Prod.Lex.le_iff.mpr (.inr ⟨heq, by exact_mod_cast hle⟩)
  · split at h <;> cases h

end Start

end TapMysql.Binlog
