import TapMysql.Select.HighWater
import TapMysql.Select.Phase
import TapMysql.Target

/-!
# What an INCREMENTAL sync reads of a table that changes

A change stamps its row with a replication key that is no lower than those of the table so far.
Each statement of a sync reads the table of its own moment from the bookmark on. At every STATE the
target has the rows of the table below the bookmark, so that a sync from there on finds the others.
-/

namespace TapMysql.Incremental

open Binlog (Effect)
open Watermark (Ready)

/-- A table over its commits, with the record that a target is sent for a row. -/
structure KeyedTable (κ : Type*) [LinearOrder κ] where
  db : Mysql κ
  kind : KeyKind
  streamId : String
  replicationKey : String
  keyColumns : List String
  history : ℕ → List TableRow
  image : TableRow → Record
  ordersDateTimes : db.OrdersDateTimes
  cells : ∀ n, ∀ r ∈ history n, kind.Cell (r.cell replicationKey)
  stamped : Watermark.Stamped history fun r => cellKey (r.cell replicationKey)
  oneRow : Watermark.OneRow (Binlog.keyOf keyColumns) history image
  unmarked : ∀ n, ∀ r ∈ history n, (image r).contains Binlog.sdcDeletedAt = false

section Table

variable {κ : Type*} [LinearOrder κ] (T : KeyedTable κ)

abbrev KeyedTable.Target : Type := Keyed (Binlog.keyOf T.keyColumns)

def KeyedTable.stamp (r : TableRow) : WithBot Key := cellKey (r.cell T.replicationKey)

def KeyedTable.bookmark (st : State) : Val := bookmarkValue T.streamId T.replicationKey st

/-- At the moment `n` the target has the rows of the table below the bookmark. -/
structure KeyedTable.Covers (n : ℕ) (st : State) (target : T.Target) : Prop where
  stored : T.kind.Stored (T.bookmark st)
  ready : Ready T.history T.stamp T.image n (bookmarkKey (T.bookmark st)) target

/-- These records are those of rows that the table had at one moment after the other. -/
abbrev KeyedTable.Read (m n : ℕ) (ws : List Record) : Prop :=
  Watermark.Reads T.history T.image n m ws

/-- The stream takes the table by its replication key. -/
structure KeyedTable.TakenBy (e : CatalogEntry) : Prop where
  stream : e.tapStreamId = T.streamId
  keyed : KeyedStream T.kind T.replicationKey e
  shown : ∀ cs, selectColumns e.schema e.schema.keys = .ok cs → ∀ n, ∀ r ∈ T.history n,
    tableRecord T.db e none cs r = .ok (T.image r)

end Table

section Page

variable {κ : Type*} [LinearOrder κ] {T : KeyedTable κ} {e : CatalogEntry} {m n : ℕ}
  {st st' v : State} {target : T.Target} {ws : List Record} {sql : SelectSql} {f : Fetch}

theorem KeyedTable.Covers.later (h : T.Covers m st target) (hmn : m ≤ n) : T.Covers n st target :=
  ⟨h.stored, h.ready.later T.stamped hmn⟩

theorem KeyedTable.Covers.reads (h : T.Covers m st target) (hws : T.Read m n ws) :
    T.Covers n st (Watermark.load target ws) :=
  ⟨h.stored, h.ready.reads T.stamped T.oneRow hws⟩

/-- Only the bookmark of the stream counts. -/
theorem KeyedTable.Covers.congr (h : T.Covers n st target)
    (hst : st'.bookmarks.get? T.streamId = st.bookmarks.get? T.streamId) :
    T.Covers n st' target := by
  have hbookmark : T.bookmark st' = T.bookmark st := by
    rw [KeyedTable.bookmark, KeyedTable.bookmark, bookmarkValue, bookmarkValue,
      State.getBookmark_congr hst, State.getBookmark_congr hst]
  exact ⟨hbookmark ▸ h.stored, hbookmark ▸ h.ready⟩

theorem highest_cases (keys : List Val) :
    highest keys = ⊥ ∨ ∃ v ∈ keys, highest keys = cellKey v := by
  rw [highest]
  induction keys with
  | nil => exact .inl rfl
  | cons v vs ih =>
    rw [List.map_cons, List.foldr_cons]
    rcases le_total ((vs.map cellKey).foldr max ⊥) (cellKey v) with hle | hle
    · exact .inr ⟨v, List.mem_cons_self, sup_eq_left.mpr hle⟩
    · rw [sup_eq_right.mpr hle]
      rcases ih with hbot | ⟨w, hw, heq⟩
      · exact .inl hbot
      · exact .inr ⟨w, List.mem_cons_of_mem _ hw, heq⟩

/-- A statement that asks for the rows from the bookmark of `st` on. -/
structure KeyedTable.Asks (T : KeyedTable κ) (e : CatalogEntry) (st : State) (sql : SelectSql) :
    Prop where
  key : st.getBookmark e.tapStreamId "replication_key" = .str T.replicationKey
  columns : selectColumns e.schema e.schema.keys = .ok sql.columns
  order : sql.orderBy = [T.replicationKey]
  selects : ∀ r, T.db.selects sql r = true ↔
    paramPlace T.db e T.replicationKey
      (st.getBookmark e.tapStreamId "replication_key_value") ≤ T.db.place (r.cell T.replicationKey)

theorem KeyedTable.bookmark_eq (h : T.TakenBy e)
    (hkey : st.getBookmark e.tapStreamId "replication_key" = .str T.replicationKey) :
    T.bookmark st = st.getBookmark e.tapStreamId "replication_key_value" := by
  rw [KeyedTable.bookmark, ← h.stream]
  exact bookmarkValue_of_key hkey

/-- The rows that a statement delivers are stored, and the bookmark is that of the last. -/
theorem KeyedTable.Asks.covers (h : T.TakenBy e) (hasks : T.Asks e st sql)
    (hcovers : T.Covers n st target) (hd : T.db.Delivers (T.history n) sql f)
    (hbookmark : BookmarkOf e e.schema.keys none f.names st f.rows st')
    (hws : ws.map Except.ok = f.rows.map (rowRecord e e.schema.keys none f.names)) :
    st'.getBookmark e.tapStreamId "replication_key" = .str T.replicationKey ∧
      T.Covers n st' (Watermark.load target ws) ∧
      (f.error = none → ∀ r ∈ T.history n, (Watermark.load target ws).Holds (T.image r)) := by
  have hvalue := KeyedTable.bookmark_eq h hasks.key
  obtain ⟨cell, hcell, hstored⟩ := hcovers.stored
  have hready := hcovers.ready
  rw [hstored, bookmarkKey_storedKey hcell] at hready
  rw [hstored] at hvalue
  have hsel := hasks.selects
  obtain ⟨p, hp, hcolumn⟩ := h.keyed.column
  rw [← hvalue, paramPlace_storedKey T.ordersDateTimes hp hcolumn hcell] at hsel
  obtain ⟨got, hpage⟩ := keyPage T.ordersDateTimes hp hcolumn (T.cells n) hd hasks.columns
    hasks.order hcell hsel
  obtain ⟨hkey', cell', hcell', hvalue', hmax⟩ := bookmark_of_page h.keyed hasks.key (T.cells n)
    hasks.columns hcell hvalue.symm hpage hbookmark
  -- the records are those of the rows
  have hrecords : ws = got.map T.image := by
    have hmap : ws.map (Except.ok (ε := Err)) = (got.map T.image).map Except.ok := by
      rw [hws, hpage.rows, hd.names, selectColumns_names hasks.columns, List.map_map, List.map_map]
      refine List.map_congr_left fun r hr => ?_
      exact h.shown _ hasks.columns n r (hpage.stored r hr)
    exact List.map_injective_iff.mpr (fun _ _ => Except.ok.inj) hmap
  have hsub : ∀ w ∈ ws, ∃ r ∈ T.history n, T.image r = w := by
    intro w hw
    obtain ⟨r, hr, rfl⟩ := List.mem_map.mp (hrecords ▸ hw)
    exact ⟨r, hpage.stored r hr, rfl⟩
  have hin : ∀ r ∈ got, T.image r ∈ ws := fun r hr => hrecords ▸ List.mem_map_of_mem hr
  have hbookmark' := KeyedTable.bookmark_eq h hkey'
  rw [hvalue'] at hbookmark'
  refine ⟨hkey', ⟨⟨cell', hcell', hbookmark'⟩, ?_⟩, fun herr => ?_⟩
  · rw [hbookmark', bookmarkKey_storedKey hcell']
    refine hready.page T.oneRow hsub (fun r hr hle => ?_) ?_
    · rcases hpage.left r hr hle with hr | ⟨-, hlater⟩
      · exact .inl (hin r hr)
      · refine .inr ?_
        rw [hmax, hpage.column, sup_le_iff, highest_le_iff, List.forall_mem_map]
        exact ⟨hle, hlater⟩
    · rw [hmax]
      rcases highest_cases (f.column T.replicationKey) with hbot | ⟨w, hw, heq⟩
      · exact .inl (by rw [hbot, sup_bot_eq])
      · rw [hpage.column] at hw
        obtain ⟨r, hr, rfl⟩ := List.mem_map.mp hw
        refine .inr ⟨r, hpage.stored r hr, ?_⟩
        rw [heq]
        exact sup_le (hpage.above r hr) le_rfl
  · refine hready.complete T.oneRow hsub fun r hr hle => ?_
    rcases hpage.left r hr hle with hr | ⟨hferr, -⟩
    · exact hin r hr
    · exact absurd herr hferr

end Page

/-! ### What a target can be left with -/

section Tracks

variable {κ : Type*} [LinearOrder κ] {T : KeyedTable κ} {m n i : ℕ} {st v : State}
  {target : T.Target} {out em pre : List Effect}

/-- The rows of these effects are read between `m` and `n`, and at each STATE the target covers
the table. -/
structure KeyedTable.Tracks (T : KeyedTable κ) (m n : ℕ) (target : T.Target) (out : List Effect) :
    Prop where
  read : T.Read m n (rowsOn T.streamId out)
  states : ∀ pre v post, out = pre ++ .message (.state v) :: post →
    ∃ i, T.Covers i v (Watermark.load target (rowsOn T.streamId pre)) ∧
      T.Read i n (rowsOn T.streamId post)

theorem KeyedTable.Tracks.append (h : T.Tracks m i target out)
    (h' : T.Tracks i n (Watermark.load target (rowsOn T.streamId out)) em) :
    T.Tracks m n target (out ++ em) := by
  constructor
  · rw [rowsOn_append]
    exact h.read.append h'.read
  · intro pre v post heq
    rcases List.append_eq_append_iff.mp heq with ⟨pre', rfl, hem⟩ | ⟨tail, hout, hrest⟩
    · obtain ⟨j, hcovers, hread⟩ := h'.states pre' v post hem
      refine ⟨j, ?_, hread⟩
      rw [rowsOn_append, Watermark.load_append]
      exact hcovers
    · cases tail with
      | nil =>
        rw [List.append_nil] at hout
        obtain ⟨j, hcovers, hread⟩ := h'.states [] v post hrest.symm
        exact ⟨j, hout ▸ hcovers, hread⟩
      | cons x tail =>
        rw [List.cons_append, List.cons.injEq] at hrest
        obtain ⟨rfl, rfl⟩ := hrest
        obtain ⟨j, hcovers, hread⟩ := h.states pre v tail hout
        refine ⟨j, hcovers, ?_⟩
        rw [rowsOn_append]
        exact hread.append h'.read

theorem KeyedTable.Tracks.mono (h : T.Tracks m n target out) {m' n' : ℕ} (hm : m' ≤ m)
    (hn : n ≤ n') : T.Tracks m' n' target out where
  read := (h.read.mono hm).later hn
  states pre v post heq := by
    obtain ⟨i, hcovers, hread⟩ := h.states pre v post heq
    exact ⟨i, hcovers, hread.later hn⟩

/-- Effects without rows of the stream, whose STATEs have the bookmark of `st`. -/
theorem KeyedTable.Covers.silent (h : T.Covers m st target) (hmn : m ≤ n)
    (hrows : rowsOn T.streamId out = [])
    (hstates : ∀ v, .message (.state v) ∈ out →
      v.bookmarks.get? T.streamId = st.bookmarks.get? T.streamId) : T.Tracks m n target out := by
  constructor
  · rw [hrows]
    exact .nil hmn
  · intro pre v post heq
    rw [heq, rowsOn_append, List.append_eq_nil_iff] at hrows
    obtain ⟨hpre, hpost⟩ := hrows
    refine ⟨m, ?_, ?_⟩
    · rw [hpre]
      exact h.congr (hstates v (by simp [heq]))
    · rw [show rowsOn T.streamId post = [] from hpost]
      exact .nil hmn

/-- However far the effects are read, from their STATEs and from the state before them the others
are found. -/
theorem KeyedTable.Tracks.stopped (h : T.Tracks m n target out) (hst : T.Covers m st target)
    (hpre : pre <+: out) (hv : v = st ∨ .message (.state v) ∈ pre) :
    T.Covers n v (Watermark.load target (rowsOn T.streamId pre)) := by
  obtain ⟨rest, rfl⟩ := hpre
  rcases hv with rfl | hv
  · refine hst.reads (h.read.part ?_)
    rw [rowsOn_append]
    exact List.prefix_append _ _
  · obtain ⟨before, after, rfl⟩ := List.append_of_mem hv
    obtain ⟨i, hcovers, hread⟩ := h.states before v (after ++ rest) (by simp)
    have hsplit : rowsOn T.streamId (before ++ .message (.state v) :: after) =
        rowsOn T.streamId before ++ rowsOn T.streamId after := by
      rw [rowsOn_append]
      rfl
    rw [hsplit, Watermark.load_append]
    refine hcovers.reads (hread.part ?_)
    rw [rowsOn_append]
    exact List.prefix_append _ _

end Tracks

/-! ### One attempt -/

section Attempt

variable {κ : Type*} [LinearOrder κ] {T : KeyedTable κ} {e : CatalogEntry} {m n : ℕ}
  {st v : State} {target : T.Target} {args : SyncArgs} {a : Attempt} {sql : SelectSql}
  {f : Fetch}

/-- A client that received a first part only. -/
theorem delivers_part {table : List TableRow} (hd : T.db.Delivers table sql f)
    {rows rest : List Row} (hrows : f.rows = rows ++ rest) (err : Err) :
    T.db.Delivers table sql ⟨f.names, [rows], some err⟩ := by
  obtain ⟨got, left, hanswer, hgot, -⟩ := hd.rows
  rw [hrows] at hgot
  obtain ⟨first, second, rfl, rfl, rfl⟩ := List.append_eq_map_iff.mp hgot
  refine ⟨hd.names, first, second ++ left, ?_, by simp [Fetch.rows], by simp⟩
  rw [← List.append_assoc]
  exact hanswer

/-- A message of the stream, whose rows the table has at the moment `n`. -/
structure KeyedTable.MessageAt (T : KeyedTable κ) (n : ℕ) (x : Message) : Prop where
  data : ∀ s, x.dataOf? = some s → s = T.streamId
  rows : ∀ w ∈ x.rows, ∃ r ∈ T.history n, T.image r = w

theorem KeyedTable.TakenBy.attempt_messages (h : T.TakenBy e) (he : e.stream = e.tapStreamId)
    (hargs : args.columns = e.schema.keys) (hconfig : args.config = none)
    (ha : ∀ sql, T.db.Delivers (T.history n) sql (a.select sql)) (value : Val) :
    ∀ x ∈ (attempt e args a value st).messages, T.MessageAt n x := by
  have hstream : ∀ s, some e.stream = some s → s = T.streamId := by
    rintro s ⟨⟩
    rw [he, h.stream]
  have hdata : DataOf e args.config args.streamVersion (fun w => ∃ r ∈ T.history n, T.image r = w)
      (T.MessageAt n) := by
    refine ⟨fun r _ hr => ⟨hstream, ?_⟩, fun _ _ rows hrows => ⟨hstream, hrows⟩,
      ⟨hstream, by simp [Message.rows]⟩⟩
    simpa [Message.rows] using hr
  have hrenders : a.Renders e args fun w => ∃ r ∈ T.history n, T.image r = w := by
    intro sql hsql row hrow w hw
    obtain ⟨hnames, got, rest, hanswer, hrows, -⟩ := ha sql
    rw [hrows] at hrow
    obtain ⟨r, hr, rfl⟩ := List.mem_map.mp hrow
    have hin : r ∈ T.history n :=
      (List.mem_filter.mp (hanswer.perm.subset (List.mem_append_left _ hr))).1
    rw [hargs] at hsql hw
    rw [hconfig, hnames, selectColumns_names hsql] at hw
    exact ⟨r, hin, Except.ok.inj ((h.shown _ hsql n r hin).symm.trans hw)⟩
  have hkeeps : (attempt e args a value st).Keeps (fun _ => True) (T.MessageAt n) :=
    attempt_keeps args (fun _ _ _ _ => ⟨fun _ => trivial, trivial⟩) hdata
      (fun v _ => ⟨by simp [Message.dataOf?], by simp [Message.rows]⟩) trivial hrenders value
  exact hkeeps.2

theorem KeyedTable.MessageAt.read {ms : List Message} (h : ∀ x ∈ ms, T.MessageAt n x) :
    rowsOn T.streamId (ms.map .message) = published ms ∧ T.Read n n (published ms) := by
  refine ⟨rowsOn_turn fun x hx => (h x hx).data, ?_⟩
  have hpage : T.Read n n (published ms ++ []) := by
    refine .page le_rfl (fun w hw => ?_) (.nil le_rfl)
    obtain ⟨x, hx, hw⟩ := List.mem_flatMap.mp hw
    exact (h x hx).rows w hw
  rwa [List.append_nil] at hpage

/-- An attempt reads the table of one moment. -/
theorem KeyedTable.TakenBy.attempt_tracks (h : T.TakenBy e) (he : e.stream = e.tapStreamId)
    (hargs : args.columns = e.schema.keys) (hconfig : args.config = none)
    (ha : ∀ sql, T.db.Delivers (T.history n) sql (a.select sql))
    (hkey : st.getBookmark e.tapStreamId "replication_key" = .str T.replicationKey)
    (hcovers : T.Covers n st target) {o : Outcome}
    (ho : attempt e args a (st.getBookmark e.tapStreamId "replication_key_value") st = o) :
    T.Tracks n n target (o.messages.map .message) ∧
      ((∀ err, o.error = some err → err.isOperational = true) →
        o.state.getBookmark e.tapStreamId "replication_key" = .str T.replicationKey ∧
        T.Covers n o.state (Watermark.load target (rowsOn T.streamId (o.messages.map .message))) ∧
        (o.error = none → ∀ r ∈ T.history n,
          (Watermark.load target (rowsOn T.streamId (o.messages.map .message))).Holds
            (T.image r))) := by
  have hmsgs : ∀ x ∈ o.messages, T.MessageAt n x := ho ▸ h.attempt_messages he hargs hconfig ha _
  obtain ⟨hrows, hread⟩ := KeyedTable.MessageAt.read hmsgs
  rcases attempt_cases e args a (st.getBookmark e.tapStreamId "replication_key_value") st with
    ⟨err, hfailed⟩ | ⟨sql, sql', hsql, hclause, hrun⟩
  · obtain rfl := ho.symm.trans hfailed
    refine ⟨hcovers.silent le_rfl rfl ?_, fun _ => ⟨hkey, hcovers, ?_⟩⟩
    · simp [Outcome.failed]
    · simp [Outcome.failed]
  obtain ⟨hcs, hconditions, -⟩ := generateSelectSql_eq hsql
  rw [h.keyed.key] at hclause
  obtain ⟨hcols, horder, hsel⟩ := whereClause_ok T.db hconditions hclause
  rw [hargs, ← hcols] at hcs
  have hasks : T.Asks e st sql' := ⟨hkey, hcs, horder, hsel⟩
  obtain rfl := ho.symm.trans hrun
  refine ⟨⟨hrows ▸ hread, fun pre v post heq => ⟨n, ?_⟩⟩, fun hend => ?_⟩
  · -- the rows before a STATE are a first part of the page
    obtain ⟨before, ms, hsplit, rfl, htail⟩ := List.map_eq_append_iff.mp heq
    obtain ⟨x, after, rfl, hx, rfl⟩ := List.map_eq_cons_iff.mp htail
    obtain rfl : x = .state v := Effect.message.inj hx
    rw [hsplit] at hmsgs
    obtain ⟨hbefore, hafter⟩ := List.forall_mem_append.mp hmsgs
    obtain ⟨hrowsBefore, -⟩ := KeyedTable.MessageAt.read hbefore
    obtain ⟨hrowsAfter, hreadAfter⟩ :=
      KeyedTable.MessageAt.read fun x hx => hafter x (List.mem_cons_of_mem _ hx)
    obtain ⟨rows, rest, hfetch, hpub, hbookmark⟩ := syncQuery_state hsplit
    rw [hargs, hconfig] at hpub hbookmark
    have hpart := delivers_part (ha sql') hfetch ⟨.exception, ""⟩
    rw [hrowsBefore, hrowsAfter]
    refine ⟨(hasks.covers h hcovers hpart ?_ ?_).2.1, hreadAfter⟩
    · simpa [Fetch.rows] using hbookmark
    · simpa [Fetch.rows] using hpub
  · obtain ⟨herror, hpub, hbookmark⟩ := runSelect_record hargs hconfig hend
    rw [hrows, herror]
    exact hasks.covers h hcovers (ha sql') hbookmark hpub

end Attempt

/-! ### One turn -/

section Turn

variable {κ : Type*} [LinearOrder κ] {T : KeyedTable κ} {e : CatalogEntry} {m n i : ℕ}
  {st : State} {target : T.Target} {args : SyncArgs} {server : Nat → Attempt} {times : ℕ → ℕ}
  {o : Outcome} {before : List Message}

/-- The statements of the attempts read the table at these moments, one after the other. -/
structure KeyedTable.Serves (T : KeyedTable κ) (times : ℕ → ℕ) (n : ℕ) (server : Nat → Attempt) :
    Prop where
  inOrder : Monotone times
  le : ∀ i, times i ≤ n
  delivers : ∀ i sql, T.db.Delivers (T.history (times i)) sql ((server i).select sql)

/-- A sync that returns leaves the target with all rows of the table as its last statement read
it. -/
structure KeyedTable.Follows (T : KeyedTable κ) (times : ℕ → ℕ) (m n : ℕ) (target : T.Target)
    (o : Outcome) : Prop where
  tracks : T.Tracks m n target (o.messages.map .message)
  returned : o.error = none → ∃ i, m ≤ times i ∧
    T.Covers (times i) o.state
      (Watermark.load target (rowsOn T.streamId (o.messages.map .message))) ∧
    ∀ r ∈ T.history (times i),
      (Watermark.load target (rowsOn T.streamId (o.messages.map .message))).Holds (T.image r)

theorem KeyedTable.TakenBy.attempts_follow (h : T.TakenBy e) (he : e.stream = e.tapStreamId)
    (hargs : args.columns = e.schema.keys) (hconfig : args.config = none)
    (hserver : T.Serves times n server) {left : Nat} (hleft : left ≠ 0) (hm : m ≤ times i)
    (hkey : st.getBookmark e.tapStreamId "replication_key" = .str T.replicationKey)
    (hcovers : T.Covers m st target) :
    T.Follows times m n target (attempts none (body e args server) left i st) := by
  induction left generalizing m i st target with
  | zero => exact absurd rfl hleft
  | succ left ih =>
    obtain ⟨htracks, hends⟩ := h.attempt_tracks he hargs hconfig (hserver.delivers i) hkey
      (hcovers.later hm) (show body e args server i st = _ from rfl)
    have hfirst := htracks.mono hm (hserver.le i)
    unfold attempts
    split
    · rename_i hnone
      refine ⟨hfirst, fun _ => ⟨i, hm, ?_⟩⟩
      obtain ⟨-, hcovers', hall⟩ := hends (by simp [hnone])
      exact ⟨hcovers', hall hnone⟩
    · rename_i err herr
      split_ifs with hretry
      · simp only [Bool.and_eq_true, decide_eq_true_eq] at hretry
        obtain ⟨hkey', hcovers', -⟩ := hends fun err' herr' => by
          rw [herr, Option.some.injEq] at herr'
          exact herr' ▸ retryable_isOperational hretry.1
        have hrest := ih hretry.2 (hserver.inOrder i.le_succ) hkey' hcovers'
        have hmsgs : ∀ next : Outcome, ((body e args server i st).andThen next).messages.map
            Effect.message = (body e args server i st).messages.map .message ++
              next.messages.map .message := fun next => List.map_append
        refine ⟨?_, fun hret => ?_⟩
        · rw [hmsgs]
          exact (htracks.mono hm le_rfl).append hrest.tracks
        · obtain ⟨j, hj, hlast⟩ := hrest.returned hret
          rw [hmsgs, rowsOn_append, Watermark.load_append]
          exact ⟨j, hm.trans hj, hlast⟩
      · exact ⟨hfirst, fun hnone => by simp [herr] at hnone⟩

theorem KeyedTable.Follows.after (h : T.Follows times m n target o)
    (hst : T.Covers m st target) (hrows : rowsOn T.streamId (before.map .message) = [])
    (hstates : ∀ v, .state v ∈ before →
      v.bookmarks.get? T.streamId = st.bookmarks.get? T.streamId) :
    T.Follows times m n target (o.after before) := by
  have hquiet : T.Tracks m m target (before.map .message) :=
    hst.silent le_rfl hrows fun v hv => hstates v (message_mem_map.mp hv)
  have htarget : Watermark.load target (rowsOn T.streamId (before.map .message)) = target := by
    rw [hrows, Watermark.load_nil]
  constructor
  · rw [Outcome.messages_after, List.map_append]
    exact hquiet.append (htarget.symm ▸ h.tracks)
  · intro hret
    rw [Outcome.messages_after, List.map_append, rowsOn_append, hrows, List.nil_append]
    exact h.returned hret

theorem KeyedTable.Follows.thenState (h : T.Follows times m n target o) (hle : ∀ i, times i ≤ n) :
    T.Follows times m n target (o.thenState fun st => ([.state st], st)) := by
  unfold Outcome.thenState
  split
  · exact h
  · rename_i hnone
    obtain ⟨i, hi, hcovers, hall⟩ := h.returned hnone
    have hlast : rowsOn T.streamId ((o.messages ++ [Message.state o.state]).map .message) =
        rowsOn T.streamId (o.messages.map .message) := by
      rw [List.map_append, rowsOn_append]
      exact List.append_nil _
    constructor
    · rw [List.map_append]
      refine h.tracks.append ((hcovers.later (hle i)).silent le_rfl rfl ?_)
      intro v hv
      obtain rfl : v = o.state := by simpa using hv
      rfl
    · intro _
      refine ⟨i, hi, ?_⟩
      rw [hlast]
      exact ⟨hcovers, hall⟩

theorem KeyedTable.TakenBy.syncTable_follows (h : T.TakenBy e) (he : e.stream = e.tapStreamId)
    (hargs : args.columns = e.schema.keys) (hconfig : args.config = none)
    (hserver : T.Serves times n server) (hm : m ≤ times 0) (hcovers : T.Covers m st target)
    (now : Int) : T.Follows times m n target (syncTable e server args now st) := by
  obtain ⟨hat, hvalue⟩ := versioned_at T.db st now h.keyed.key
  rw [startState_value h.keyed.key, h.stream] at hvalue
  have hsame : T.bookmark (versioned e now st) = T.bookmark st := by
    rw [KeyedTable.bookmark_eq h hat.key, h.stream, hvalue]
    rfl
  have hversioned : T.Covers m (versioned e now st) target :=
    ⟨hsame ▸ hcovers.stored, hsame ▸ hcovers.ready⟩
  obtain ⟨hsync, -⟩ := syncTable_loop server args now st h.keyed.key
  rw [hconfig] at hsync
  rw [hsync]
  set loop := attempts none (body e (versionedArgs e args now st) server) maxSyncRetries 0
    (versioned e now st)
  have hversion : (versionedArgs e args now st).columns = e.schema.keys := hargs
  have hloop : T.Follows times m n target loop :=
    h.attempts_follow he hversion hconfig hserver (by decide) hm hat.key hversioned
  have hafter : T.Follows times m n target (loop.after
      [.activateVersion e.stream (versionedArgs e args now st).streamVersion]) := by
    refine hloop.after hversioned ?_ (by simp)
    simp [rowsOn, Binlog.Effect.rowsOn, Message.rows]
  exact hafter

/-- The turn of the stream in a run. -/
theorem KeyedTable.TakenBy.turn_follows (h : T.TakenBy e) (he : e.stream = e.tapStreamId)
    {run : StreamRun} (hconfig : run.args.config = none) (hserver : T.Serves times n run.server)
    (hm : m ≤ times 0) (hcovers : T.Covers m st target) (autoIncrement : String → Bool)
    (gtidConfig : GtidConfig) :
    T.Follows times m n target (syncStream e autoIncrement gtidConfig run st) := by
  set begun := st.setCurrentlySyncing (some e.tapStreamId) with hbegun
  have hbegunCovers : T.Covers m begun target := hcovers.congr rfl
  simp only [syncStream, h.keyed.method]
  refine KeyedTable.Follows.after ?_ hcovers rfl ?_
  · rw [doSyncIncremental]
    split_ifs
    · refine ⟨hbegunCovers.silent (hm.trans (hserver.le 0)) rfl ?_, fun hnone => ?_⟩
      · simp [Outcome.failed]
      · cases hnone
    · refine KeyedTable.Follows.after (.thenState ?_ hserver.le) hbegunCovers rfl
        (by simp [schemaMessage])
      have hcolumns : ({ run.args with columns := e.schema.keys } : SyncArgs).columns =
          e.schema.keys := rfl
      exact h.syncTable_follows he hcolumns hconfig hserver hm hbegunCovers run.now
  · intro v hv
    obtain rfl : v = begun := by simpa using hv
    rfl

end Turn

end TapMysql.Incremental
