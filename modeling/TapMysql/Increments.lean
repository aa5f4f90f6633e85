import TapMysql.Select.Increment
import TapMysql.StreamTurn

/-!
# A table that is replicated by its replication key

Runs of the tap read the table again and again while it changes. Each is stopped anywhere, and the
next one starts from any STATE of it or from where it started. A run that returns leaves the target
with all rows of the table as its last statement read it. A row that is deleted stays.
-/

namespace TapMysql

open Binlog (Effect)

namespace Incremental

section Runs

variable {κ : Type*} [LinearOrder κ] {T : KeyedTable κ} {S : SyncSource} {config : SyncConfig}
  {catalog : List CatalogEntry} {st st' v : State} {plan : SyncPlan} {e : CatalogEntry}
  {times : ℕ → ℕ} {m n : ℕ} {target : T.Target} {out : List Effect}

/-- The run has the stream in its SELECT phase, and writes RECORDs. -/
structure TakesIncrement (T : KeyedTable κ) (S : SyncSource) (config : SyncConfig)
    (catalog : List CatalogEntry) (st : State) (plan : SyncPlan) (e : CatalogEntry)
    (times : ℕ → ℕ) (n : ℕ) : Prop where
  planned : planSync S config catalog st = .ok plan
  distinct : (idsOf catalog).Nodup
  once : (idsOf plan.nonBinlog).Nodup
  names : S.NamesColumns
  scheduled : e ∈ plan.nonBinlog
  recordMode : plan.settings = none
  taken : T.TakenBy e
  serves : T.Serves times n (S.runs e).server

theorem KeyedTable.Covers.elsewhere (h : T.Covers m st target) (hmn : m ≤ n)
    (hout : Elsewhere T.streamId (st.bookmarks.get? T.streamId) out) : T.Tracks m n target out :=
  h.silent hmn (rowsOn_elsewhere hout) hout.states

/-- What a run makes of the target, whether or not it returns. -/
theorem TakesIncrement.tracks (h : TakesIncrement T S config catalog st plan e times n)
    (hm : m ≤ times 0) (hcovers : T.Covers m st target) :
    T.Tracks m n target (doSync S config catalog st).1 ∧
      ∀ st', (doSync S config catalog st).2 = .ok st' → ∃ i v, m ≤ times i ∧
        T.Covers (times i) v
          (Watermark.load target (rowsOn T.streamId (doSync S config catalog st).1)) ∧
        ∀ r ∈ T.history (times i),
          (Watermark.load target (rowsOn T.streamId (doSync S config catalog st).1)).Holds
            (T.image r) := by
  have hmn : m ≤ n := hm.trans (h.serves.le 0)
  have hsplit := doSync_split h.planned h.distinct h.once h.names h.scheduled
  rw [h.taken.stream] at hsplit
  rcases hsplit with ⟨hquiet, hempty⟩ | ⟨st'', before, after, hst'', hturn, -⟩
  · refine ⟨hcovers.elsewhere hmn hquiet, fun st' hret => ?_⟩
    obtain ⟨p, hp, -⟩ := h.taken.keyed.column
    have hkey := Dict.mem_keys_iff.mpr ⟨p, hp⟩
    rw [List.isEmpty_iff.mp (hempty st' hret)] at hkey
    cases hkey
  · have hres : e.stream = e.tapStreamId := (planSync_resolved h.planned).1 e h.scheduled
    have hconfig : (S.runOf plan.settings e).args.config = none := by
      rw [h.recordMode]
      rfl
    have hfollows : T.Follows times m n target (plan.turn S config e st'') :=
      h.taken.turn_follows hres hconfig h.serves hm (hcovers.congr hst'') _ _
    have hbefore := rowsOn_elsewhere hturn.quietBefore
    have hrows : rowsOn T.streamId (doSync S config catalog st).1 =
        rowsOn T.streamId ((plan.turn S config e st'').messages.map .message) := by
      rw [hturn.effects, rowsOn_append, rowsOn_append, hbefore,
        rowsOn_elsewhere hturn.quietAfter, List.nil_append, List.append_nil]
    constructor
    · rw [hturn.effects]
      have hloaded : Watermark.load target (rowsOn T.streamId before) = target := by
        rw [hbefore, Watermark.load_nil]
      refine ((hcovers.elsewhere le_rfl hturn.quietBefore).append
        (hloaded.symm ▸ hfollows.tracks)).append ?_
      rw [rowsOn_append, Watermark.load_append, hloaded]
      cases hret : (plan.turn S config e st'').error with
      | none =>
        obtain ⟨i, -, hafter, -⟩ := hfollows.returned hret
        exact (hafter.later (h.serves.le i)).elsewhere le_rfl hturn.quietAfter
      | some err =>
        rw [(hturn.failed (by simp [hret])).1]
        have hkept := hcovers.reads hfollows.tracks.read
        exact hkept.silent le_rfl rfl (by simp)
    · intro st' hst'
      have hret : (plan.turn S config e st'').error = none := by
        by_contra hne
        exact (hturn.failed hne).2 st' hst'
      obtain ⟨i, hi, hafter, hall⟩ := hfollows.returned hret
      rw [hrows]
      exact ⟨i, _, hi, hafter, hall⟩

/-- A target stores the rows of a run. -/
theorem TakesIncrement.receive_eq (h : TakesIncrement T S config catalog st plan e times n)
    (hm : m ≤ times 0) (hcovers : T.Covers m st target)
    (hout : out <+: (doSync S config catalog st).1) :
    receive T.streamId target out = Watermark.load target (rowsOn T.streamId out) := by
  refine TapMysql.receive_eq (fun w hw => ?_) target
  obtain ⟨rest, hrest⟩ := hout
  have hin : w ∈ rowsOn T.streamId (doSync S config catalog st).1 := by
    rw [← hrest, rowsOn_append]
    exact List.mem_append_left _ hw
  obtain ⟨i, -, r, hr, rfl⟩ := (h.tracks hm hcovers).1.read.row w hin
  exact T.unmarked i r hr

/-- A target that was empty when no bookmark was, and has read since what runs wrote, each from
the state that the one before it was left with. The last of them was over at the moment `n`. -/
inductive Fed (T : KeyedTable κ) : ℕ → State → T.Target → Prop
  | start {n : ℕ} {st : State} : T.bookmark st = .null → Fed T n st Keyed.empty
  | run {m n : ℕ} {st v : State} {target : T.Target} {S : SyncSource} {config : SyncConfig}
      {catalog : List CatalogEntry} {plan : SyncPlan} {e : CatalogEntry} {times : ℕ → ℕ}
      {pre : List Effect} :
      Fed T m st target → TakesIncrement T S config catalog st plan e times n → m ≤ times 0 →
      pre <+: (doSync S config catalog st).1 → v = st ∨ .message (.state v) ∈ pre →
      Fed T n v (receive T.streamId target pre)

theorem Fed.covers (h : Fed T n st target) : T.Covers n st target := by
  induction h with
  | start hnull =>
    refine ⟨⟨.null, .null _, hnull⟩, ?_⟩
    rw [hnull]
    exact Watermark.ready_bot _ _ _ _
  | run _ htakes hm hpre hv ih =>
    rw [htakes.receive_eq hm ih hpre]
    exact (htakes.tracks hm ih).1.stopped ih hpre hv

end Runs

end Incremental

open Incremental

/-- A run that returns leaves the target with the rows of the table as of a moment of the run, and
what it shows else are former rows under keys that the table has no more. -/
theorem increments_converge {κ : Type*} [LinearOrder κ] {T : KeyedTable κ} {m n : ℕ}
    {st st' : State} {target : T.Target} {S : SyncSource} {config : SyncConfig}
    {catalog : List CatalogEntry} {plan : SyncPlan} {e : CatalogEntry} {times : ℕ → ℕ}
    (hfed : Incremental.Fed T m st target) (h : TakesIncrement T S config catalog st plan e times n)
    (hm : m ≤ times 0) (hret : (doSync S config catalog st).2 = .ok st') :
    ∃ i, m ≤ times i ∧
      (∀ r ∈ T.history (times i),
        (receive T.streamId target (doSync S config catalog st).1).Holds (T.image r)) ∧
      ∀ w, (receive T.streamId target (doSync S config catalog st).1).Holds w →
        (∃ r ∈ T.history (times i), T.image r = w) ∨
        ((∀ r ∈ T.history (times i),
            Binlog.keyOf T.keyColumns (T.image r) ≠ Binlog.keyOf T.keyColumns w) ∧
          ∃ j ≤ times i, ∃ r ∈ T.history j, T.image r = w) := by
  obtain ⟨i, v, hi, hcovers, hall⟩ := (h.tracks hm hfed.covers).2 st' hret
  rw [h.receive_eq hm hfed.covers List.prefix_rfl]
  refine ⟨i, hi, hall, fun w hw => ?_⟩
  by_cases hkey : ∃ r ∈ T.history (times i),
      Binlog.keyOf T.keyColumns (T.image r) = Binlog.keyOf T.keyColumns w
  · obtain ⟨r, hr, hkey⟩ := hkey
    have hheld := hall r hr
    rw [Keyed.Holds, hkey] at hheld
    exact .inl ⟨r, hr, Option.some.inj (hheld.symm.trans hw)⟩
  · exact .inr ⟨fun r hr hsame => hkey ⟨r, hr, hsame⟩, hcovers.ready.former w hw⟩

/-! ### A table that grows -/

namespace Sample

/-- The rows 0, 1, … up to the moment `n`. -/
def grown (n : ℕ) : List TableRow := (List.range n).map fun i => row i

theorem mem_grown {n : ℕ} {r : TableRow} : r ∈ grown n ↔ ∃ i < n, row i = r := by
  simp [grown]

def grownTable : KeyedTable Key where
  db := keyServer
  kind := .integer
  streamId := "db-t"
  replicationKey := "id"
  keyColumns := ["id"]
  history := grown
  image r := r
  ordersDateTimes := keyServer_ordersDateTimes
  cells := by
    intro n r hr
    obtain ⟨i, -, rfl⟩ := mem_grown.mp hr
    exact .int i
  stamped := by
    intro n r hr hnew m hm s hs
    obtain ⟨i, hi, rfl⟩ := mem_grown.mp hr
    obtain ⟨j, hj, rfl⟩ := mem_grown.mp hs
    have hlast : ¬ i < n := fun hlt => hnew (mem_grown.mpr ⟨i, hlt, rfl⟩)
    refine WithBot.coe_le_coe.mpr (Sum.Lex.inl_le_inl_iff.mpr ?_)
    omega
  oneRow := by
    intro n r hr s hs hkey
    obtain ⟨i, -, rfl⟩ := mem_grown.mp hr
    obtain ⟨j, -, rfl⟩ := mem_grown.mp hs
    have hids : [Val.int i] = [Val.int j] := hkey
    rw [List.cons.injEq, Val.int.injEq] at hids
    rw [hids.1]
  unmarked := by
    intro n r hr
    obtain ⟨i, -, rfl⟩ := mem_grown.mp hr
    rfl

def grownEntry : CatalogEntry :=
  { Binlog.Sample.entry with
    metadata := Dict.ofList
      [([], Dict.ofList [("selected", .bool true), ("replication-method", .str "INCREMENTAL"),
        ("replication-key", .str "id"), ("database-name", .str "db"),
        ("table-key-properties", .list [.str "id"])]),
      (["properties", "id"], Dict.ofList [("selected-by-default", .bool true),
        ("datatype", .str "int"), ("inclusion", .str "automatic")])] }

/-- A server that is asked at the moment `n`. -/
def grownServer (n : ℕ) : SyncSource :=
  { server [] with
    nonBinlogDiscovery := .ok [grownEntry]
    binlogDiscovery := .ok [grownEntry]
    runs := fun _ =>
      { oneRowRun with
        server := fun _ => ⟨.error connectionLost, keyServer.deliver (grown n) none⟩ } }

def grownRun (n : ℕ) (st : State) : List Effect × Except Err State :=
  doSync (grownServer n) settings [grownEntry] st

def grownPlan : SyncPlan := ⟨[grownEntry], [], none⟩

/-- The state that the run at the moment 1 leaves. -/
def grownState : State :=
  ((State.empty.writeBookmark "db-t" "replication_key" (.str "id")).writeBookmark "db-t" "version"
    (.int 9)).writeBookmark "db-t" "replication_key_value" (.int 0)

theorem grownEntry_taken : grownTable.TakenBy grownEntry where
  stream := rfl
  keyed := ⟨by decide, by decide, Binlog.Sample.idSchema, rfl, rfl, rfl⟩
  shown := by
    intro cs hcs n r hr
    obtain ⟨i, -, rfl⟩ := mem_grown.mp hr
    obtain rfl : [SelectColumn.plain "id"] = cs := Except.ok.inj hcs
    rfl

theorem grownServer_takesIncrement {n : ℕ} {st : State}
    (hplan : planSync (grownServer n) settings [grownEntry] st = .ok grownPlan) :
    TakesIncrement grownTable (grownServer n) settings [grownEntry] st grownPlan grownEntry
      (fun _ => n) n where
  planned := hplan
  distinct := by decide
  once := by decide
  names := fun _ _ _ => rfl
  scheduled := List.mem_cons_self
  recordMode := rfl
  taken := grownEntry_taken
  serves :=
    { inOrder := fun _ _ _ => le_rfl
      le := fun _ => le_rfl
      delivers := fun _ sql => keyServer.deliver_spec (grown n) none sql }

end Sample

/-- The row 0 comes with both runs. -/
theorem increments_converge_grown :
    ∃ st, (Sample.grownRun 2 Sample.grownState).2 = .ok st ∧
      ∀ r ∈ Sample.grown 2, (receive "db-t" (receive "db-t"
        (Keyed.empty : Sample.grownTable.Target) (Sample.grownRun 1 State.empty).1)
          (Sample.grownRun 2 Sample.grownState).1).Holds r := by
  have hstate : Effect.message (.state Sample.grownState) ∈
      (Sample.grownRun 1 State.empty).1 := by decide
  have hfed : Incremental.Fed Sample.grownTable 1 Sample.grownState
      (receive "db-t" Keyed.empty (Sample.grownRun 1 State.empty).1) :=
    .run (.start rfl) (Sample.grownServer_takesIncrement rfl) (Nat.zero_le 1) List.prefix_rfl
      (.inr hstate)
  obtain ⟨i, -, hall, -⟩ := increments_converge hfed (Sample.grownServer_takesIncrement rfl)
    (show 1 ≤ 2 by decide) rfl
  exact ⟨_, rfl, hall⟩

end TapMysql
