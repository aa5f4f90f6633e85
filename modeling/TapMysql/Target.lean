import TapMysql.Binlog.Replica
import TapMysql.Lib.Watermark
import TapMysql.Select.Phase

/-!
# A target that reads the messages of a stream

A target stores the rows of RECORD messages under their key, and those in the file of a BATCH, too.
What concerns other streams changes nothing.
-/

namespace TapMysql

open Binlog (Effect)

/-- A BATCH as the RECORDs of the rows in its file. -/
def Binlog.Effect.unbatched : Effect → List Effect
  | .message (.batch s _ rows) => rows.map fun row => .message (.record s row .null "")
  | x => [x]

/-- What a target with these key columns makes of the messages for the stream. -/
def receive {names : List String} (s : String) (target : Keyed (Binlog.keyOf names))
    (out : List Effect) : Keyed (Binlog.keyOf names) :=
  (Binlog.recordsOn s (out.flatMap Effect.unbatched)).foldl Binlog.applyMessage target

/-- The rows of the stream that come with an effect. -/
def Binlog.Effect.rowsOn (s : String) : Effect → List Record
  | .message m => if m.dataOf? = some s then m.rows else []
  | .autoPosition _ => []

def rowsOn (s : String) (out : List Effect) : List Record := out.flatMap (Effect.rowsOn s)

section Target

variable {names : List String} {s : String} {b : Option Bookmark} {out em : List Effect}
  {target : Keyed (Binlog.keyOf names)}

@[simp] theorem rowsOn_nil (s : String) : rowsOn s [] = [] := rfl

@[simp] theorem rowsOn_append (s : String) (out em : List Effect) :
    rowsOn s (out ++ em) = rowsOn s out ++ rowsOn s em :=
  List.flatMap_append

theorem rowsOn_elsewhere (h : Elsewhere s b out) : rowsOn s out = [] := by
  rw [rowsOn, List.flatMap_eq_nil_iff]
  intro x hx
  cases x with
  | autoPosition g => rfl
  | message m => exact if_neg (h.data m hx)

/-- The rows of a turn are rows of its stream. -/
theorem rowsOn_turn {ms : List Message} (h : ∀ m ∈ ms, ∀ t, m.dataOf? = some t → t = s) :
    rowsOn s (ms.map .message) = published ms := by
  rw [rowsOn, published, List.flatMap_map]
  refine List.flatMap_congr fun m hm => ?_
  cases hdata : m.dataOf? with
  | some t => exact if_pos (h m hm t hdata ▸ hdata)
  | none =>
    cases m with
    | record => cases hdata
    | batch => cases hdata
    | activateVersion => cases hdata
    | _ => rfl

/-- The RECORDs of these rows, in order. -/
theorem receive_rows {rows : List Record} (h : ∀ r ∈ rows, r.contains Binlog.sdcDeletedAt = false)
    (version : Val) (time : String) (target : Keyed (Binlog.keyOf names)) :
    (Binlog.recordsOn s (rows.map fun row => .message (.record s row version time))).foldl
      Binlog.applyMessage target = Watermark.load target rows := by
  induction rows generalizing target with
  | nil => rfl
  | cons r rows ih =>
    have hr : r.contains Binlog.sdcDeletedAt = false := h r List.mem_cons_self
    have hput : Binlog.applyMessage target (.record s r version time) = target.put r := by
      simp [Binlog.applyMessage, hr]
    have hrest := ih (fun r' hr' => h r' (List.mem_cons_of_mem _ hr')) (target.put r)
    rw [List.map_cons, ← List.singleton_append, Binlog.recordsOn_append, List.foldl_append]
    have hone : Binlog.recordsOn s [.message (.record s r version time)] =
        [.record s r version time] := by
      simp [Binlog.recordsOn, Effect.recordOn?]
    rw [hone, List.foldl_cons, List.foldl_nil, hput, hrest]
    rfl

/-- A target stores the rows of the stream, when none of them has the marker of a delete. -/
theorem receive_eq (h : ∀ r ∈ rowsOn s out, r.contains Binlog.sdcDeletedAt = false)
    (target : Keyed (Binlog.keyOf names)) :
    receive s target out = Watermark.load target (rowsOn s out) := by
  induction out generalizing target with
  | nil => rfl
  | cons x out ih =>
    have hsplit : rowsOn s (x :: out) = x.rowsOn s ++ rowsOn s out := rfl
    rw [hsplit] at h
    obtain ⟨hfirst, hrest⟩ := List.forall_mem_append.mp h
    have hx : (Binlog.recordsOn s x.unbatched).foldl Binlog.applyMessage target =
        Watermark.load target (x.rowsOn s) := by
      cases x with
      | autoPosition g => rfl
      | message m =>
        cases m with
        | record t row version time =>
          by_cases ht : t = s
          · subst ht
            have hrows : Effect.rowsOn t (.message (.record t row version time)) = [row] := by
              simp [Effect.rowsOn, Message.dataOf?, Message.rows]
            rw [hrows] at hfirst ⊢
            exact receive_rows hfirst version time target
          · simp [Binlog.recordsOn, Effect.unbatched, Effect.recordOn?, Effect.rowsOn,
              Message.dataOf?, ht]
        | batch t format rows =>
          by_cases ht : t = s
          · subst ht
            have hrows : Effect.rowsOn t (.message (.batch t format rows)) = rows := by
              simp [Effect.rowsOn, Message.dataOf?, Message.rows]
            rw [hrows] at hfirst ⊢
            exact receive_rows hfirst .null "" target
          · have hnil : Binlog.recordsOn s (Effect.unbatched (.message (.batch t format rows))) =
                [] := by
              apply Binlog.recordsOn_eq_nil
              intro row version time hin
              obtain ⟨row', -, heq⟩ := List.mem_map.mp hin
              cases heq
              exact ht rfl
            rw [hnil]
            simp [Effect.rowsOn, Message.dataOf?, ht]
        | activateVersion t version =>
          have hnil : Effect.rowsOn s (.message (.activateVersion t version)) = [] := by
            simp [Effect.rowsOn, Message.rows]
          rw [hnil]
          rfl
        | _ => rfl
    rw [receive, List.flatMap_cons, Binlog.recordsOn_append, List.foldl_append, hx, hsplit,
      Watermark.load_append]
    exact ih hrest _

end Target

end TapMysql
