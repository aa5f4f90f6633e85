import TapMysql.Binlog.InForce

/-!
# The order of the messages of a run

What a reader of the output relies on: while the SELECT phase writes the messages of a stream, the
latest STATE names this stream as being synced, and while the binlog sync writes, it names none. A
row comes after a SCHEMA of its stream, with columns of the latest one. Only the binlog sync adds
the marker of deletes to a row.
-/

namespace TapMysql

open Binlog (Effect schemaInForce schemaInForce_append_of_silent sdcDeletedAt)
open Trace

/-! ### The property -/

def Binlog.Effect.state? : Effect → Option State
  | .message (.state st) => some st
  | _ => none

/-- The latest STATE of the output, or the state that the run was started with. -/
def latestState (st₀ : State) (out : List Effect) : State :=
  ((out.filterMap Effect.state?).getLast?).getD st₀

/-- The stream that the latest STATE of the output names as being synced. -/
def syncingOf (out : List Effect) : Option String := (latestState State.empty out).currentlySyncing

/-- The stream was announced with the columns of the row; the marker of deletes apart, while no
stream is named as being synced. -/
def FitsAnnounced (before : List Effect) (s : String) (row : Record) : Prop :=
  ∃ schema, schemaInForce s before = some schema ∧
    ∀ k ∈ row.keys, k ∈ schema.keys ∨ syncingOf before = none ∧ k = sdcDeletedAt

/-- The two phases of a run: the streams that are read by SELECT, one at a time, and the binlog. -/
inductive Phase
  | select
  | binlog
  deriving DecidableEq

/-- The stream that has to be named as being synced when a message of `s` is written. -/
def Phase.named : Phase → String → Option String
  | .select, s => some s
  | .binlog, _ => none

/-- May the effect come after those before it, in this phase? -/
def InOrder (phase : Phase) (before : List Effect) : Effect → Prop
  | .autoPosition _ => syncingOf before = none
  | .message (.state _) => True
  | .message (.schema s _ _ _) => syncingOf before = phase.named s
  | .message (.record s row _ _) => syncingOf before = phase.named s ∧ FitsAnnounced before s row
  | .message (.batch s _ rows) =>
    syncingOf before = some s ∧ ∀ row ∈ rows, FitsAnnounced before s row
  | .message (.activateVersion s _) =>
    syncingOf before = some s ∧ (schemaInForce s before).isSome

/-! ### The latest STATE -/

variable {st₀ : State} {out em : List Effect}

@[simp] theorem latestState_nil : latestState st₀ [] = st₀ := rfl

theorem latestState_append_of_silent (h : ∀ x ∈ em, x.state? = none) :
    latestState st₀ (out ++ em) = latestState st₀ out := by
  have hnil : em.filterMap Effect.state? = [] := List.filterMap_eq_nil_iff.mpr h
  rw [latestState, List.filterMap_append, hnil, List.append_nil, latestState]

theorem latestState_append (st₀ : State) (out em : List Effect) :
    latestState st₀ (out ++ em) = latestState (latestState st₀ out) em := by
  simp only [latestState, List.filterMap_append, List.getLast?_append]
  cases (em.filterMap Effect.state?).getLast? <;> rfl

@[simp] theorem latestState_concat (st₀ : State) (out : List Effect) (v : State) :
    latestState st₀ (out ++ [.message (.state v)]) = v := by
  rw [latestState_append]
  rfl

theorem syncingOf_append_of_silent (h : ∀ x ∈ em, x.state? = none) :
    syncingOf (out ++ em) = syncingOf out := by
  rw [syncingOf, latestState_append_of_silent h, syncingOf]

@[simp] theorem syncingOf_concat (out : List Effect) (v : State) :
    syncingOf (out ++ [.message (.state v)]) = v.currentlySyncing := by
  rw [syncingOf, latestState_concat]

/-- What holds of the latest STATE and of every further one goes on to hold. -/
theorem latestState_forall {I : State → Prop} (hout : I (latestState st₀ out))
    (h : ∀ x ∈ em, ∀ v, x.state? = some v → I v) : I (latestState st₀ (out ++ em)) := by
  rw [latestState_append]
  cases hlast : (em.filterMap Effect.state?).getLast? with
  | none =>
    rw [latestState, hlast]
    exact hout
  | some v =>
    rw [latestState, hlast]
    obtain ⟨x, hx, hv⟩ := List.mem_filterMap.mp (List.mem_of_getLast? hlast)
    exact h x hx v hv

/-- Once there is a STATE, the state of the start does not matter. -/
theorem currentlySyncing_latestState (h : st₀.currentlySyncing = none) (out : List Effect) :
    (latestState st₀ out).currentlySyncing = syncingOf out := by
  rw [syncingOf, latestState, latestState]
  cases (out.filterMap Effect.state?).getLast? with
  | none => exact h
  | some v => rfl

/-! ### The bookmark of one stream -/

/-- The states differ in the bookmark of the stream at most. -/
structure SameElsewhere (s : String) (st st' : State) : Prop where
  syncing : st'.currentlySyncing = st.currentlySyncing
  others : ∀ t, t ≠ s → st'.bookmarks.get? t = st.bookmarks.get? t

/-- Whatever is done to the bookmark of the stream keeps `I`. -/
def Ignores (s : String) (I : State → Prop) : Prop :=
  ∀ st, I st → ∀ k, (∀ v, I (st.writeBookmark s k v)) ∧ I (st.clearBookmark s k)

theorem SameElsewhere.refl (s : String) (st : State) : SameElsewhere s st st :=
  ⟨rfl, fun _ _ => rfl⟩

theorem ignores_sameElsewhere (s : String) (st : State) : Ignores s (SameElsewhere s st) := by
  intro st' h k
  refine ⟨fun v => ⟨h.syncing, fun t ht => ?_⟩, ⟨h.syncing, fun t ht => ?_⟩⟩ <;>
  · rw [← h.others t ht]
    exact Dict.get?_set_ne _ _ ht.symm

section Ignores

variable {s : String} {I : State → Prop} (hI : Ignores s I) {st : State}
include hI

theorem Ignores.whitelist (hst : I st) (keys : List String) :
    I (whitelistBookmarkKeys keys s st) := by
  unfold whitelistBookmarkKeys
  generalize (st.bookmark s).keys.filter _ = cleared
  induction cleared generalizing st with
  | nil => exact hst
  | cons k cleared ih => exact ih (hI st hst k).2

theorem Ignores.write (hst : I st) (k : String) (v : Val) : I (st.writeBookmark s k v) :=
  (hI st hst k).1 v

theorem Ignores.clear (hst : I st) (k : String) : I (st.clearBookmark s k) := (hI st hst k).2

end Ignores

/-! ### From one STATE to the next -/

/-- A STATE has the bookmarks of the STATE before it, except of a stream that one of the two names
as being synced, and of the streams in `shared` when it names none. -/
def Continues (shared : List String) (st₀ : State) (before : List Effect) : Effect → Prop
  | .message (.state v) => ∀ t, (latestState st₀ before).currentlySyncing ≠ some t →
      v.currentlySyncing ≠ some t → (v.currentlySyncing = none → t ∉ shared) →
      v.bookmarks.get? t = (latestState st₀ before).bookmarks.get? t
  | _ => True

theorem continues_of_silent {shared : List String} {before : List Effect} {x : Effect}
    (h : x.state? = none) : Continues shared st₀ before x := by
  cases x with
  | autoPosition g => trivial
  | message m =>
    cases m with
    | state v => cases h
    | _ => trivial

/-- The state has the bookmarks of the latest STATE, except of the stream that it names. -/
def Level (st₀ : State) (before : List Effect) (st : State) : Prop :=
  ∀ t, (latestState st₀ before).currentlySyncing ≠ some t →
    st.bookmarks.get? t = (latestState st₀ before).bookmarks.get? t

end TapMysql
