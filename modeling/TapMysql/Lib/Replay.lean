import Mathlib.Order.Lattice
import Mathlib.Order.Nat
import TapMysql.Lib.KeyedTable

/-!
# Replicas that read parts of a log again

A replica reads parts of the log of a table: each part starts no later than the place that the
parts before have brought it to, and ends anywhere. Under the keys that no edit from its place on
writes, it shows what a replica shows in the end that has read the log once. What it shows under
the other keys does not matter, so it may also have been loaded while the table was edited.
-/

namespace Keyed

variable {κ ν : Type*} {key : ν → κ} [DecidableEq κ] {t t' r : Keyed key} {es : List (Edit ν)}
  {i j a b : ℕ} {k : κ}

theorem get_writeAll_of_forall_ne (t : Keyed key) (h : ∀ e ∈ es, key e.image ≠ k) :
    (t.writeAll es).get k = t.get k := by
  induction es using List.reverseRecOn with
  | nil => rfl
  | append_singleton es e ih =>
    have he : k ≠ key e.image := (h e (by simp)).symm
    rw [writeAll_concat, get_write_of_ne _ he]
    exact ih fun e' he' => h e' (List.mem_append_left _ he')

/-- An edit that writes a key decides what the replica shows under it. -/
theorem get_writeAll_of_exists (t t' : Keyed key) (h : ∃ e ∈ es, key e.image = k) :
    (t.writeAll es).get k = (t'.writeAll es).get k := by
  induction es using List.reverseRecOn with
  | nil =>
    obtain ⟨e, he, -⟩ := h
    cases he
  | append_singleton es e ih =>
    rw [writeAll_concat, writeAll_concat]
    by_cases hk : key e.image = k
    · subst hk
      rw [get_apply_image t (t.writeAll es) e, get_apply_image t (t'.writeAll es) e]
    · have hes : ∃ e ∈ es, key e.image = k := by
        obtain ⟨e', he', hk'⟩ := h
        rcases List.mem_append.mp he' with he' | he'
        · exact ⟨e', he', hk'⟩
        · exact absurd (List.mem_singleton.mp he' ▸ hk') hk
      rw [get_write_of_ne _ (Ne.symm hk), get_write_of_ne _ (Ne.symm hk)]
      exact ih hes

/-- Under each key that no edit from `i` on writes, the replica shows what `t` shows after all
edits. -/
def CaughtUp (t : Keyed key) (es : List (Edit ν)) (i : ℕ) (r : Keyed key) : Prop :=
  ∀ k, (∀ e ∈ es.drop i, key e.image ≠ k) → r.get k = (t.writeAll es).get k

theorem caughtUp_zero (t : Keyed key) (es : List (Edit ν)) : CaughtUp t es 0 t :=
  fun _ hne => (get_writeAll_of_forall_ne t hne).symm

theorem CaughtUp.mono (h : CaughtUp t es i r) (hj : j ≤ i) : CaughtUp t es j r :=
  fun k hne => h k fun e he => hne e ((List.drop_sublist_drop_left _ hj).subset he)

theorem CaughtUp.eq (h : CaughtUp t es i r) (hi : es.length ≤ i) : r = t.writeAll es := by
  apply ext
  intro k
  apply h k
  rw [List.drop_eq_nil_of_le hi]
  simp

theorem take_append_drop_take (es : List (Edit ν)) {a b : ℕ} (h : a ≤ b) :
    es.take b = es.take a ++ (es.take b).drop a := by
  have hsplit := List.take_append_drop a (es.take b)
  rw [List.take_take, min_eq_left h] at hsplit
  exact hsplit.symm

theorem drop_subset (es : List (Edit ν)) (a b : ℕ) {e : Edit ν} (he : e ∈ es.drop a) :
    e ∈ (es.take b).drop a ∨ e ∈ es.drop b := by
  rcases le_total a b with hab | hba
  · have hsplit : es = es.take a ++ ((es.take b).drop a ++ es.drop b) := by
      rw [← List.append_assoc, ← take_append_drop_take es hab, List.take_append_drop]
    rw [hsplit, List.drop_append, List.drop_eq_nil_of_le (List.length_take_le _ _),
      List.nil_append] at he
    exact List.mem_append.mp (List.mem_of_mem_drop he)
  · exact .inr ((List.drop_sublist_drop_left _ hba).subset he)

/-- The replica reads the edits from `a` to `b`, where it needs to read from `i` on. -/
theorem CaughtUp.writeAll (h : CaughtUp t es i r) (ha : a ≤ i) :
    CaughtUp t es b (r.writeAll ((es.take b).drop a)) := by
  intro k hne
  by_cases hk : ∃ e ∈ (es.take b).drop a, key e.image = k
  · -- the last of these edits is the last of all under the key
    have hab : a ≤ b := by
      by_contra hba
      rw [List.drop_eq_nil_of_le ((List.length_take_le _ _).trans (not_le.mp hba).le)] at hk
      simp at hk
    calc (r.writeAll ((es.take b).drop a)).get k
        = ((t.writeAll (es.take a)).writeAll ((es.take b).drop a)).get k :=
          get_writeAll_of_exists _ _ hk
      _ = (t.writeAll (es.take b)).get k := by
          rw [← writeAll_append, ← take_append_drop_take es hab]
      _ = ((t.writeAll (es.take b)).writeAll (es.drop b)).get k :=
          (get_writeAll_of_forall_ne _ hne).symm
      _ = (t.writeAll es).get k := by rw [← writeAll_append, List.take_append_drop]
  · rw [get_writeAll_of_forall_ne _ fun e he hek => hk ⟨e, he, hek⟩]
    refine h k fun e he hek => ?_
    rcases drop_subset es a b ((List.drop_sublist_drop_left _ ha).subset he) with hin | hin
    · exact hk ⟨e, hin, hek⟩
    · exact hne e hin hek

/-! ### A replica that is loaded while the table is edited -/

theorem applyAll_append (t : Keyed key) (es es' : List (Edit ν)) :
    t.applyAll (es ++ es') = (t.applyAll es).applyAll es' :=
  List.foldl_append

theorem get_applyAll_of_forall_ne (t : Keyed key) (h : ∀ e ∈ es, key e.image ≠ k)
    (hleft : ¬ LeftBehind key k es) : (t.applyAll es).get k = t.get k := by
  induction es using List.reverseRecOn with
  | nil => rfl
  | append_singleton es e ih =>
    have he : k ≠ key e.image := (h e (by simp)).symm
    rw [leftBehind_concat, not_or] at hleft
    rw [applyAll_concat, get_apply_of_ne _ he hleft.1]
    exact ih (fun e' he' => h e' (List.mem_append_left _ he'))
      fun hes => hleft.2 ⟨hes, he.symm⟩

/-- A key under which no edit from `i` on writes stays as it is at `i`. -/
theorem get_applyAll_take (t : Keyed key) (h : ∀ e ∈ es.drop i, key e.image ≠ k)
    (hleft : ¬ LeftBehind key k es) (hij : i ≤ j) :
    (t.applyAll (es.take j)).get k = (t.applyAll (es.take i)).get k := by
  have hlater : ∀ e ∈ es.drop j, key e.image ≠ k :=
    fun e he => h e ((List.drop_sublist_drop_left _ hij).subset he)
  rw [take_append_drop_take es hij, applyAll_append]
  apply get_applyAll_of_forall_ne
  · intro e he
    rw [List.drop_take] at he
    exact h e (List.mem_of_mem_take he)
  · intro ⟨a, e, b, hes, hmoves, hrest⟩
    refine hleft ⟨es.take i ++ a, e, b ++ es.drop j, ?_, hmoves, ?_⟩
    · have hsplit := List.take_append_drop j es
      rw [take_append_drop_take es hij, hes] at hsplit
      simpa using hsplit.symm
    · exact List.forall_mem_append.mpr ⟨hrest, hlater⟩

/-- The last row with a key that was loaded stands under it. -/
theorem get_load {rows : List ν} (t : Keyed key) (h : ∃ w ∈ rows, key w = k) :
    ∃ w ∈ rows, key w = k ∧ (t.writeAll (rows.map .insert)).get k = some w := by
  induction rows using List.reverseRecOn with
  | nil =>
    obtain ⟨w, hw, -⟩ := h
    cases hw
  | append_singleton rows r ih =>
    rw [List.map_append, List.map_singleton, writeAll_concat]
    by_cases hr : key r = k
    · subst hr
      exact ⟨r, by simp, rfl, get_put_self _ r⟩
    · have hrows : ∃ w ∈ rows, key w = k := by
        obtain ⟨w, hw, hk⟩ := h
        rcases List.mem_append.mp hw with hw | hw
        · exact ⟨w, hw, hk⟩
        · exact absurd (List.mem_singleton.mp hw ▸ hk) hr
      obtain ⟨w, hw, hk, hget⟩ := ih hrows
      exact ⟨w, List.mem_append_left _ hw, hk, (get_put_of_ne _ (Ne.symm hr)).trans hget⟩

/-- A replica is loaded with rows that were read after the first `i` edits, at any moments while
the others came. When the rows that no edit from `i` on touched are all among them, the replica
only needs to read the edits from `i` on. -/
theorem caughtUp_load {rows : List ν} (hlegal : t.Legal es)
    (hleft : ∀ k, ¬ LeftBehind key k es)
    (hread : ∀ w ∈ rows, ∃ j, i ≤ j ∧ (t.applyAll (es.take j)).Holds w)
    (hall : ∀ w, (t.applyAll (es.take i)).Holds w → (∀ e ∈ es.drop i, key e.image ≠ key w) →
      w ∈ rows) :
    CaughtUp t es i ((empty : Keyed key).writeAll (rows.map .insert)) := by
  intro k hne
  have hend : (t.writeAll es).get k = (t.applyAll (es.take i)).get k := by
    have hlater := get_applyAll_take t hne (hleft k) (le_max_left i es.length)
    rw [List.take_of_length_le (le_max_right i es.length)] at hlater
    rw [(writeAll_get hlegal k).2 (hleft k), hlater]
  rw [hend]
  by_cases hrows : ∃ w ∈ rows, key w = k
  · obtain ⟨w, hw, rfl, hget⟩ := get_load empty hrows
    obtain ⟨j, hij, hholds⟩ := hread w hw
    rw [hget, ← get_applyAll_take t hne (hleft _) hij]
    exact hholds.symm
  · have hnone : ∀ e ∈ rows.map Edit.insert, key e.image ≠ k := by
      intro e he hk
      obtain ⟨w, hw, rfl⟩ := List.mem_map.mp he
      exact hrows ⟨w, hw, hk⟩
    rw [get_writeAll_of_forall_ne _ hnone]
    cases hget : (t.applyAll (es.take i)).get k with
    | none => rfl
    | some w =>
      obtain rfl := (t.applyAll (es.take i)).keyed k w hget
      exact absurd ⟨w, hall w hget hne, rfl⟩ hrows

/-! ### A table in another form -/

omit [DecidableEq κ] in
/-- Rows with different keys have forms with different keys, so the table has a mirror. -/
theorem exists_mirrors {κ' ν' : Type*} {key' : ν' → κ'} {f : ν → ν'}
    (hapart : Apart key key' f t.Holds) : ∃ r : Keyed key', Mirrors f t r := by
  classical
  refine ⟨⟨fun k => if h : ∃ v, t.Holds v ∧ key' (f v) = k then some (f h.choose) else none, ?_⟩,
    ?_⟩
  · intro k w hw
    split_ifs at hw with h
    cases hw
    exact h.choose_spec.2
  · intro w
    constructor
    · intro hw
      unfold Holds at hw
      dsimp only at hw
      split_ifs at hw with h
      exact ⟨h.choose, h.choose_spec.1, Option.some.inj hw⟩
    · rintro ⟨v, hv, rfl⟩
      have h : ∃ u, t.Holds u ∧ key' (f u) = key' (f v) := ⟨v, hv, rfl⟩
      obtain ⟨hu, hkey⟩ := h.choose_spec
      have hsame : t.get (key h.choose) = t.get (key v) := by
        rw [(hapart _ _ hu hv).mp hkey]
      have huv : h.choose = v := Option.some.inj (hu.symm.trans (hsame.trans hv))
      show (if h : ∃ u, t.Holds u ∧ key' (f u) = key' (f v) then some (f h.choose) else none) = _
      rw [dif_pos h, huv]

end Keyed
