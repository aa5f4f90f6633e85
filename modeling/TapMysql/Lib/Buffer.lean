import Mathlib.Data.List.Induction
import Mathlib.Data.Nat.ModEq

/-!
# Buffers that are emptied at a size

Items arrive in units. A buffer takes each unit whole and, once it holds at least `size` items,
passes on everything it holds. What was passed on and what is held are together the items that
arrived, in order, whatever the division into units.
-/

namespace Buffer

variable {ρ α : Type*}

/-- The items passed on and the items held, after one more unit. -/
def push (size : Nat) (b : List ρ × List ρ) (unit : List ρ) : List ρ × List ρ :=
  if size ≤ (b.2 ++ unit).length then (b.1 ++ (b.2 ++ unit), []) else (b.1, b.2 ++ unit)

def run (size : Nat) (units : List (List ρ)) : List ρ × List ρ :=
  units.foldl (push size) ([], [])

variable {size : Nat}

theorem run_append (units : List (List ρ)) (unit : List ρ) :
    run size (units ++ [unit]) = push size (run size units) unit := by
  simp [run]

theorem push_append (b : List ρ × List ρ) (unit : List ρ) :
    (push size b unit).1 ++ (push size b unit).2 = b.1 ++ b.2 ++ unit := by
  rw [push]
  split_ifs <;> simp

/-- Nothing is lost, doubled or moved between the items passed on and those held. -/
theorem run_flatten (size : Nat) (units : List (List ρ)) :
    (run size units).1 ++ (run size units).2 = units.flatten := by
  induction units using List.reverseRecOn with
  | nil => rfl
  | append_singleton units unit ih =>
    rw [run_append, push_append, ih]
    simp

theorem push_map (f : ρ → α) (b : List ρ × List ρ) (unit : List ρ) :
    push size (b.1.map f, b.2.map f) (unit.map f) =
      ((push size b unit).1.map f, (push size b unit).2.map f) := by
  have hlen : (b.2.map f ++ unit.map f).length = (b.2 ++ unit).length := by simp
  unfold push
  rw [hlen]
  split_ifs <;> simp

theorem push_held_lt (hsize : 0 < size) (b : List ρ × List ρ) (unit : List ρ) :
    (push size b unit).2.length < size := by
  rw [push]
  split_ifs with h
  · exact hsize
  · exact Nat.lt_of_not_le h

theorem held_lt (hsize : 0 < size) (units : List (List ρ)) : (run size units).2.length < size := by
  induction units using List.reverseRecOn with
  | nil => exact hsize
  | append_singleton units unit ih =>
    rw [run_append]
    exact push_held_lt hsize _ _

/-! ### Packs -/

/-- The packs passed on and the items held, after one more unit. -/
def packStep (size : Nat) (b : List (List ρ) × List ρ) (unit : List ρ) : List (List ρ) × List ρ :=
  if size ≤ (b.2 ++ unit).length then (b.1 ++ [b.2 ++ unit], []) else (b.1, b.2 ++ unit)

def pack (size : Nat) (units : List (List ρ)) : List (List ρ) × List ρ :=
  units.foldl (packStep size) ([], [])

def closePacks (b : List (List ρ) × List ρ) : List (List ρ) :=
  if b.2.isEmpty then b.1 else b.1 ++ [b.2]

/-- The packs of all units; what is held in the end is the last one. -/
def packs (size : Nat) (units : List (List ρ)) : List (List ρ) := closePacks (pack size units)

theorem pack_append (units : List (List ρ)) (unit : List ρ) :
    pack size (units ++ [unit]) = packStep size (pack size units) unit := by
  simp [pack]

theorem flatten_closePacks (b : List (List ρ) × List ρ) :
    (closePacks b).flatten = b.1.flatten ++ b.2 := by
  rw [closePacks]
  cases hb : b.2 <;> simp

/-- Packs are the runs of items that are passed on together. -/
theorem pack_run (size : Nat) (units : List (List ρ)) :
    ((pack size units).1.flatten, (pack size units).2) = run size units := by
  induction units using List.reverseRecOn with
  | nil => rfl
  | append_singleton units unit ih =>
    rw [pack_append, run_append, ← ih, packStep, push]
    split_ifs <;> simp

theorem flatten_packs (size : Nat) (units : List (List ρ)) :
    (packs size units).flatten = units.flatten := by
  rw [packs, flatten_closePacks, ← run_flatten size units, ← pack_run]

theorem pack_held_lt (hsize : 0 < size) (units : List (List ρ)) :
    (pack size units).2.length < size := by
  have hrun := congrArg Prod.snd (pack_run size units)
  rw [hrun]
  exact held_lt hsize units

theorem size_le_of_mem_pack (units : List (List ρ)) :
    ∀ p ∈ (pack size units).1, size ≤ p.length := by
  induction units using List.reverseRecOn with
  | nil => simp [pack]
  | append_singleton units unit ih =>
    rw [pack_append, packStep]
    split_ifs with h
    · intro p hp
      rcases List.mem_append.mp hp with hp | hp
      · exact ih p hp
      · rw [List.mem_singleton.mp hp]
        exact h
    · exact ih

theorem packs_ne_nil (hsize : 0 < size) (units : List (List ρ)) :
    ∀ p ∈ packs size units, p ≠ [] := by
  intro p hp
  have hfull : p ∈ (pack size units).1 → p ≠ [] := fun hp hnil => by
    have hle := size_le_of_mem_pack units p hp
    rw [hnil] at hle
    exact absurd hle (Nat.not_le.mpr hsize)
  rw [packs, closePacks] at hp
  cases hheld : (pack size units).2 with
  | nil =>
    rw [hheld] at hp
    exact hfull hp
  | cons x xs =>
    rw [hheld] at hp
    rcases List.mem_append.mp hp with hp | hp
    · exact hfull hp
    · rw [List.mem_singleton.mp hp]
      simp

theorem map_packStep (f : ρ → α) (b : List (List ρ) × List ρ) (unit : List ρ) :
    packStep size (b.1.map (List.map f), b.2.map f) (unit.map f) =
      ((packStep size b unit).1.map (List.map f), (packStep size b unit).2.map f) := by
  have hlen : (b.2.map f ++ unit.map f).length = (b.2 ++ unit).length := by simp
  unfold packStep
  rw [hlen]
  split_ifs <;> simp

theorem length_flatten_of_forall {packs : List (List ρ)} (h : ∀ p ∈ packs, p.length = size) :
    packs.flatten.length = packs.length * size := by
  induction packs with
  | nil => simp
  | cons p packs ih =>
    obtain ⟨hp, hrest⟩ := List.forall_mem_cons.mp h
    rw [List.flatten_cons, List.length_append, hp, ih hrest, List.length_cons, Nat.succ_mul,
      Nat.add_comm]

/-- As many packs as pieces of `size` items cover the items. -/
theorem length_packs (hsize : 0 < size) {units : List (List ρ)}
    (h : ∀ p ∈ (pack size units).1, p.length = size) :
    (packs size units).length = (units.flatten.length + size - 1) / size := by
  have htotal : units.flatten.length = (pack size units).1.length * size +
      (pack size units).2.length := by
    rw [← flatten_packs size, packs, flatten_closePacks, List.length_append,
      length_flatten_of_forall h]
  have hheld := pack_held_lt hsize units
  rw [htotal, packs, closePacks]
  cases hrest : (pack size units).2 with
  | nil =>
    rw [List.length_nil, Nat.add_zero, Nat.add_sub_assoc hsize, Nat.mul_comm,
      Nat.mul_add_div hsize, Nat.div_eq_of_lt (Nat.sub_lt hsize Nat.one_pos)]
    rfl
  | cons x xs =>
    rw [hrest] at hheld
    have hdiv : ((pack size units).1.length * size + (x :: xs).length + size - 1) / size =
        (pack size units).1.length + 1 := by
      rw [Nat.div_eq_iff hsize, Nat.succ_mul]
      simp only [List.length_cons] at hheld ⊢
      omega
    rw [hdiv]
    simp

/-- Units of one item fill every pack exactly. -/
theorem length_pack_singletons (hsize : 0 < size) (items : List ρ) :
    ∀ p ∈ (pack size (items.map fun x => [x])).1, p.length = size := by
  induction items using List.reverseRecOn with
  | nil => simp [pack]
  | append_singleton items x ih =>
    rw [List.map_append, List.map_singleton, pack_append, packStep]
    have hheld := pack_held_lt hsize (items.map fun x => [x])
    split_ifs with h
    · intro p hp
      rcases List.mem_append.mp hp with hp | hp
      · exact ih p hp
      · rw [List.mem_singleton.mp hp]
        rw [List.length_append, List.length_singleton] at h ⊢
        omega
    · exact ih

/-! ### Units that meet the size -/

/-- Every multiple of the size up to the number of items is met after some of the units. -/
def MeetsMultiples (size : Nat) (units : List (List ρ)) : Prop :=
  ∀ k, k * size ≤ units.flatten.length → ∃ a, a <+: units ∧ a.flatten.length = k * size

theorem MeetsMultiples.of_append {units units' : List (List ρ)}
    (h : MeetsMultiples size (units ++ units')) : MeetsMultiples size units := by
  intro k hk
  have hle : k * size ≤ (units ++ units').flatten.length := by
    rw [List.flatten_append, List.length_append]
    exact hk.trans (Nat.le_add_right _ _)
  obtain ⟨a, ha, hlen⟩ := h k hle
  rcases List.prefix_or_prefix_of_prefix ha (List.prefix_append units units') with ha | ⟨c, rfl⟩
  · exact ⟨a, ha, hlen⟩
  · -- the multiple is met after all of the first units
    refine ⟨units, List.prefix_rfl, le_antisymm ?_ hk⟩
    rw [← hlen, List.flatten_append, List.length_append]
    exact Nat.le_add_right _ _

theorem length_pack_of_meets (hsize : 0 < size) {units : List (List ρ)}
    (h : MeetsMultiples size units) : ∀ p ∈ (pack size units).1, p.length = size := by
  induction units using List.reverseRecOn with
  | nil => simp [pack]
  | append_singleton units unit ih =>
    have hfull := ih h.of_append
    have hheld := pack_held_lt hsize units
    have htotal : units.flatten.length =
        (pack size units).1.length * size + (pack size units).2.length := by
      rw [← flatten_packs size, packs, flatten_closePacks, List.length_append,
        length_flatten_of_forall hfull]
    rw [pack_append, packStep]
    split_ifs with hle
    · rw [List.length_append] at hle
      have hall : (units ++ [unit]).flatten.length = units.flatten.length + unit.length := by simp
      obtain ⟨a, ha, hlen⟩ := h ((pack size units).1.length + 1) (by
        rw [hall, Nat.succ_mul]
        omega)
      rw [Nat.succ_mul] at hlen
      have hunit : (pack size units).2.length + unit.length = size := by
        rcases List.prefix_concat_iff.mp ha with rfl | ⟨c, rfl⟩
        · omega
        · rw [List.flatten_append, List.length_append] at htotal
          omega
      intro p hp
      rcases List.mem_append.mp hp with hp | hp
      · exact hfull p hp
      · rw [List.mem_singleton.mp hp, List.length_append]
        exact hunit
    · exact hfull

theorem meets_of_length_pack {units : List (List ρ)}
    (h : ∀ p ∈ (pack size units).1, p.length = size) : MeetsMultiples size units := by
  induction units using List.reverseRecOn with
  | nil =>
    intro k hk
    exact ⟨[], List.prefix_rfl, (Nat.le_zero.mp hk).symm⟩
  | append_singleton units unit ih =>
    have hfull : ∀ p ∈ (pack size units).1, p.length = size := by
      intro p hp
      apply h
      rw [pack_append, packStep]
      split_ifs
      · exact List.mem_append_left _ hp
      · exact hp
    have htotal : units.flatten.length =
        (pack size units).1.length * size + (pack size units).2.length := by
      rw [← flatten_packs size, packs, flatten_closePacks, List.length_append,
        length_flatten_of_forall hfull]
    intro k hk
    by_cases hprev : k * size ≤ units.flatten.length
    · obtain ⟨a, ha, hlen⟩ := ih hfull k hprev
      exact ⟨a, ha.trans (List.prefix_append _ _), hlen⟩
    · -- the multiple lies in the last unit, which completes a pack
      refine ⟨units ++ [unit], List.prefix_rfl, ?_⟩
      have hall : (units ++ [unit]).flatten.length = units.flatten.length + unit.length := by simp
      rw [hall] at hk ⊢
      have hk' : (pack size units).1.length + 1 ≤ k := by
        by_contra hlt
        have hmul : k * size ≤ (pack size units).1.length * size :=
          Nat.mul_le_mul_right _ (by omega)
        omega
      have hmul : ((pack size units).1.length + 1) * size ≤ k * size :=
        Nat.mul_le_mul_right _ hk'
      rw [Nat.succ_mul] at hmul
      have hlast : ((pack size units).2 ++ unit).length = size := by
        apply h
        rw [pack_append, packStep, if_pos (by rw [List.length_append]; omega)]
        exact List.mem_append_right _ (List.mem_singleton_self _)
      rw [List.length_append] at hlast
      omega

/-- No pack is larger than the size exactly when the units meet all its multiples. -/
theorem packs_le_iff (hsize : 0 < size) (units : List (List ρ)) :
    (∀ p ∈ packs size units, p.length ≤ size) ↔ MeetsMultiples size units := by
  have hpack : (∀ p ∈ packs size units, p.length ≤ size) ↔
      ∀ p ∈ (pack size units).1, p.length = size := by
    rw [packs, closePacks]
    constructor
    · intro h p hp
      refine le_antisymm (h p ?_) (size_le_of_mem_pack units p hp)
      split_ifs
      · exact hp
      · exact List.mem_append_left _ hp
    · intro h p hp
      split_ifs at hp
      · exact (h p hp).le
      · rcases List.mem_append.mp hp with hp | hp
        · exact (h p hp).le
        · rw [List.mem_singleton.mp hp]
          exact (pack_held_lt hsize units).le
  rw [hpack]
  exact ⟨meets_of_length_pack, length_pack_of_meets hsize⟩

end Buffer
