import Mathlib.Data.List.Dedup
import Mathlib.Data.List.SplitBy
import Mathlib.Data.List.TakeWhile

/-!
# Runs of one key

Splitting a list into its runs of one key. Where the elements of each key stand together, the runs
are the classes of the list by key, in the order in which the keys appear.
-/

namespace Runs

variable {α κ : Type*} {key : α → κ} {l : List α} {x : α}

/-- Only elements of the same key stand between two elements of one key. -/
def Contiguous (key : α → κ) (l : List α) : Prop :=
  ∀ a b c, [a, b, c].Sublist l → key a = key c → key b = key a

theorem Contiguous.sublist {l' : List α} (h : Contiguous key l) (hl : l'.Sublist l) :
    Contiguous key l' :=
  fun a b c habc hac => h a b c (habc.trans hl) hac

/-- A list that is sorted by its keys is contiguous. -/
theorem contiguous_of_pairwise {r : κ → κ → Prop} (hantisymm : ∀ j k, r j k → r k j → j = k)
    (h : l.Pairwise fun a b => r (key a) (key b)) : Contiguous key l := by
  intro a b c habc hac
  have hpairs := h.sublist habc
  simp only [List.pairwise_cons, List.mem_cons, List.not_mem_nil, or_false, forall_eq_or_imp,
    forall_eq] at hpairs
  obtain ⟨⟨hab, -⟩, hbc, -⟩ := hpairs
  apply hantisymm
  · rw [hac]
    exact hbc
  · exact hab

variable [DecidableEq κ]

/-- Elements of the key of `x` that follow `x` directly. -/
def run (key : α → κ) (x : α) (l : List α) : List α :=
  l.takeWhile fun y => decide (key y = key x)

def rest (key : α → κ) (x : α) (l : List α) : List α :=
  l.dropWhile fun y => decide (key y = key x)

theorem run_append_rest (key : α → κ) (x : α) (l : List α) : run key x l ++ rest key x l = l :=
  List.takeWhile_append_dropWhile

theorem key_of_mem_run {y : α} (h : y ∈ run key x l) : key y = key x := by
  simpa using List.mem_takeWhile_imp h

theorem length_rest_le (key : α → κ) (x : α) (l : List α) : (rest key x l).length ≤ l.length :=
  (List.dropWhile_sublist _).length_le

/-- The key of `x` does not come again behind its run. -/
theorem key_of_mem_rest (h : Contiguous key (x :: l)) {y : α} (hy : y ∈ rest key x l) :
    key y ≠ key x := by
  intro heq
  cases hrest : rest key x l with
  | nil =>
    rw [hrest] at hy
    cases hy
  | cons z zs =>
    have hz : key z ≠ key x := by
      have hhead := List.head?_dropWhile_not (fun y => decide (key y = key x)) l
      rw [rest] at hrest
      simpa [hrest] using hhead
    rw [hrest] at hy
    rcases List.mem_cons.mp hy with rfl | hy
    · exact hz heq
    · have hsub : [x, z, y].Sublist (x :: l) := by
        apply List.Sublist.cons_cons
        have htail : [z, y].Sublist (z :: zs) :=
          List.Sublist.cons_cons z (List.singleton_sublist.mpr hy)
        rw [← hrest] at htail
        exact htail.trans (List.dropWhile_sublist _)
      exact hz (h x z y hsub heq.symm)

theorem splitBy_cons (h : Contiguous key (x :: l)) :
    (x :: l).splitBy (fun a b => decide (key a = key b)) =
      (x :: run key x l) :: (rest key x l).splitBy fun a b => decide (key a = key b) := by
  have hrun : (x :: run key x l).splitBy (fun a b => decide (key a = key b)) =
      [x :: run key x l] := by
    apply List.splitBy_of_isChain (List.cons_ne_nil _ _)
    have hkeys : ∀ y ∈ x :: run key x l, key y = key x :=
      List.forall_mem_cons.mpr ⟨rfl, fun y hy => key_of_mem_run hy⟩
    have hpairwise : (x :: run key x l).Pairwise fun a b => decide (key a = key b) = true :=
      List.pairwise_of_forall_mem_list fun a ha b hb => by
        rw [decide_eq_true_eq, hkeys a ha, hkeys b hb]
    exact hpairwise.isChain
  have hsplit := List.splitBy_append (r := fun a b => decide (key a = key b))
    (l := x :: run key x l) (m := rest key x l) (fun y hy z hz => by
      have hy : key y = key x := by
        rcases List.mem_cons.mp (List.mem_of_mem_getLast? hy) with rfl | hy
        · rfl
        · exact key_of_mem_run hy
      have hz := key_of_mem_rest h (List.mem_of_mem_head? hz)
      rw [decide_eq_false_iff_not, hy]
      exact fun heq => hz heq.symm)
  rw [List.cons_append, run_append_rest, hrun] at hsplit
  exact hsplit

theorem dedup_keys_cons (h : Contiguous key (x :: l)) :
    ((x :: l).map key).dedup = key x :: ((rest key x l).map key).dedup := by
  have hsplit : (x :: l).map key = List.replicate ((run key x l).length + 1) (key x) ++
      (rest key x l).map key := by
    have hrun : (run key x l).map key = List.replicate (run key x l).length (key x) :=
      List.map_eq_replicate_iff.mpr fun y hy => key_of_mem_run hy
    rw [List.replicate_succ, List.cons_append, ← hrun, ← List.map_append, run_append_rest,
      List.map_cons]
  have hnotMem : key x ∉ ((rest key x l).map key) := by
    intro hmem
    obtain ⟨y, hy, heq⟩ := List.mem_map.mp hmem
    exact key_of_mem_rest h hy heq
  rw [hsplit]
  induction (run key x l).length with
  | zero => exact List.dedup_cons_of_notMem hnotMem
  | succ n ih =>
    rw [List.replicate_succ, List.cons_append, List.dedup_cons_of_mem, ih]
    exact List.mem_append_left _ (by simp)

/-- The runs of a contiguous list are its classes by key. -/
theorem splitBy_eq_classes (h : Contiguous key l) :
    l.splitBy (fun a b => decide (key a = key b)) =
      (l.map key).dedup.map fun k => l.filter fun a => decide (key a = k) := by
  induction hn : l.length using Nat.strong_induction_on generalizing l with
  | _ n ih =>
    cases l with
    | nil => rfl
    | cons x l =>
      have hlength : (rest key x l).length < n := by
        have := length_rest_le key x l
        rw [List.length_cons] at hn
        omega
      have hcontiguous : Contiguous key (rest key x l) :=
        h.sublist ((List.dropWhile_sublist _).trans (List.sublist_cons_self x l))
      rw [splitBy_cons h, ih _ hlength hcontiguous rfl, dedup_keys_cons h, List.map_cons]
      have hl := run_append_rest key x l
      congr 1
      · -- the class of the first key is its run
        have hrun : (run key x l).filter (fun a => decide (key a = key x)) = run key x l :=
          List.filter_eq_self.mpr fun y hy => by simpa using key_of_mem_run hy
        have hrest : (rest key x l).filter (fun a => decide (key a = key x)) = [] :=
          List.filter_eq_nil_iff.mpr fun y hy => by simpa using key_of_mem_rest h hy
        rw [List.filter_cons_of_pos (by simp)]
        conv_rhs => rw [← hl, List.filter_append, hrun, hrest, List.append_nil]
      · -- the other classes have nothing of the run
        apply List.map_congr_left
        intro k hk
        obtain ⟨z, hz, rfl⟩ := List.mem_map.mp (List.mem_dedup.mp hk)
        have hne := key_of_mem_rest h hz
        have hrun : (run key x l).filter (fun a => decide (key a = key z)) = [] :=
          List.filter_eq_nil_iff.mpr fun y hy => by
            rw [decide_eq_true_eq, key_of_mem_run hy]
            exact hne.symm
        rw [List.filter_cons_of_neg (by simpa using hne.symm)]
        conv_rhs => rw [← hl, List.filter_append, hrun, List.nil_append]

end Runs
