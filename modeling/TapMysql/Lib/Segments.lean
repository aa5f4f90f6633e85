import Mathlib.Order.Lattice
import Mathlib.Data.List.Basic

/-!
# Segments of an ordered list

The elements of a list whose key lies in a half-open interval. When the keys never decrease, the
segments over adjacent intervals join to the segment over their union.
-/

namespace Segment

variable {α κ : Type*} [LinearOrder κ] {key : α → κ} {p q r : κ} {l : List α}

/-- The elements with a key behind `p` and not behind `q`. -/
def between (key : α → κ) (p q : κ) (l : List α) : List α :=
  l.filter fun x => decide (p < key x ∧ key x ≤ q)

theorem mem_between {x : α} : x ∈ between key p q l ↔ x ∈ l ∧ p < key x ∧ key x ≤ q := by
  simp [between]

theorem between_eq_nil (h : ∀ x ∈ l, key x ≤ q → key x ≤ p) : between key p q l = [] := by
  apply List.eq_nil_iff_forall_not_mem.mpr
  intro x hx
  obtain ⟨hmem, hlt, hle⟩ := mem_between.mp hx
  exact absurd hlt (not_lt_of_ge (h x hmem hle))

theorem between_eq_nil_of_head {x : α} (hl : ∀ y ∈ l, key x ≤ key y) (h : q < key x) :
    between key p q l = [] := by
  apply between_eq_nil
  intro y hy hle
  exact absurd (h.trans_le (hl y hy)) (not_lt_of_ge hle)

theorem between_append_between (hl : l.Pairwise fun x y => key x ≤ key y) (hpq : p ≤ q)
    (hqr : q ≤ r) : between key p q l ++ between key q r l = between key p r l := by
  induction l with
  | nil => rfl
  | cons x l ih =>
    obtain ⟨hx, hl⟩ := List.pairwise_cons.mp hl
    have hcons : ∀ a b, between key a b (x :: l) =
        if a < key x ∧ key x ≤ b then x :: between key a b l else between key a b l := by
      intro a b
      simp [between, List.filter_cons]
    rw [hcons, hcons, hcons]
    rcases le_or_gt (key x) p with hp | hp
    · -- the head lies before all three segments
      rw [if_neg (fun h => not_lt_of_ge hp h.1), if_neg (fun h => not_lt_of_ge (hp.trans hpq) h.1),
        if_neg (fun h => not_lt_of_ge hp h.1)]
      exact ih hl
    · rcases le_or_gt (key x) q with hq | hq
      · rw [if_pos ⟨hp, hq⟩, if_neg (fun h => not_lt_of_ge hq h.1), if_pos ⟨hp, hq.trans hqr⟩,
          List.cons_append, ih hl]
      · -- the first segment is over
        have hnil : between key p q l = [] := between_eq_nil_of_head hx hq
        rw [if_neg (fun h => not_lt_of_ge h.2 hq), hnil, List.nil_append]
        rw [hnil, List.nil_append] at ih
        simp only [hp, hq, true_and]
        rw [ih hl]

end Segment
