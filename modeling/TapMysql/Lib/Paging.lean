import Mathlib.Algebra.Order.Group.Multiset
import Mathlib.Data.Multiset.Filter
import Mathlib.Data.List.Sort

/-!
# Reading from a bookmark in attempts

A reader wants the items of a collection that are asked for at a bookmark. Each attempt receives
some of them, publishes some of these and holds the others back, and leaves a bookmark for the
next attempt; it may not step over an item that it did not receive. The items published in all
attempts, with those still asked for, cover what was wanted exactly when every item that is held
back and not asked for again was published before. When the collection changes between attempts,
the same holds of the items that it contains throughout, if nothing is held back.
-/

namespace Paging

variable {α β : Type*}

/-- What an attempt publishes, what it receives and holds back, and the bookmark it leaves. -/
structure Attempt (α β : Type*) where
  sent : Multiset α
  held : Multiset α
  bookmark : β

def Attempt.received (a : Attempt α β) : Multiset α := a.sent + a.held

def published (as : List (Attempt α β)) : Multiset α := (as.map Attempt.sent).sum

variable (asked : β → α → Prop) [∀ b, DecidablePred (asked b)]

theorem mem_published {as : List (Attempt α β)} {x : α} :
    x ∈ published as ↔ ∃ a ∈ as, x ∈ a.sent := by
  induction as with
  | nil => simp [published]
  | cons a as ih =>
    rw [published] at ih
    rw [published, List.map_cons, List.sum_cons, Multiset.mem_add, ih, List.exists_mem_cons_iff]

/-- Attempts at reading `M`, from one bookmark to another. -/
inductive Session (M : Multiset α) : β → List (Attempt α β) → β → Prop
  | start (b : β) : Session M b [] b
  | attempt {b b' : β} {a : Attempt α β} {as : List (Attempt α β)} (rest : Multiset α) :
      M.filter (asked b) = a.received + rest → (∀ x ∈ rest, asked a.bookmark x) →
      (∀ x, asked a.bookmark x → asked b x) → Session M a.bookmark as b' →
      Session M b (a :: as) b'

/-- Every item held back is asked for again, or was published by an earlier attempt or among
`earlier`, counted with multiplicity. -/
def Recovered (earlier : Multiset α) : List (Attempt α β) → Prop
  | [] => True
  | a :: as => a.held.filter (fun x => ¬asked a.bookmark x) ≤ earlier ∧
      Recovered (earlier + a.sent) as

instance decidableRecovered [DecidableEq α] :
    ∀ (earlier : Multiset α) (as : List (Attempt α β)), Decidable (Recovered asked earlier as)
  | _, [] => isTrue trivial
  | earlier, a :: as =>
    have := decidableRecovered (earlier + a.sent) as
    inferInstanceAs (Decidable (_ ∧ _))

/-- Of the items that `p` asks for, `S` and those that `q` asks for cover everything exactly when
`S` covers what `q` passes over, if one of both asks for all that the other does. -/
theorem le_add_filter_iff {γ : Type*} {M : Multiset α} (f : α → γ) {p q : α → Prop}
    [DecidablePred p] [DecidablePred q] (h : (∀ x, p x → q x) ∨ ∀ x, q x → p x)
    (S : Multiset γ) :
    (M.filter p).map f ≤ S + (M.filter q).map f ↔
      ((M.filter p).filter (fun x => ¬q x)).map f ≤ S := by
  rcases h with h | h
  · -- everything is asked for again
    have hnone : (M.filter p).filter (fun x => ¬q x) = 0 :=
      Multiset.filter_eq_nil.mpr fun x hx => not_not.mpr (h x (Multiset.mem_filter.mp hx).2)
    have hall : M.filter p ≤ M.filter q := Multiset.monotone_filter_right M h
    rw [hnone]
    exact iff_of_true ((Multiset.map_le_map hall).trans (Multiset.le_add_left _ _))
      (Multiset.zero_le _)
  · have hagain : (M.filter p).filter q = M.filter q := by
      rw [Multiset.filter_filter]
      exact Multiset.filter_congr fun x _ => ⟨fun hx => hx.1, fun hx => ⟨hx, h x hx⟩⟩
    have hsplit : (M.filter p).map f =
        ((M.filter p).filter (fun x => ¬q x)).map f + (M.filter q).map f := by
      rw [← hagain, ← Multiset.map_add, add_comm, Multiset.filter_add_not]
    rw [hsplit]
    exact Multiset.add_le_add_iff_right

/-- The bookmark of an attempt excludes what the attempt received. -/
def Exclusive (as : List (Attempt α β)) : Prop := ∀ a ∈ as, ∀ x ∈ a.received, ¬asked a.bookmark x

variable {asked} {M : Multiset α} {b b' : β} {as : List (Attempt α β)}

theorem page_eq {a : Attempt α β} {rest : Multiset α}
    (hpage : M.filter (asked b) = a.received + rest) (hrest : ∀ x ∈ rest, asked a.bookmark x)
    (hle : ∀ x, asked a.bookmark x → asked b x) :
    M.filter (asked b) =
      a.received.filter (fun x => ¬asked a.bookmark x) + M.filter (asked a.bookmark) := by
  have hagain : M.filter (asked a.bookmark) = a.received.filter (asked a.bookmark) + rest := by
    have hsub : M.filter (asked a.bookmark) = (M.filter (asked b)).filter (asked a.bookmark) := by
      rw [Multiset.filter_filter]
      exact Multiset.filter_congr fun x _ => ⟨fun h => ⟨h, hle x h⟩, fun h => h.1⟩
    rw [hsub, hpage, Multiset.filter_add, Multiset.filter_eq_self.mpr hrest]
  rw [hagain, hpage, ← add_assoc, add_comm (a.received.filter fun x => ¬asked a.bookmark x),
    Multiset.filter_add_not]

theorem Session.asked_mono (h : Session asked M b as b') : ∀ x, asked b' x → asked b x := by
  induction h with
  | start b => exact fun x hx => hx
  | attempt rest hpage hrest hle _ ih => exact fun x hx => hle x (ih x hx)

theorem Session.asked_of_sent (h : Session asked M b as b') :
    ∀ x ∈ published as, asked b x := by
  induction h with
  | start b => simp [published]
  | @attempt b b' a as rest hpage hrest hle _ ih =>
    intro x hx
    rw [published, List.map_cons, List.sum_cons, Multiset.mem_add] at hx
    rcases hx with hx | hx
    · have hmem : x ∈ M.filter (asked b) := by
        rw [hpage]
        exact Multiset.mem_add.mpr (Or.inl (Multiset.mem_add.mpr (Or.inl hx)))
      exact (Multiset.mem_filter.mp hmem).2
    · exact hle x (ih x hx)

theorem Session.append {b'' : β} {as' : List (Attempt α β)} (h : Session asked M b as b')
    (h' : Session asked M b' as' b'') : Session asked M b (as ++ as') b'' := by
  induction h with
  | start b => exact h'
  | attempt rest hpage hrest hle _ ih => exact .attempt rest hpage hrest hle (ih h')

/-- The published items cover what was asked for, up to what is still asked for, exactly when
the items held back are recovered. -/
theorem Session.covers_iff (h : Session asked M b as b') (earlier : Multiset α) :
    M.filter (asked b) ≤ earlier + published as + M.filter (asked b') ↔
      Recovered asked earlier as := by
  classical
  induction h generalizing earlier with
  | start b =>
    rw [published, List.map_nil, List.sum_nil, add_zero]
    exact iff_of_true (Multiset.le_add_left _ _) trivial
  | @attempt b b' a as rest hpage hrest hle hs ih =>
    have hsplit := page_eq hpage hrest hle
    rw [Recovered, ← ih, Multiset.le_iff_count, Multiset.le_iff_count, Multiset.le_iff_count,
      ← forall_and]
    refine forall_congr' fun x => ?_
    have hpub : published (a :: as) = a.sent + published as := by simp [published]
    rw [hsplit, hpub]
    by_cases hx : asked a.bookmark x
    · -- the item is asked for again: this attempt loses nothing of it
      simp only [Multiset.count_add, Multiset.count_filter, hx, not_true_eq_false, if_false,
        if_true]
      omega
    · -- the item is not asked for again, so no later attempt publishes it
      have hlater : (published as).count x = 0 :=
        Multiset.count_eq_zero_of_notMem fun hmem => hx (hs.asked_of_sent x hmem)
      have hleft : ¬asked b' x := fun hb' => hx (hs.asked_mono x hb')
      simp only [Multiset.count_add, Multiset.count_filter, hx, hleft, not_false_eq_true,
        if_false, if_true, hlater, Attempt.received]
      omega

theorem Session.not_asked_of_received (h : Session asked M b as b') (hex : Exclusive asked as) :
    ∀ a ∈ as, ∀ x ∈ a.received, ¬asked b' x := by
  induction h with
  | start b => simp
  | attempt rest hpage hrest hle hs ih =>
    intro a ha x hx
    rcases List.mem_cons.mp ha with rfl | ha
    · exact fun hb' => hex _ List.mem_cons_self x hx (hs.asked_mono x hb')
    · exact ih (fun a ha => hex a (List.mem_cons_of_mem _ ha)) a ha x hx

theorem Session.recovered_iff (h : Session asked M b as b') (hex : Exclusive asked as)
    {earlier : Multiset α} (hearlier : ∀ x ∈ earlier, ¬asked b x) :
    Recovered asked earlier as ↔ ∀ a ∈ as, a.held = 0 := by
  induction h generalizing earlier with
  | start b => simp [Recovered]
  | @attempt b b' a as rest hpage hrest hle hs ih =>
    have hreceived : ∀ x ∈ a.received, ¬asked a.bookmark x := hex a List.mem_cons_self
    have hheld : a.held.filter (fun x => ¬asked a.bookmark x) = a.held :=
      Multiset.filter_eq_self.mpr fun x hx => hreceived x (Multiset.mem_add.mpr (Or.inr hx))
    have hnext : ∀ x ∈ earlier + a.sent, ¬asked a.bookmark x := by
      intro x hx
      rcases Multiset.mem_add.mp hx with hx | hx
      · exact fun ha => hearlier x hx (hle x ha)
      · exact hreceived x (Multiset.mem_add.mpr (Or.inl hx))
    rw [Recovered, hheld, ih (fun a ha => hex a (List.mem_cons_of_mem _ ha)) hnext,
      List.forall_mem_cons]
    refine and_congr_left fun _ => ⟨fun hsub => ?_, fun hzero => hzero.le.trans bot_le⟩
    -- an item held back is asked for at `b`, and nothing published earlier is
    refine Multiset.eq_zero_of_forall_notMem fun x hx => hearlier x (Multiset.mem_of_le hsub hx) ?_
    have hmem : x ∈ M.filter (asked b) := by
      rw [hpage]
      exact Multiset.mem_add.mpr (Or.inl (Multiset.mem_add.mpr (Or.inr hx)))
    exact (Multiset.mem_filter.mp hmem).2

/-! ### Collections that change -/

variable (asked)

/-- Attempts at reading from one bookmark to another, each in a collection of its own. -/
inductive Sweep (P : Multiset α → Prop) : β → List (Attempt α β) → β → Prop
  | start (b : β) : Sweep P b [] b
  | attempt {b b' : β} {a : Attempt α β} {as : List (Attempt α β)} {M : Multiset α}
      (rest : Multiset α) : P M → M.filter (asked b) = a.received + rest →
      (∀ x ∈ rest, asked a.bookmark x) → (∀ x, asked a.bookmark x → asked b x) →
      Sweep P a.bookmark as b' → Sweep P b (a :: as) b'

variable {asked} {P : Multiset α → Prop} {kept : Multiset α}

theorem Sweep.session (h : Sweep asked (· = M) b as b') : Session asked M b as b' := by
  induction h with
  | start b => exact .start b
  | attempt rest hM hpage hrest hle _ ih =>
    subst hM
    exact .attempt rest hpage hrest hle ih

/-- An attempt receives what it was asked for of every part of its collection, up to what it
leaves to the next. -/
theorem page_covers {a : Attempt α β} {rest : Multiset α} (hkept : kept ≤ M)
    (hpage : M.filter (asked b) = a.received + rest) (hrest : ∀ x ∈ rest, asked a.bookmark x)
    (hle : ∀ x, asked a.bookmark x → asked b x) :
    kept.filter (asked b) ≤ a.received + kept.filter (asked a.bookmark) := by
  have hpassed : (kept.filter (asked b)).filter (fun x => ¬asked a.bookmark x) ≤ a.received := by
    have hsub := Multiset.filter_le_filter (fun x => ¬asked a.bookmark x)
      (Multiset.filter_le_filter (asked b) hkept)
    have hnone : rest.filter (fun x => ¬asked a.bookmark x) = 0 :=
      Multiset.filter_eq_nil.mpr fun x hx => not_not.mpr (hrest x hx)
    rw [hpage, Multiset.filter_add, hnone, add_zero] at hsub
    exact hsub.trans (Multiset.filter_le _ _)
  have hleft : (kept.filter (asked b)).filter (asked a.bookmark) = kept.filter (asked a.bookmark) :=
    by
      rw [Multiset.filter_filter]
      exact Multiset.filter_congr fun x _ => ⟨fun h => h.1, fun h => ⟨h, hle x h⟩⟩
  calc kept.filter (asked b)
      = (kept.filter (asked b)).filter (fun x => ¬asked a.bookmark x) +
          (kept.filter (asked b)).filter (asked a.bookmark) := by
        rw [add_comm, Multiset.filter_add_not]
    _ ≤ a.received + kept.filter (asked a.bookmark) := by
        rw [hleft]
        exact add_le_add_left hpassed _

/-- The items that every collection contains are published or still asked for, when nothing is
held back. -/
theorem Sweep.covers (hP : ∀ M, P M → kept ≤ M) (h : Sweep asked P b as b')
    (hheld : ∀ a ∈ as, a.held = 0) :
    kept.filter (asked b) ≤ published as + kept.filter (asked b') := by
  induction h with
  | start b => simp [published]
  | @attempt b b' a as M rest hM hpage hrest hle _ ih =>
    obtain ⟨hzero, hlater⟩ := List.forall_mem_cons.mp hheld
    have hnow := page_covers (hP M hM) hpage hrest hle
    rw [Attempt.received, hzero, add_zero] at hnow
    calc kept.filter (asked b)
        ≤ a.sent + kept.filter (asked a.bookmark) := hnow
      _ ≤ a.sent + (published as + kept.filter (asked b')) := add_le_add_right (ih hlater) _
      _ = published (a :: as) + kept.filter (asked b') := by
          simp [published, add_assoc]

/-! ### Sorted answers -/

section Sorted

variable {κ : Type*} [LinearOrder κ] (key : α → κ)

/-- The bookmark after receiving `got` from `b` on: the key of the last item. -/
def bookmarkAfter (b : κ) (got : List α) : κ := (got.getLast?.map key).getD b

/-- The attempts that publish and hold back these items, starting at `b`. -/
def attempts : κ → List (List α × List α) → List (Attempt α κ)
  | _, [] => []
  | b, (sent, held) :: pages =>
    ⟨sent, held, bookmarkAfter key b (sent ++ held)⟩ ::
      attempts (bookmarkAfter key b (sent ++ held)) pages

variable {key} {b : κ} {got rest : List α}

omit [LinearOrder κ] in
theorem attempts_held_eq_zero (b : κ) (pages : List (List α × List α)) :
    (∀ a ∈ attempts key b pages, a.held = 0) ↔ ∀ p ∈ pages, p.2 = [] := by
  induction pages generalizing b with
  | nil => simp [attempts]
  | cons p pages ih => simp [attempts, ih]

omit [LinearOrder κ] in
theorem bookmarkAfter_cases (key : α → κ) (b : κ) (got : List α) :
    (got = [] ∧ bookmarkAfter key b got = b) ∨
      ∃ ini x, got = ini ++ [x] ∧ bookmarkAfter key b got = key x := by
  rcases List.eq_nil_or_concat got with rfl | ⟨ini, x, rfl⟩
  · exact Or.inl ⟨rfl, rfl⟩
  · exact Or.inr ⟨ini, x, List.concat_eq_append, by simp [bookmarkAfter]⟩

omit [LinearOrder κ] in
theorem bookmarkAfter_append (b : κ) (xs ys : List α) :
    bookmarkAfter key b (xs ++ ys) = bookmarkAfter key (bookmarkAfter key b xs) ys := by
  rcases bookmarkAfter_cases key (bookmarkAfter key b xs) ys with ⟨rfl, h⟩ | ⟨ini, y, rfl, h⟩
  · rw [h, List.append_nil]
  · rw [h, ← List.append_assoc]
    simp [bookmarkAfter]

omit [LinearOrder κ] in
theorem attempts_append (b : κ) (pages pages' : List (List α × List α)) :
    attempts key b (pages ++ pages') = attempts key b pages ++
      attempts key (bookmarkAfter key b (pages.flatMap fun p => p.1 ++ p.2)) pages' := by
  induction pages generalizing b with
  | nil => rfl
  | cons p pages ih =>
    simp only [List.cons_append, attempts, ih, List.flatMap_cons]
    rw [bookmarkAfter_append b (p.1 ++ p.2)]

omit [LinearOrder κ] in
theorem Session.bookmark_eq {asked : κ → α → Prop} [∀ b, DecidablePred (asked b)]
    {pages : List (List α × List α)} {b' : κ} (h : Session asked M b (attempts key b pages) b') :
    b' = bookmarkAfter key b (pages.flatMap fun p => p.1 ++ p.2) := by
  induction pages generalizing b with
  | nil =>
    cases h
    rfl
  | cons p pages ih =>
    rw [attempts] at h
    cases h with
    | attempt rest _ _ _ hs =>
      rw [ih hs, List.flatMap_cons]
      exact (bookmarkAfter_append b (p.1 ++ p.2) _).symm

omit [LinearOrder κ] in
/-- Sessions over pages, one after the other, are one session. -/
theorem Session.append_pages {asked : κ → α → Prop} [∀ b, DecidablePred (asked b)]
    {pages pages' : List (List α × List α)} {b' b'' : κ}
    (h : Session asked M b (attempts key b pages) b')
    (h' : Session asked M b' (attempts key b' pages') b'') :
    Session asked M b (attempts key b (pages ++ pages')) b'' := by
  rw [attempts_append, ← h.bookmark_eq]
  exact h.append h'

theorem page_le (hpage : M.filter (b ≤ key ·) = ↑(got ++ rest))
    (hsorted : (got ++ rest).Pairwise fun x y => key x ≤ key y) :
    (∀ x ∈ rest, bookmarkAfter key b got ≤ key x) ∧
      ∀ x, bookmarkAfter key b got ≤ key x → b ≤ key x := by
  have hasked : ∀ x ∈ got ++ rest, b ≤ key x := fun x hx => by
    have hmem : x ∈ M.filter (b ≤ key ·) := hpage ▸ Multiset.mem_coe.mpr hx
    exact (Multiset.mem_filter.mp hmem).2
  rcases bookmarkAfter_cases key b got with ⟨rfl, hb⟩ | ⟨ini, y, rfl, hb⟩
  · rw [hb]
    exact ⟨fun x hx => hasked x (by simpa using hx), fun x hx => hx⟩
  · rw [hb]
    exact ⟨fun x hx => (List.pairwise_append.mp hsorted).2.2 y (by simp) x hx,
      fun x hx => (hasked y (by simp)).trans hx⟩

/-- In a strictly sorted answer everything left is above the last item received, and nothing
received is. -/
theorem page_lt (hpage : M.filter (b < key ·) = ↑(got ++ rest))
    (hsorted : (got ++ rest).Pairwise fun x y => key x < key y) :
    (∀ x ∈ rest, bookmarkAfter key b got < key x) ∧
      (∀ x, bookmarkAfter key b got < key x → b < key x) ∧
      ∀ x ∈ got, ¬bookmarkAfter key b got < key x := by
  have hasked : ∀ x ∈ got ++ rest, b < key x := fun x hx => by
    have hmem : x ∈ M.filter (b < key ·) := hpage ▸ Multiset.mem_coe.mpr hx
    exact (Multiset.mem_filter.mp hmem).2
  rcases bookmarkAfter_cases key b got with ⟨rfl, hb⟩ | ⟨ini, y, rfl, hb⟩
  · rw [hb]
    exact ⟨fun x hx => hasked x (by simpa using hx), fun x hx => hx, by simp⟩
  · rw [hb]
    obtain ⟨hgot, -, hcross⟩ := List.pairwise_append.mp hsorted
    refine ⟨fun x hx => hcross y (by simp) x hx,
      fun x hx => (hasked y (by simp)).trans hx, fun x hx => ?_⟩
    rcases List.mem_append.mp hx with hx | hx
    · exact not_lt_of_gt ((List.pairwise_append.mp hgot).2.2 x hx y (by simp))
    · rw [List.mem_singleton.mp hx]
      exact lt_irrefl _

end Sorted

end Paging
