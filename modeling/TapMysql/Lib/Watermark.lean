import TapMysql.Lib.Replay

/-!
# Replicas that read a table from a watermark on

Each row of a table has a stamp, and what a commit writes is stamped no earlier than anything
before it. A reader asks for the rows from a watermark on, stores what it gets, and raises the
watermark to the stamp of the last row. The table changes while it reads and between two reads; a
reader that is set back to an old watermark reads again. At every moment each row of the table is
stored as it is, or lies at the watermark or above, where it is still read.
-/

namespace Watermark

variable {ρ σ κ ν : Type*} [LinearOrder σ] [OrderBot σ] {key : ν → κ} {history : ℕ → List ρ}
  {stamp : ρ → σ} {image : ρ → ν} {t : Keyed key} {b b' : σ} {m n i : ℕ} {r s : ρ}
  {ws ws' : List ν}

/-- What a commit writes is stamped no earlier than any row that the table has held. -/
def Stamped (history : ℕ → List ρ) (stamp : ρ → σ) : Prop :=
  ∀ n, ∀ r ∈ history (n + 1), r ∉ history n → ∀ i ≤ n, ∀ s ∈ history i, stamp s ≤ stamp r

/-- At no moment two rows have one key. -/
def OneRow (key : ν → κ) (history : ℕ → List ρ) (image : ρ → ν) : Prop :=
  ∀ n, ∀ r ∈ history n, ∀ s ∈ history n, key (image r) = key (image s) → image r = image s

omit [OrderBot σ] in
theorem Stamped.later (h : Stamped history stamp) (hmn : m ≤ n) (hr : r ∈ history n)
    (hi : i ≤ m) (hs : s ∈ history i) : r ∈ history m ∨ stamp s ≤ stamp r := by
  induction n, hmn using Nat.le_induction with
  | base => exact .inl hr
  | succ n hmn ih =>
    by_cases hold : r ∈ history n
    · exact ih hold
    · exact .inr (h n r hr hold i (hi.trans hmn) s hs)

/-- The replica has stored every row of the table that lies below the watermark `b`, and nothing
that was never in the table. -/
structure Ready (history : ℕ → List ρ) (stamp : ρ → σ) (image : ρ → ν) (n : ℕ) (b : σ)
    (t : Keyed key) : Prop where
  reached : b = ⊥ ∨ ∃ i ≤ n, ∃ s ∈ history i, b ≤ stamp s
  shown : ∀ r ∈ history n, t.Holds (image r) ∨ b ≤ stamp r
  former : ∀ w, t.Holds w → ∃ i ≤ n, ∃ r ∈ history i, image r = w

theorem ready_bot (history : ℕ → List ρ) (stamp : ρ → σ) (image : ρ → ν) (n : ℕ) :
    Ready history stamp image n ⊥ (Keyed.empty : Keyed key) :=
  ⟨.inl rfl, fun _ _ => .inr bot_le, fun w hw => absurd hw (Keyed.not_holds_empty w)⟩

/-- A row that a commit changes is stamped above the watermark. -/
theorem Ready.later (h : Ready history stamp image m b t) (hstamped : Stamped history stamp)
    (hmn : m ≤ n) : Ready history stamp image n b t where
  reached := h.reached.imp_right fun ⟨i, hi, hs⟩ => ⟨i, hi.trans hmn, hs⟩
  shown := by
    intro r hr
    rcases h.reached with rfl | ⟨i, hi, s, hs, hb⟩
    · exact .inr bot_le
    · rcases hstamped.later hmn hr hi hs with hr | hle
      · exact h.shown r hr
      · exact .inr (hb.trans hle)
  former := by
    intro w hw
    obtain ⟨i, hi, hr⟩ := h.former w hw
    exact ⟨i, hi.trans hmn, hr⟩

section Load

variable [DecidableEq κ]

/-- The replica after these rows. -/
def load (t : Keyed key) (ws : List ν) : Keyed key := t.writeAll (ws.map .insert)

@[simp] theorem load_nil (t : Keyed key) : load t [] = t := rfl

theorem load_append (t : Keyed key) (ws ws' : List ν) :
    load t (ws ++ ws') = load (load t ws) ws' := by
  rw [load, List.map_append, Keyed.writeAll_append]
  rfl

/-- A row that is stored or comes stays, when no other with its key comes. -/
theorem holds_load {v : ν} (hv : t.Holds v ∨ v ∈ ws) (hone : ∀ w ∈ ws, key w = key v → w = v) :
    (load t ws).Holds v := by
  by_cases hws : ∃ w ∈ ws, key w = key v
  · obtain ⟨w, hw, hkey, hget⟩ := Keyed.get_load t hws
    rw [hone w hw hkey] at hget
    exact hget
  · have hold : t.Holds v := hv.resolve_right fun hin => hws ⟨v, hin, rfl⟩
    refine (Keyed.get_writeAll_of_forall_ne t fun e he hkey => hws ?_).trans hold
    obtain ⟨w, hw, rfl⟩ := List.mem_map.mp he
    exact ⟨w, hw, hkey⟩

theorem of_holds_load {v : ν} (h : (load t ws).Holds v) : t.Holds v ∨ v ∈ ws := by
  by_cases hws : ∃ w ∈ ws, key w = key v
  · obtain ⟨w, hw, -, hget⟩ := Keyed.get_load t hws
    have hwv : w = v := Option.some.inj (hget.symm.trans h)
    exact .inr (hwv ▸ hw)
  · refine .inl ((Keyed.get_writeAll_of_forall_ne t fun e he hkey => hws ?_).symm.trans h)
    obtain ⟨w, hw, rfl⟩ := List.mem_map.mp he
    exact ⟨w, hw, hkey⟩

/-- Rows of the table are read at one moment, and the watermark moves to `b'`. -/
theorem Ready.page (h : Ready history stamp image n b t) (hone : OneRow key history image)
    (hws : ∀ w ∈ ws, ∃ r ∈ history n, image r = w)
    (hall : ∀ r ∈ history n, b ≤ stamp r → image r ∈ ws ∨ b' ≤ stamp r)
    (hreached : b' = b ∨ ∃ r ∈ history n, b' ≤ stamp r) :
    Ready history stamp image n b' (load t ws) where
  reached := by
    rcases hreached with rfl | ⟨r, hr, hle⟩
    · exact h.reached
    · exact .inr ⟨n, le_rfl, r, hr, hle⟩
  shown := by
    intro r hr
    have hstored : t.Holds (image r) ∨ image r ∈ ws → (load t ws).Holds (image r) := by
      intro hv
      refine holds_load hv fun w hw hkey => ?_
      obtain ⟨r', hr', rfl⟩ := hws w hw
      exact hone n r' hr' r hr hkey
    rcases h.shown r hr with hshown | hb
    · exact .inl (hstored (.inl hshown))
    · exact (hall r hr hb).imp_left fun hin => hstored (.inr hin)
  former := by
    intro w hw
    rcases of_holds_load hw with hw | hw
    · exact h.former w hw
    · obtain ⟨r, hr, heq⟩ := hws w hw
      exact ⟨n, le_rfl, r, hr, heq⟩

/-- All rows from the watermark on are read at one moment. -/
theorem Ready.complete (h : Ready history stamp image n b t) (hone : OneRow key history image)
    (hws : ∀ w ∈ ws, ∃ r ∈ history n, image r = w)
    (hall : ∀ r ∈ history n, b ≤ stamp r → image r ∈ ws) :
    ∀ r ∈ history n, (load t ws).Holds (image r) := by
  intro r hr
  have hin : t.Holds (image r) ∨ image r ∈ ws := (h.shown r hr).imp_right (hall r hr)
  refine holds_load hin fun w hw hkey => ?_
  obtain ⟨r', hr', rfl⟩ := hws w hw
  exact hone n r' hr' r hr hkey

/-- Rows that were read at moments one after the other, from `m` to `n`. -/
inductive Reads (history : ℕ → List ρ) (image : ρ → ν) (n : ℕ) : ℕ → List ν → Prop
  | nil {m : ℕ} : m ≤ n → Reads history image n m []
  | page {m i : ℕ} {ws ws' : List ν} : m ≤ i → (∀ w ∈ ws, ∃ r ∈ history i, image r = w) →
      Reads history image n i ws' → Reads history image n m (ws ++ ws')

omit [DecidableEq κ] in
theorem Reads.le (h : Reads history image n m ws) : m ≤ n := by
  induction h with
  | nil hm => exact hm
  | page hm _ _ ih => exact hm.trans ih

omit [DecidableEq κ] in
theorem Reads.mono (h : Reads history image n m ws) (hi : i ≤ m) : Reads history image n i ws := by
  cases h with
  | nil hm => exact .nil (hi.trans hm)
  | page hm hws hrest => exact .page (hi.trans hm) hws hrest

omit [DecidableEq κ] in
theorem Reads.append (h : Reads history image i m ws) (h' : Reads history image n i ws') :
    Reads history image n m (ws ++ ws') := by
  induction h with
  | nil hm => exact h'.mono hm
  | page hm hws _ ih =>
    rw [List.append_assoc]
    exact .page hm hws ih

omit [DecidableEq κ] in
theorem Reads.later (h : Reads history image n m ws) (hni : n ≤ i) :
    Reads history image i m ws := by
  induction h with
  | nil hm => exact .nil (hm.trans hni)
  | page hm hws _ ih => exact .page hm hws ih

omit [DecidableEq κ] in
/-- What is read is that of a row. -/
theorem Reads.row (h : Reads history image n m ws) :
    ∀ w ∈ ws, ∃ i ≤ n, ∃ r ∈ history i, image r = w := by
  induction h with
  | nil hm => simp
  | page hm hws hrest ih =>
    intro w hw
    rcases List.mem_append.mp hw with hw | hw
    · exact ⟨_, hrest.le, hws w hw⟩
    · exact ih w hw

omit [DecidableEq κ] in
theorem Reads.part (h : Reads history image n m ws) (hpre : ws' <+: ws) :
    Reads history image n m ws' := by
  induction h generalizing ws' with
  | nil hm =>
    rw [List.prefix_nil.mp hpre]
    exact .nil hm
  | @page m i ws rest hm hws hrest ih =>
    rcases List.prefix_or_prefix_of_prefix hpre (List.prefix_append ws rest) with hpre' | ⟨tl, rfl⟩
    · have hpage : Reads history image n m (ws' ++ []) :=
        .page hm (fun w hw => hws w (hpre'.subset hw)) (.nil hrest.le)
      rwa [List.append_nil] at hpage
    · exact .page hm hws (ih ((List.prefix_append_right_inj ws).mp hpre))

/-- Reading on keeps every watermark. -/
theorem Ready.reads (h : Ready history stamp image m b t) (hstamped : Stamped history stamp)
    (hone : OneRow key history image) (hws : Reads history image n m ws) :
    Ready history stamp image n b (load t ws) := by
  induction hws generalizing t with
  | nil hm => exact h.later hstamped hm
  | page hm hws _ ih =>
    rw [load_append]
    exact ih ((h.later hstamped hm).page hone hws (fun _ _ hb => .inr hb) (.inl rfl))

end Load

end Watermark
