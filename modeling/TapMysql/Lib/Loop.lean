import Mathlib.Data.List.Basic

/-!
# Loops that emit effects

A loop reads inputs one at a time. Each iteration emits effects and either goes on with a new
state or halts with a result; when the inputs run out, a last action emits and decides the
result. `Reaches` is the reachability of a loop head, with the inputs taken and the effects
emitted so far, and carries every invariant by induction. The split rule locates an effect of
a whole run in the iteration that emitted it, and the congruence rule compares two runs.
-/

/-- What one iteration does. -/
inductive Step (σ ε τ : Type*)
  | next (emitted : List ε) (state : σ)
  | halt (emitted : List ε) (result : τ)

def Step.emitted {σ ε τ : Type*} : Step σ ε τ → List ε
  | .next em _ => em
  | .halt em _ => em

namespace Loop

variable {σ ι ε τ : Type*} {σ' ι' : Type*}

def run (step : σ → ι → Step σ ε τ) (eof : σ → List ε × τ) : List ι → σ → List ε × τ
  | [], s => eof s
  | i :: is, s =>
    match step s i with
    | .next em s' => (em ++ (run step eof is s').1, (run step eof is s').2)
    | .halt em t => (em, t)

/-- The loop head is reached in state `s` after taking `is` and emitting `out`. -/
inductive Reaches (step : σ → ι → Step σ ε τ) (s₀ : σ) : List ι → List ε → σ → Prop
  | start : Reaches step s₀ [] [] s₀
  | step {is out s i em s'} : Reaches step s₀ is out s → step s i = .next em s' →
      Reaches step s₀ (is ++ [i]) (out ++ em) s'

variable {step : σ → ι → Step σ ε τ} {eof : σ → List ε × τ} {s₀ : σ}

theorem run_next {is : List ι} {i : ι} {s s' : σ} {em : List ε} (h : step s i = .next em s') :
    run step eof (i :: is) s = (em ++ (run step eof is s').1, (run step eof is s').2) := by
  simp [run, h]

theorem run_halt {is : List ι} {i : ι} {s : σ} {em : List ε} {t : τ}
    (h : step s i = .halt em t) : run step eof (i :: is) s = (em, t) := by
  simp [run, h]

theorem run_of_reaches {is js : List ι} {out : List ε} {s : σ} (h : Reaches step s₀ is out s) :
    run step eof (is ++ js) s₀ =
      (out ++ (run step eof js s).1, (run step eof js s).2) := by
  induction h generalizing js with
  | start => simp
  | step _ hstep ih =>
    rw [List.append_assoc, ih, List.singleton_append, run_next hstep, List.append_assoc]

theorem run_of_reaches_end {is : List ι} {out : List ε} {s : σ} (h : Reaches step s₀ is out s) :
    run step eof is s₀ = (out ++ (eof s).1, (eof s).2) := by
  rw [← List.append_nil is, run_of_reaches h]
  rfl

theorem Reaches.trans {is js : List ι} {out em : List ε} {s s' : σ}
    (h : Reaches step s₀ is out s) (h' : Reaches step s js em s') :
    Reaches step s₀ (is ++ js) (out ++ em) s' := by
  induction h' with
  | start => simpa using h
  | step _ hstep ih =>
    rw [← List.append_assoc, ← List.append_assoc]
    exact ih.step hstep

theorem Reaches.cons {is : List ι} {i : ι} {out em : List ε} {s s' : σ}
    (hstep : step s₀ i = .next em s) (h : Reaches step s is out s') :
    Reaches step s₀ (i :: is) (em ++ out) s' := by
  have h1 : Reaches step s₀ [i] em s := by simpa using Reaches.start.step hstep
  simpa using h1.trans h

theorem Reaches.last {a : List ι} {i : ι} {out : List ε} {s : σ}
    (h : Reaches step s₀ (a ++ [i]) out s) :
    ∃ out₁ s₁ em, Reaches step s₀ a out₁ s₁ ∧ step s₁ i = .next em s ∧ out = out₁ ++ em := by
  generalize his : a ++ [i] = is at h
  cases h with
  | start => simp at his
  | step hr hstep =>
    obtain ⟨rfl, hij⟩ := List.append_inj' his rfl
    simp only [List.cons.injEq, and_true] at hij
    exact ⟨_, _, _, hr, hij ▸ hstep, rfl⟩

theorem Reaches.nil {out : List ε} {s : σ} (h : Reaches step s₀ [] out s) :
    out = [] ∧ s = s₀ := by
  generalize his : ([] : List ι) = is at h
  cases h with
  | start => exact ⟨rfl, rfl⟩
  | step => simp at his

theorem Reaches.unique {is : List ι} {out out' : List ε} {s s' : σ}
    (h : Reaches step s₀ is out s) (h' : Reaches step s₀ is out' s') : out = out' ∧ s = s' := by
  induction h generalizing out' s' with
  | start =>
    obtain ⟨rfl, rfl⟩ := h'.nil
    exact ⟨rfl, rfl⟩
  | step _ hstep ih =>
    obtain ⟨out₁, s₁, em, hr, hs, rfl⟩ := h'.last
    obtain ⟨rfl, rfl⟩ := ih hr
    obtain ⟨rfl, rfl⟩ := Step.next.inj (hstep.symm.trans hs)
    exact ⟨rfl, rfl⟩

theorem Reaches.split {a b : List ι} {i : ι} {out : List ε} {s : σ}
    (h : Reaches step s₀ (a ++ i :: b) out s) :
    ∃ out₁ s₁ em s₂, Reaches step s₀ a out₁ s₁ ∧ step s₁ i = .next em s₂ := by
  generalize his : a ++ i :: b = is at h
  induction h generalizing b with
  | start => simp at his
  | @step is out s j em s' hr hstep ih =>
    rcases List.eq_nil_or_concat b with rfl | ⟨b', k, rfl⟩
    · obtain ⟨rfl, hij⟩ := List.append_inj' his rfl
      simp only [List.cons.injEq, and_true] at hij
      exact ⟨out, s, em, s', hr, hij ▸ hstep⟩
    · rw [List.concat_eq_append, ← List.cons_append, ← List.append_assoc] at his
      exact ih (List.append_inj' his rfl).1

/-- The loop head is reached in state `s` after the rounds `rs`, each with the input it took and
what it emitted. -/
inductive Rounds (step : σ → ι → Step σ ε τ) (s₀ : σ) : List (ι × List ε) → σ → Prop
  | start : Rounds step s₀ [] s₀
  | next {rs s i em s'} : Rounds step s₀ rs s → step s i = .next em s' →
      Rounds step s₀ (rs ++ [(i, em)]) s'

theorem Rounds.reaches {rs : List (ι × List ε)} {s : σ} (h : Rounds step s₀ rs s) :
    Reaches step s₀ (rs.map Prod.fst) (rs.flatMap Prod.snd) s := by
  induction h with
  | start => exact .start
  | next _ hstep ih => simpa using ih.step hstep

theorem Rounds.last {rs : List (ι × List ε)} {r : ι × List ε} {s : σ}
    (h : Rounds step s₀ (rs ++ [r]) s) :
    ∃ s₁, Rounds step s₀ rs s₁ ∧ step s₁ r.1 = .next r.2 s := by
  generalize hrs : rs ++ [r] = all at h
  cases h with
  | start => simp at hrs
  | next hr hstep =>
    obtain ⟨rfl, hlast⟩ := List.append_inj' hrs rfl
    obtain ⟨rfl, -⟩ := List.cons.inj hlast
    exact ⟨_, hr, hstep⟩

theorem Rounds.of_append {rs rs' : List (ι × List ε)} {s : σ}
    (h : Rounds step s₀ (rs ++ rs') s) : ∃ s₁, Rounds step s₀ rs s₁ := by
  generalize hall : rs ++ rs' = all at h
  induction h generalizing rs' with
  | start =>
    obtain ⟨rfl, -⟩ := List.append_eq_nil_iff.mp hall
    exact ⟨s₀, .start⟩
  | next hr hstep ih =>
    rcases List.eq_nil_or_concat rs' with rfl | ⟨init, r, rfl⟩
    · rw [List.append_nil] at hall
      exact ⟨_, hall ▸ hr.next hstep⟩
    · rw [List.concat_eq_append, ← List.append_assoc] at hall
      exact ih (List.append_inj' hall rfl).1

/-- The loop passed a loop head where the state and the next input satisfy `Q`. -/
def Passed (step : σ → ι → Step σ ε τ) (s₀ : σ) (Q : σ → ι → Prop) (is : List ι) : Prop :=
  ∃ a i b out s, is = a ++ i :: b ∧ Reaches step s₀ a out s ∧ Q s i

theorem not_passed_nil {Q : σ → ι → Prop} : ¬ Passed step s₀ Q [] := by
  intro ⟨a, i, b, _, _, h, _⟩
  simp at h

theorem passed_concat {Q : σ → ι → Prop} {is : List ι} {i : ι} {out : List ε} {s : σ}
    (hr : Reaches step s₀ is out s) :
    Passed step s₀ Q (is ++ [i]) ↔ Passed step s₀ Q is ∨ Q s i := by
  constructor
  · intro ⟨a, j, b, out', s', his, hr', hq⟩
    rcases List.eq_nil_or_concat b with rfl | ⟨b', k, rfl⟩
    · obtain ⟨rfl, hj⟩ := List.append_inj' his rfl
      obtain ⟨rfl, -⟩ := List.cons.inj hj
      obtain ⟨-, rfl⟩ := hr.unique hr'
      exact .inr hq
    · rw [List.concat_eq_append, ← List.cons_append, ← List.append_assoc] at his
      obtain ⟨rfl, -⟩ := List.append_inj' his rfl
      exact .inl ⟨a, j, b', out', s', rfl, hr', hq⟩
  · intro h
    rcases h with ⟨a, j, b, out', s', rfl, hr', hq⟩ | hq
    · exact ⟨a, j, b ++ [i], out', s', by simp, hr', hq⟩
    · exact ⟨is, i, [], out, s, rfl, hr, hq⟩

/-- A run takes all its inputs and ends with `eof`, or halts at the first one that says so. -/
theorem run_cases (step : σ → ι → Step σ ε τ) (eof : σ → List ε × τ) (is : List ι) (s₀ : σ) :
    (∃ out s, Reaches step s₀ is out s ∧
      run step eof is s₀ = (out ++ (eof s).1, (eof s).2)) ∨
    (∃ a i b out s em t, is = a ++ i :: b ∧ Reaches step s₀ a out s ∧ step s i = .halt em t ∧
      run step eof is s₀ = (out ++ em, t)) := by
  induction is generalizing s₀ with
  | nil => exact Or.inl ⟨[], s₀, .start, by simp [run]⟩
  | cons i is ih =>
    cases hstep : step s₀ i with
    | halt em t =>
      exact Or.inr ⟨[], i, is, [], s₀, em, t, rfl, .start, hstep, by simp [run_halt hstep]⟩
    | next em s =>
      rw [run_next hstep]
      rcases ih s with ⟨out, s', hr, he⟩ | ⟨a, j, b, out, s', em', t, rfl, hr, hh, he⟩
      · exact Or.inl ⟨em ++ out, s', hr.cons hstep, by simp [he]⟩
      · exact Or.inr ⟨i :: a, j, b, em ++ out, s', em', t, rfl, hr.cons hstep, hh, by simp [he]⟩

/-- What every iteration keeps holds of all effects of a run and of its result. -/
theorem run_invariant {I : σ → Prop} {P : ε → Prop} {Q : τ → Prop}
    (hnext : ∀ s i em s', I s → step s i = .next em s' → I s' ∧ ∀ x ∈ em, P x)
    (hhalt : ∀ s i em t, I s → step s i = .halt em t → Q t ∧ ∀ x ∈ em, P x)
    (heof : ∀ s, I s → Q (eof s).2 ∧ ∀ x ∈ (eof s).1, P x) (is : List ι) {s : σ} (h : I s) :
    Q (run step eof is s).2 ∧ ∀ x ∈ (run step eof is s).1, P x := by
  induction is generalizing s with
  | nil => exact heof s h
  | cons i is ih =>
    cases hstep : step s i with
    | halt em t =>
      rw [run_halt hstep]
      exact hhalt s i em t h hstep
    | next em s' =>
      rw [run_next hstep]
      obtain ⟨h', hem⟩ := hnext s i em s' h hstep
      exact ⟨(ih h').1, List.forall_mem_append.mpr ⟨hem, (ih h').2⟩⟩

/-- The same rule when the inputs satisfy `J`. -/
theorem run_invariant_on {I : σ → Prop} {J : ι → Prop} {P : ε → Prop} {Q : τ → Prop}
    (hnext : ∀ s i em s', J i → I s → step s i = .next em s' → I s' ∧ ∀ x ∈ em, P x)
    (hhalt : ∀ s i em t, J i → I s → step s i = .halt em t → Q t ∧ ∀ x ∈ em, P x)
    (heof : ∀ s, I s → Q (eof s).2 ∧ ∀ x ∈ (eof s).1, P x) {is : List ι} (his : ∀ i ∈ is, J i)
    {s : σ} (h : I s) : Q (run step eof is s).2 ∧ ∀ x ∈ (run step eof is s).1, P x := by
  induction is generalizing s with
  | nil => exact heof s h
  | cons i is ih =>
    obtain ⟨hi, his⟩ := List.forall_mem_cons.mp his
    cases hstep : step s i with
    | halt em t =>
      rw [run_halt hstep]
      exact hhalt s i em t hi h hstep
    | next em s' =>
      rw [run_next hstep]
      obtain ⟨h', hem⟩ := hnext s i em s' hi h hstep
      exact ⟨(ih his h').1, List.forall_mem_append.mpr ⟨hem, (ih his h').2⟩⟩

/-- What every iteration keeps holds at every loop head. -/
theorem Reaches.invariant_on {I : σ → Prop} {J : ι → Prop}
    (hnext : ∀ s i em s', J i → I s → step s i = .next em s' → I s') {is : List ι} {out : List ε}
    {s : σ} (hr : Reaches step s₀ is out s) (his : ∀ i ∈ is, J i) (h : I s₀) : I s := by
  induction hr with
  | start => exact h
  | step _ hstep ih =>
    obtain ⟨his, hi⟩ := List.forall_mem_append.mp his
    exact hnext _ _ _ _ (hi _ (List.mem_singleton_self _)) (ih his) hstep

/-- An effect of the run stands in the output of one iteration or of the last action; what
was emitted before it is the output up to that loop head and a part of that iteration. -/
theorem run_split {is : List ι} {pre post : List ε} {x : ε}
    (h : (run step eof is s₀).1 = pre ++ x :: post) :
    (∃ a i b out s em s' e₁ e₂, is = a ++ i :: b ∧ Reaches step s₀ a out s ∧
      step s i = .next em s' ∧ em = e₁ ++ x :: e₂ ∧ pre = out ++ e₁) ∨
    (∃ a i b out s em t e₁ e₂, is = a ++ i :: b ∧ Reaches step s₀ a out s ∧
      step s i = .halt em t ∧ em = e₁ ++ x :: e₂ ∧ pre = out ++ e₁) ∨
    (∃ out s e₁ e₂, Reaches step s₀ is out s ∧ (eof s).1 = e₁ ++ x :: e₂ ∧ pre = out ++ e₁) := by
  induction is generalizing s₀ pre with
  | nil => exact Or.inr (Or.inr ⟨[], s₀, pre, post, .start, h, rfl⟩)
  | cons i is ih =>
    cases hstep : step s₀ i with
    | halt em t =>
      rw [run_halt hstep] at h
      exact Or.inr (Or.inl ⟨[], i, is, [], s₀, em, t, pre, post, rfl, .start, hstep, h, rfl⟩)
    | next em s =>
      rw [run_next hstep] at h
      rcases List.append_eq_append_iff.mp h with ⟨d, rfl, hd⟩ | ⟨d, hem, hd⟩
      · -- the effect comes after this iteration
        rcases ih hd with ⟨a, j, b, out, s1, em1, s2, e₁, e₂, rfl, hr, hs, he, hp⟩ |
          ⟨a, j, b, out, s1, em1, t, e₁, e₂, rfl, hr, hs, he, hp⟩ |
          ⟨out, s1, e₁, e₂, hr, he, hp⟩
        · exact Or.inl ⟨i :: a, j, b, em ++ out, s1, em1, s2, e₁, e₂, rfl, hr.cons hstep, hs, he,
            by simp [hp]⟩
        · exact Or.inr (Or.inl ⟨i :: a, j, b, em ++ out, s1, em1, t, e₁, e₂, rfl,
            hr.cons hstep, hs, he, by simp [hp]⟩)
        · exact Or.inr (Or.inr ⟨em ++ out, s1, e₁, e₂, hr.cons hstep, he, by simp [hp]⟩)
      · cases d with
        | nil =>
          -- the iteration ends just before the effect
          simp only [List.append_nil] at hem
          subst hem
          have hd' : (run step eof is s).1 = [] ++ x :: post := by simpa using hd.symm
          rcases ih hd' with ⟨a, j, b, out, s1, em1, s2, e₁, e₂, rfl, hr, hs, he, hp⟩ |
            ⟨a, j, b, out, s1, em1, t, e₁, e₂, rfl, hr, hs, he, hp⟩ |
            ⟨out, s1, e₁, e₂, hr, he, hp⟩
          · exact Or.inl ⟨i :: a, j, b, em ++ out, s1, em1, s2, e₁, e₂, rfl, hr.cons hstep, hs,
              he, by simp [← hp]⟩
          · exact Or.inr (Or.inl ⟨i :: a, j, b, em ++ out, s1, em1, t, e₁, e₂, rfl,
              hr.cons hstep, hs, he, by simp [← hp]⟩)
          · exact Or.inr (Or.inr ⟨em ++ out, s1, e₁, e₂, hr.cons hstep, he, by simp [← hp]⟩)
        | cons y d =>
          simp only [List.cons_append, List.cons.injEq] at hd
          obtain ⟨rfl, -⟩ := hd
          exact Or.inl ⟨[], i, is, [], s₀, em, s, pre, d, rfl, .start, hstep, hem, rfl⟩

/-- An effect of a run is emitted by the iteration at a loop head, or by the last action. -/
theorem mem_run {is : List ι} {x : ε} (h : x ∈ (run step eof is s₀).1) :
    (∃ a i b out s, is = a ++ i :: b ∧ Reaches step s₀ a out s ∧ x ∈ (step s i).emitted) ∨
      ∃ out s, Reaches step s₀ is out s ∧ x ∈ (eof s).1 := by
  obtain ⟨pre, post, hout⟩ := List.append_of_mem h
  rcases run_split hout with ⟨a, i, b, out, s, em, s', e₁, e₂, his, hr, hs, hem, -⟩ |
    ⟨a, i, b, out, s, em, t, e₁, e₂, his, hr, hs, hem, -⟩ | ⟨out, s, e₁, e₂, hr, hem, -⟩
  · exact .inl ⟨a, i, b, out, s, his, hr, by simp [hs, Step.emitted, hem]⟩
  · exact .inl ⟨a, i, b, out, s, his, hr, by simp [hs, Step.emitted, hem]⟩
  · exact .inr ⟨out, s, hr, by simp [hem]⟩

theorem emitted_mem_run {a b : List ι} {i : ι} {out : List ε} {s : σ} {x : ε}
    (hr : Reaches step s₀ a out s) (hx : x ∈ (step s i).emitted) :
    x ∈ (run step eof (a ++ i :: b) s₀).1 := by
  rw [run_of_reaches hr]
  apply List.mem_append_right
  cases hs : step s i with
  | next em s' =>
    rw [hs] at hx
    rw [run_next hs]
    exact List.mem_append_left _ hx
  | halt em t =>
    rw [hs] at hx
    rw [run_halt hs]
    exact hx

/-- Two runs whose iterations keep a relation and emit the same are the same run. The first run
is at a loop head it reaches, so an iteration may use what holds there. -/
theorem run_congr {step' : σ' → ι' → Step σ' ε τ} {eof' : σ' → List ε × τ}
    {S : σ → σ' → Prop} {I : ι → ι' → Prop} {is : List ι}
    (hstep : ∀ a i b out s s' i', is = a ++ i :: b → Reaches step s₀ a out s → S s s' → I i i' →
      (∃ em t, step s i = .halt em t ∧ step' s' i' = .halt em t) ∨
      (∃ em u u', step s i = .next em u ∧ step' s' i' = .next em u' ∧ S u u'))
    (heof : ∀ s s', S s s' → eof s = eof' s') {a js : List ι} {js' : List ι'}
    (hi : List.Forall₂ I js js') (his : is = a ++ js) {out : List ε} {s : σ} {s' : σ'}
    (hr : Reaches step s₀ a out s) (hs : S s s') :
    run step eof js s = run step' eof' js' s' := by
  induction hi generalizing a out s s' with
  | nil => exact heof s s' hs
  | @cons i i' js js' hii _ ih =>
    rcases hstep a i js out s s' i' his hr hs hii with ⟨em, t, h, h'⟩ | ⟨em, u, u', h, h', hu⟩
    · rw [run_halt h, run_halt h']
    · rw [run_next h, run_next h', ih (by simp [his]) (hr.step h) hu]

/-- Two runs over the same inputs whose iterations go on together or halt together: what the
iterations keep of their outputs and states gives what holds of the outputs and results. -/
theorem run_related {ε' τ' : Type*} {step' : σ' → ι → Step σ' ε' τ'} {eof' : σ' → List ε' × τ'}
    {R : List ε → σ → List ε' → σ' → Prop} {T : List ε × τ → List ε' × τ' → Prop}
    (hstep : ∀ i out s out' s', R out s out' s' →
      (∃ em u em' u', step s i = .next em u ∧ step' s' i = .next em' u' ∧
        R (out ++ em) u (out' ++ em') u') ∨
      (∃ em t em' t', step s i = .halt em t ∧ step' s' i = .halt em' t' ∧
        T (out ++ em, t) (out' ++ em', t')))
    (heof : ∀ out s out' s', R out s out' s' →
      T (out ++ (eof s).1, (eof s).2) (out' ++ (eof' s').1, (eof' s').2))
    (is : List ι) {out : List ε} {s : σ} {out' : List ε'} {s' : σ'} (h : R out s out' s') :
    T (out ++ (run step eof is s).1, (run step eof is s).2)
      (out' ++ (run step' eof' is s').1, (run step' eof' is s').2) := by
  induction is generalizing out s out' s' with
  | nil => exact heof out s out' s' h
  | cons i is ih =>
    rcases hstep i out s out' s' h with
      ⟨em, u, em', u', hs, hs', hu⟩ | ⟨em, t, em', t', hs, hs', ht⟩
    · rw [run_next hs, run_next hs', ← List.append_assoc, ← List.append_assoc]
      exact ih hu
    · rw [run_halt hs, run_halt hs']
      exact ht

end Loop
