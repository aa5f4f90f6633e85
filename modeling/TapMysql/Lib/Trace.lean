import TapMysql.Lib.Loop

/-!
# Properties of a trace that look back

A property of an effect may depend on the effects emitted before it. `EachAfter P before out` says
that it holds of every effect of `out`, when `before` was emitted earlier. It splits along the
trace, so for the output of a loop it is a property of each iteration at each loop head.
-/

namespace Trace

variable {ε : Type*} {P : List ε → ε → Prop} {before out : List ε}

def EachAfter (P : List ε → ε → Prop) (before out : List ε) : Prop :=
  ∀ a x b, out = a ++ x :: b → P (before ++ a) x

@[simp] theorem eachAfter_nil : EachAfter P before [] := by
  intro a x b h
  simp at h

theorem eachAfter_cons {x : ε} :
    EachAfter P before (x :: out) ↔ P before x ∧ EachAfter P (before ++ [x]) out := by
  constructor
  · intro h
    refine ⟨by simpa using h [] x out rfl, ?_⟩
    intro a y b hout
    rw [List.append_assoc]
    exact h (x :: a) y b (by rw [hout]; rfl)
  · intro h a y b hout
    cases a with
    | nil =>
      obtain ⟨rfl, -⟩ := List.cons.inj hout
      simpa using h.1
    | cons z a =>
      obtain ⟨rfl, hrest⟩ := List.cons.inj hout
      have hy := h.2 a y b hrest
      rwa [List.append_assoc] at hy

theorem eachAfter_append {em : List ε} :
    EachAfter P before (out ++ em) ↔ EachAfter P before out ∧ EachAfter P (before ++ out) em := by
  induction out generalizing before with
  | nil => simp
  | cons x out ih =>
    rw [List.cons_append, eachAfter_cons, eachAfter_cons, ih, List.append_assoc, and_assoc]
    rfl

/-- When the effects of `out` do not change what `P` looks at, it is a property of each alone. -/
theorem eachAfter_iff_forall {Q : ε → Prop}
    (h : ∀ a b, out = a ++ b → ∀ x, P (before ++ a) x ↔ Q x) :
    EachAfter P before out ↔ ∀ x ∈ out, Q x := by
  constructor
  · intro heach x hx
    obtain ⟨a, b, rfl⟩ := List.append_of_mem hx
    exact (h a (x :: b) rfl x).mp (heach a x b rfl)
  · intro hall a x b hout
    exact (h a (x :: b) hout x).mpr (hall x (by rw [hout]; simp))

/-! ### Loops -/

open Loop (Reaches run)

variable {σ ι τ : Type*} {step : σ → ι → Step σ ε τ} {eof : σ → List ε × τ} {s₀ : σ}

/-- The output of a loop has the property exactly when every iteration, at every loop head the
loop reaches, and the last action emit effects that have it. -/
theorem run_eachAfter_iff {is : List ι} :
    EachAfter P before (run step eof is s₀).1 ↔
      (∀ a i b out s, is = a ++ i :: b → Reaches step s₀ a out s →
        EachAfter P (before ++ out) (step s i).emitted) ∧
      ∀ out s, Reaches step s₀ is out s → EachAfter P (before ++ out) (eof s).1 := by
  constructor
  · intro h
    refine ⟨fun a i b out s his hr => ?_, fun out s hr => ?_⟩
    · rw [his, Loop.run_of_reaches hr, eachAfter_append] at h
      cases hs : step s i with
      | next em s' =>
        rw [Loop.run_next hs, eachAfter_append] at h
        exact h.2.1
      | halt em t =>
        rw [Loop.run_halt hs] at h
        exact h.2
    · rw [Loop.run_of_reaches_end hr, eachAfter_append] at h
      exact h.2
  · intro ⟨hiter, heof⟩
    have hreached : ∀ a out s, a <+: is → Reaches step s₀ a out s → EachAfter P before out := by
      intro a out s ha hr
      induction hr with
      | start => exact eachAfter_nil
      | @step a out s i em s' hr hs ih =>
        have hrest : ∃ b, is = a ++ i :: b := by
          obtain ⟨b, hb⟩ := ha
          exact ⟨b, by rw [← hb]; simp⟩
        obtain ⟨b, hb⟩ := hrest
        have hem := hiter a i b out s hb hr
        rw [hs] at hem
        exact eachAfter_append.mpr ⟨ih ⟨i :: b, hb.symm⟩, hem⟩
    rcases Loop.run_cases step eof is s₀ with ⟨out, s, hr, he⟩ |
      ⟨a, i, b, out, s, em, t, his, hr, hs, he⟩
    · rw [he]
      exact eachAfter_append.mpr ⟨hreached is out s List.prefix_rfl hr, heof out s hr⟩
    · rw [he]
      have hem := hiter a i b out s his hr
      rw [hs] at hem
      exact eachAfter_append.mpr ⟨hreached a out s ⟨i :: b, his.symm⟩ hr, hem⟩

end Trace
