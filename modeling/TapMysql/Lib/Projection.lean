import TapMysql.Lib.Loop

/-!
# Projections of a loop

An observer sees some inputs of a loop and some of its effects. When a machine that reads only the
inputs seen says, at every step, which effects are seen, the effects seen in a whole run are a
function of the inputs seen: the loop carries no information from one observer to another.
-/

namespace Projection

open Loop (Reaches)

variable {σ ι ε τ α κ ω : Type*}

/-- The state of a machine after its inputs, with all it has said. -/
def machine (next : α → κ → α × List ω) (x : α) (js : List κ) : α × List ω :=
  js.foldl (fun acc j => ((next acc.1 j).1, acc.2 ++ (next acc.1 j).2)) (x, [])

@[simp] theorem machine_nil (next : α → κ → α × List ω) (x : α) : machine next x [] = (x, []) :=
  rfl

theorem machine_concat (next : α → κ → α × List ω) (x : α) (js : List κ) (j : κ) :
    machine next x (js ++ [j]) = ((next (machine next x js).1 j).1,
      (machine next x js).2 ++ (next (machine next x js).1 j).2) := by
  rw [machine, List.foldl_append]
  rfl

variable {step : σ → ι → Step σ ε τ} {s₀ : σ} {seen : ι → Option κ} {shown : ε → Option ω}
  {next : α → κ → α × List ω} {R : List ι → σ → α → Prop} {x₀ : α}

/-- A relation to the machine that every iteration keeps holds at every loop head, and the effects
shown so far are what the machine has said. -/
theorem reaches_projected {all : List ι} (h₀ : R [] s₀ x₀)
    (hunseen : ∀ a i b out s em s' x, all = a ++ i :: b → Reaches step s₀ a out s → R a s x →
      seen i = none → step s i = .next em s' → em.filterMap shown = [] ∧ R (a ++ [i]) s' x)
    (hseen : ∀ a i b out s em s' x j, all = a ++ i :: b → Reaches step s₀ a out s → R a s x →
      seen i = some j → step s i = .next em s' →
      em.filterMap shown = (next x j).2 ∧ R (a ++ [i]) s' (next x j).1)
    {is : List ι} {out : List ε} {s : σ} (hr : Reaches step s₀ is out s) (his : is <+: all) :
    out.filterMap shown = (machine next x₀ (is.filterMap seen)).2 ∧
      R is s (machine next x₀ (is.filterMap seen)).1 := by
  induction hr with
  | start => exact ⟨rfl, h₀⟩
  | @step a out s i em s' hr hs ih =>
    obtain ⟨b, hb⟩ := his
    have hall : all = a ++ i :: b := by rw [← hb]; simp
    obtain ⟨hout, hR⟩ := ih ⟨i :: b, hall.symm⟩
    rw [List.filterMap_append, List.filterMap_append, hout]
    cases hi : seen i with
    | none =>
      obtain ⟨hnil, hR'⟩ := hunseen a i b out s em s' _ hall hr hR hi hs
      simp only [List.filterMap_cons, hi, List.filterMap_nil, List.append_nil, hnil]
      exact ⟨trivial, hR'⟩
    | some j =>
      obtain ⟨hem, hR'⟩ := hseen a i b out s em s' _ j hall hr hR hi hs
      simp only [List.filterMap_cons, hi, List.filterMap_nil, machine_concat, hem]
      exact ⟨trivial, hR'⟩

end Projection
