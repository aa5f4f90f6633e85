import TapMysql.Lib.Watermark

/-!
# Keyed tables whose rows belong to generations

Every row is written for a generation, and the table holds one row under each key, whichever
generation it is of. When a generation is activated, the rows of the others go. So after a load
that ends with the activation of a generation of its own, the table shows what the load wrote and
nothing else.
-/

namespace Generations

variable {γ κ ν : Type*} {key : ν → κ}

/-- Rows with their generations, under the keys of the rows. -/
abbrev Store (γ : Type*) (key : ν → κ) := Keyed fun x : γ × ν => key x.2

inductive Write (γ ν : Type*)
  | row (g : γ) (v : ν)
  | activate (g : γ)

/-- The write is for the generation `g`. -/
def Write.IsOf (g : γ) : Write γ ν → Prop
  | .row g' _ => g' = g
  | .activate g' => g' = g

/-- The rows that are written. -/
def Write.row? : Write γ ν → Option ν
  | .row _ v => some v
  | .activate _ => none

variable [DecidableEq γ]

/-- The rows of one generation. -/
def retain (s : Store γ key) (g : γ) : Store γ key where
  get k := (s.get k).filter fun x => x.1 = g
  keyed k x h := s.keyed k x (Option.eq_some_of_filter_eq_some h)

theorem holds_retain {s : Store γ key} {g : γ} {x : γ × ν} :
    (retain s g).Holds x ↔ s.Holds x ∧ x.1 = g := by
  rw [Keyed.Holds, retain, Option.filter_eq_some_iff, decide_eq_true_eq]
  rfl

/-- The rows of one generation, as a table. -/
def current (s : Store γ key) (g : γ) : Keyed key where
  get k := ((retain s g).get k).map Prod.snd
  keyed k v h := by
    obtain ⟨x, hx, rfl⟩ := Option.map_eq_some_iff.mp h
    exact (retain s g).keyed k x hx

theorem holds_current {s : Store γ key} {g : γ} {v : ν} :
    (current s g).Holds v ↔ s.Holds (g, v) := by
  constructor
  · intro h
    obtain ⟨⟨g', v'⟩, hx, rfl⟩ := Option.map_eq_some_iff.mp h
    obtain ⟨hheld, rfl⟩ := holds_retain.mp hx
    exact hheld
  · intro h
    exact Option.map_eq_some_iff.mpr ⟨(g, v), holds_retain.mpr ⟨h, rfl⟩, rfl⟩

/-- A generation that is new has no rows. -/
theorem current_eq_empty {s : Store γ key} {g : γ} (h : ∀ v, ¬ s.Holds (g, v)) :
    current s g = Keyed.empty := by
  apply Keyed.eq_of_holds
  intro v
  rw [holds_current]
  exact iff_of_false (h v) (Keyed.not_holds_empty v)

theorem current_retain (s : Store γ key) (g : γ) : current (retain s g) g = current s g := by
  apply Keyed.eq_of_holds
  intro w
  rw [holds_current, holds_retain, holds_current]
  exact and_iff_left rfl

variable [DecidableEq κ]

def apply (s : Store γ key) : Write γ ν → Store γ key
  | .row g v => s.put (g, v)
  | .activate g => retain s g

def run (s : Store γ key) (ws : List (Write γ ν)) : Store γ key := ws.foldl apply s

theorem run_append (s : Store γ key) (ws ws' : List (Write γ ν)) :
    run s (ws ++ ws') = run (run s ws) ws' := List.foldl_append

theorem current_put (s : Store γ key) (g : γ) (v : ν) :
    current (s.put (g, v)) g = (current s g).put v := by
  apply Keyed.eq_of_holds
  intro w
  rw [holds_current, Keyed.holds_put, Keyed.holds_put, holds_current, Prod.mk.injEq]
  simp

/-- The writes of one generation load its table. -/
theorem current_run {g : γ} {ws : List (Write γ ν)} (h : ∀ w ∈ ws, w.IsOf g) (s : Store γ key) :
    current (run s ws) g = Watermark.load (current s g) (ws.filterMap Write.row?) := by
  induction ws generalizing s with
  | nil => rfl
  | cons w ws ih =>
    obtain ⟨hw, hws⟩ := List.forall_mem_cons.mp h
    rw [run, List.foldl_cons]
    refine (ih hws (apply s w)).trans ?_
    cases w with
    | row g' v =>
      obtain rfl : g' = g := hw
      rw [apply, current_put]
      rfl
    | activate g' =>
      obtain rfl : g' = g := hw
      rw [apply, current_retain]
      rfl

/-- After a load of a generation, and its activation, the store shows the load. -/
theorem holds_run_activate {g : γ} {ws : List (Write γ ν)} (h : ∀ w ∈ ws, w.IsOf g)
    (s : Store γ key) {x : γ × ν} :
    (run s (ws ++ [.activate g])).Holds x ↔
      x.1 = g ∧ (Watermark.load (current s g) (ws.filterMap Write.row?)).Holds x.2 := by
  rw [run_append, ← current_run h s, holds_current]
  show (retain (run s ws) g).Holds x ↔ _
  rw [holds_retain]
  constructor
  · rintro ⟨hx, rfl⟩
    exact ⟨rfl, hx⟩
  · rintro ⟨rfl, hx⟩
    exact ⟨hx, rfl⟩

end Generations
