import Mathlib.Data.List.Basic

/-!
# Names between quotes

A text that holds names between quotes is read back by splitting it at the quote: the pieces at
odd places are the names, the others are the text outside. A function on texts that keeps every
quote acts on each piece by itself.
-/

namespace Quoting

variable {α β γ : Type*}

/-- A text with quoted names, each with the text before it, and the text behind the last. -/
structure Quoted (α : Type*) where
  pairs : List (List α × List α)
  rest : List α

def Quoted.map (f : List α → List β) (t : Quoted α) : Quoted β :=
  ⟨t.pairs.map fun p => (f p.1, f p.2), f t.rest⟩

def Quoted.names (t : Quoted α) : List (List α) := t.pairs.map Prod.snd

def Quoted.outside (t : Quoted α) : List α := t.pairs.flatMap Prod.fst ++ t.rest

def Quoted.spell (quote : α) (t : Quoted α) : List α :=
  t.pairs.flatMap (fun p => p.1 ++ quote :: (p.2 ++ [quote])) ++ t.rest

/-- No piece of the text holds the quote. -/
structure Quoted.Free (quote : α) (t : Quoted α) : Prop where
  pairs : ∀ p ∈ t.pairs, quote ∉ p.1 ∧ quote ∉ p.2
  rest : quote ∉ t.rest

/-! ### Reading back -/

def oddPieces : List (List α) → List (List α)
  | _ :: name :: rest => name :: oddPieces rest
  | _ => []

def evenPieces : List (List α) → List (List α)
  | text :: _ :: rest => text :: evenPieces rest
  | rest => rest

/-- The names between quotes. -/
def namesIn [BEq α] (quote : α) (text : List α) : List (List α) := oddPieces (text.splitOn quote)

/-- The text that is not between quotes. -/
def outsideOf [BEq α] (quote : α) (text : List α) : List α :=
  (evenPieces (text.splitOn quote)).flatten

theorem Quoted.spell_cons (quote : α) (p : List α × List α) (ps : List (List α × List α))
    (rest : List α) : (Quoted.mk (p :: ps) rest).spell quote =
      p.1 ++ quote :: (p.2 ++ quote :: (Quoted.mk ps rest).spell quote) := by
  simp [Quoted.spell]

theorem Quoted.spell_append (quote : α) (ps qs : List (List α × List α)) (rest : List α) :
    (Quoted.mk (ps ++ qs) rest).spell quote =
      (Quoted.mk ps []).spell quote ++ (Quoted.mk qs rest).spell quote := by
  simp [Quoted.spell]

theorem splitOn_spell [BEq α] [LawfulBEq α] {quote : α} {t : Quoted α} (h : t.Free quote) :
    (t.spell quote).splitOn quote = t.pairs.flatMap (fun p => [p.1, p.2]) ++ [t.rest] := by
  obtain ⟨ps, rest⟩ := t
  induction ps with
  | nil => exact List.splitOn_eq_singleton h.rest
  | cons p ps ih =>
    obtain ⟨hp, hps⟩ := List.forall_mem_cons.mp h.pairs
    rw [Quoted.spell_cons, List.splitOn_append_cons_self, List.splitOn_append_cons_self,
      List.splitOn_eq_singleton hp.1, List.splitOn_eq_singleton hp.2, ih ⟨hps, h.rest⟩]
    rfl

theorem namesIn_spell [BEq α] [LawfulBEq α] {quote : α} {t : Quoted α} (h : t.Free quote) :
    namesIn quote (t.spell quote) = t.names := by
  rw [namesIn, splitOn_spell h, Quoted.names]
  induction t.pairs with
  | nil => rfl
  | cons p ps ih => exact congrArg (p.2 :: ·) ih

theorem outsideOf_spell [BEq α] [LawfulBEq α] {quote : α} {t : Quoted α} (h : t.Free quote) :
    outsideOf quote (t.spell quote) = t.outside := by
  have heven : ∀ ps : List (List α × List α),
      evenPieces (ps.flatMap (fun p => [p.1, p.2]) ++ [t.rest]) = ps.map Prod.fst ++ [t.rest] := by
    intro ps
    induction ps with
    | nil => rfl
    | cons p ps ih => exact congrArg (p.1 :: ·) ih
  rw [outsideOf, splitOn_spell h, heven, Quoted.outside, List.flatMap_def]
  simp

/-! ### Functions that keep quotes -/

theorem map_spell {quote : α} {quote' : β} {f : List α → List β}
    (hf : ∀ xs ys, f (xs ++ quote :: ys) = f xs ++ quote' :: f ys) (t : Quoted α) :
    f (t.spell quote) = (t.map f).spell quote' := by
  obtain ⟨ps, rest⟩ := t
  induction ps with
  | nil => rfl
  | cons p ps ih =>
    rw [Quoted.spell_cons, hf, hf, ih]
    simp [Quoted.map, Quoted.spell]

/-- What a function collects from a text, when nothing spans a quote. -/
theorem collect_spell {quote : α} {g : List α → List γ}
    (hg : ∀ xs ys, g (xs ++ quote :: ys) = g xs ++ g ys) (t : Quoted α) :
    g (t.spell quote) = t.pairs.flatMap (fun p => g p.1 ++ g p.2) ++ g t.rest := by
  obtain ⟨ps, rest⟩ := t
  induction ps with
  | nil => rfl
  | cons p ps ih =>
    rw [Quoted.spell_cons, hg, hg, ih]
    simp

end Quoting
