import Mathlib.Order.Bounds.Basic
import TapMysql.Lib.Dict

/-!
# Minima per key

Items with a key and a value of a linear order, taken one at a time into a dictionary that holds
for each key the least value so far and the names of its items.
-/

namespace Minima

structure Item (ι κ α : Type*) where
  name : ι
  key : κ
  value : α

variable {ι κ α : Type*} [DecidableEq κ] [LinearOrder α]

def add (least : Dict κ (α × List ι)) (x : Item ι κ α) : Dict κ (α × List ι) :=
  match least.get? x.key with
  | none => least.set x.key (x.value, [x.name])
  | some (a, names) => least.set x.key (min a x.value, names ++ [x.name])

def perKey (items : List (Item ι κ α)) : Dict κ (α × List ι) := items.foldl add Dict.empty

def ofKey (items : List (Item ι κ α)) (k : κ) : List (Item ι κ α) :=
  items.filter fun x => decide (x.key = k)

def valuesOf (items : List (Item ι κ α)) (k : κ) : Set α :=
  {a | ∃ x ∈ items, x.key = k ∧ x.value = a}

variable {items : List (Item ι κ α)} {x : Item ι κ α} {k : κ}

omit [LinearOrder α] in
theorem mem_ofKey : x ∈ ofKey items k ↔ x ∈ items ∧ x.key = k := by
  rw [ofKey, List.mem_filter, decide_eq_true_eq]

theorem perKey_concat : perKey (items ++ [x]) = add (perKey items) x := by
  rw [perKey, List.foldl_append, List.foldl_cons, List.foldl_nil, perKey]

omit [LinearOrder α] in
theorem ofKey_concat_self : ofKey (items ++ [x]) x.key = ofKey items x.key ++ [x] := by
  simp [ofKey]

omit [LinearOrder α] in
theorem ofKey_concat_ne (h : x.key ≠ k) : ofKey (items ++ [x]) k = ofKey items k := by
  simp [ofKey, h]

omit [DecidableEq κ] [LinearOrder α] in
theorem valuesOf_concat_self :
    valuesOf (items ++ [x]) x.key = insert x.value (valuesOf items x.key) := by
  ext a
  simp only [valuesOf, List.mem_append, List.mem_singleton, Set.mem_ofPred_eq, Set.mem_insert_iff]
  constructor
  · intro h
    obtain ⟨y, hy | rfl, hk, rfl⟩ := h
    · exact .inr ⟨y, hy, hk, rfl⟩
    · exact .inl rfl
  · intro h
    rcases h with rfl | ⟨y, hy, hk, rfl⟩
    · exact ⟨x, .inr rfl, rfl, rfl⟩
    · exact ⟨y, .inl hy, hk, rfl⟩

omit [DecidableEq κ] [LinearOrder α] in
theorem valuesOf_concat_ne (h : x.key ≠ k) : valuesOf (items ++ [x]) k = valuesOf items k := by
  ext a
  simp only [valuesOf, List.mem_append, List.mem_singleton, Set.mem_ofPred_eq]
  constructor
  · intro ha
    obtain ⟨y, hy | rfl, hk, rfl⟩ := ha
    · exact ⟨y, hy, hk, rfl⟩
    · exact absurd hk h
  · intro ha
    obtain ⟨y, hy, hk, rfl⟩ := ha
    exact ⟨y, .inl hy, hk, rfl⟩

theorem get?_add_ne {least : Dict κ (α × List ι)} (h : x.key ≠ k) :
    (add least x).get? k = least.get? k := by
  rw [add]
  split <;> exact Dict.get?_set_ne _ _ h

/-- A key is in the dictionary once it has an item, with the least of its values and the names of
all its items in their order. -/
theorem perKey_spec (items : List (Item ι κ α)) (k : κ) :
    (perKey items).get? k = none ∧ ofKey items k = [] ∧ valuesOf items k = ∅ ∨
      ∃ a, (perKey items).get? k = some (a, (ofKey items k).map Item.name) ∧
        IsLeast (valuesOf items k) a := by
  induction items using List.reverseRecOn with
  | nil => exact .inl ⟨rfl, rfl, by simp [valuesOf]⟩
  | append_singleton items x ih =>
    rw [perKey_concat]
    by_cases hk : x.key = k
    · subst hk
      rw [ofKey_concat_self, valuesOf_concat_self]
      right
      rcases ih with ⟨hnone, hitems, hvalues⟩ | ⟨a, hsome, hleast⟩
      · refine ⟨x.value, ?_, ?_⟩
        · simp [add, hnone, hitems]
        · rw [hvalues, insert_empty_eq]
          exact isLeast_singleton
      · refine ⟨min a x.value, ?_, ?_⟩
        · simp [add, hsome]
        · rw [min_comm]
          exact hleast.insert x.value
    · rw [get?_add_ne hk, ofKey_concat_ne hk, valuesOf_concat_ne hk]
      exact ih

theorem mem_keys_perKey : k ∈ (perKey items).keys ↔ ∃ x ∈ items, x.key = k := by
  rw [Dict.mem_keys_iff]
  constructor
  · intro h
    obtain ⟨v, hv⟩ := h
    rcases perKey_spec items k with ⟨hnone, -⟩ | ⟨a, -, ⟨x, hx, hk, -⟩, -⟩
    · simp [hnone] at hv
    · exact ⟨x, hx, hk⟩
  · intro h
    obtain ⟨x, hx, hk⟩ := h
    rcases perKey_spec items k with ⟨-, -, hvalues⟩ | ⟨a, hsome, -⟩
    · have hmem : x.value ∈ valuesOf items k := ⟨x, hx, hk, rfl⟩
      rw [hvalues] at hmem
      cases hmem
    · exact ⟨_, hsome⟩

theorem isLeast_of_get? {a : α} {names : List ι} (h : (perKey items).get? k = some (a, names)) :
    IsLeast (valuesOf items k) a ∧ names = (ofKey items k).map Item.name := by
  rcases perKey_spec items k with ⟨hnone, -⟩ | ⟨b, hsome, hleast⟩
  · simp [hnone] at h
  · rw [hsome, Option.some.injEq, Prod.mk.injEq] at h
    exact ⟨h.1 ▸ hleast, h.2.symm⟩

end Minima
