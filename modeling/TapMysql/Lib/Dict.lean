import Mathlib.Data.List.Induction
import Mathlib.Data.List.Nodup
import Mathlib.Data.List.Perm.Basic

/-!
# Insertion-ordered dictionaries

An association list whose keys are pairwise distinct, with the update rules of an
insertion-ordered dictionary: storing under a present key replaces the value where it stands,
storing under a new key appends, and deletion keeps the order of the rest. Distinctness of
the keys is a field, so no operation below has to assume it.
-/

structure Dict (κ : Type*) (ν : Type*) where
  entries : List (κ × ν)
  nodup : (entries.map Prod.fst).Nodup

namespace Dict

variable {κ ν μ : Type*}

@[ext] theorem ext {d e : Dict κ ν} (h : d.entries = e.entries) : d = e := by
  cases d
  cases e
  simpa using h

instance [DecidableEq κ] [DecidableEq ν] : DecidableEq (Dict κ ν) := fun d e =>
  decidable_of_iff (d.entries = e.entries) ⟨ext, fun h => h ▸ rfl⟩

def empty : Dict κ ν := ⟨[], List.nodup_nil⟩

instance : Inhabited (Dict κ ν) := ⟨empty⟩

def keys (d : Dict κ ν) : List κ := d.entries.map Prod.fst

def values (d : Dict κ ν) : List ν := d.entries.map Prod.snd

def isEmpty (d : Dict κ ν) : Bool := d.entries.isEmpty

theorem keys_nodup (d : Dict κ ν) : d.keys.Nodup := d.nodup

@[simp] theorem keys_empty : (empty : Dict κ ν).keys = [] := rfl

/-! ### Association lists -/

section Assoc

variable [DecidableEq κ]

def assocGet (k : κ) : List (κ × ν) → Option ν
  | [] => none
  | (k', v) :: rest => if k' = k then some v else assocGet k rest

def assocSet (k : κ) (v : ν) : List (κ × ν) → List (κ × ν)
  | [] => [(k, v)]
  | (k', v') :: rest => if k' = k then (k, v) :: rest else (k', v') :: assocSet k v rest

theorem keys_assocSet (k : κ) (v : ν) (l : List (κ × ν)) :
    (assocSet k v l).map Prod.fst =
      if k ∈ l.map Prod.fst then l.map Prod.fst else l.map Prod.fst ++ [k] := by
  induction l with
  | nil => simp [assocSet]
  | cons p rest ih =>
    obtain ⟨k', v'⟩ := p
    by_cases hk : k' = k
    · simp [assocSet, hk]
    · have hne : k ≠ k' := fun h => hk h.symm
      simp only [assocSet, hk, if_false, List.map_cons, ih, List.mem_cons, hne, false_or]
      split_ifs <;> simp

theorem assocSet_of_notMem {k : κ} (v : ν) (l : List (κ × ν)) (h : k ∉ l.map Prod.fst) :
    assocSet k v l = l ++ [(k, v)] := by
  induction l with
  | nil => rfl
  | cons p rest ih =>
    obtain ⟨k', v'⟩ := p
    rw [List.map_cons, List.mem_cons, not_or] at h
    rw [assocSet, if_neg (Ne.symm h.1), ih h.2, List.cons_append]

theorem assocGet_assocSet (k j : κ) (v : ν) (l : List (κ × ν)) :
    assocGet j (assocSet k v l) = if k = j then some v else assocGet j l := by
  induction l with
  | nil => simp [assocSet, assocGet]
  | cons p rest ih =>
    obtain ⟨k', v'⟩ := p
    by_cases hk : k' = k
    · subst hk
      by_cases hj : k' = j <;> simp [assocSet, assocGet, hj]
    · by_cases hj : k' = j
      · subst hj
        simp [assocSet, assocGet, hk, Ne.symm hk]
      · simp [assocSet, assocGet, hk, hj, ih]

theorem assocGet_filter (p : κ → Bool) (k : κ) (l : List (κ × ν)) :
    assocGet k (l.filter fun e => p e.1) = if p k then assocGet k l else none := by
  induction l with
  | nil => simp [assocGet]
  | cons e rest ih =>
    obtain ⟨k', v'⟩ := e
    by_cases hk : k' = k
    · subst hk
      by_cases hp : p k' <;> simp [assocGet, hp, ih]
    · by_cases hp : p k' <;> simp [assocGet, hp, hk, ih]

theorem assocGet_eq_none (k : κ) (l : List (κ × ν)) :
    assocGet k l = none ↔ k ∉ l.map Prod.fst := by
  induction l with
  | nil => simp [assocGet]
  | cons e rest ih =>
    obtain ⟨k', v'⟩ := e
    by_cases hk : k' = k
    · simp [assocGet, hk]
    · have hne : k ≠ k' := fun h => hk h.symm
      simp only [assocGet, hk, if_false, List.map_cons, List.mem_cons, hne, false_or, ih]

theorem assocGet_eq_some (k : κ) (v : ν) (l : List (κ × ν)) (hl : (l.map Prod.fst).Nodup) :
    assocGet k l = some v ↔ (k, v) ∈ l := by
  induction l with
  | nil => simp [assocGet]
  | cons e rest ih =>
    obtain ⟨k', v'⟩ := e
    simp only [List.map_cons, List.nodup_cons] at hl
    by_cases hk : k' = k
    · subst hk
      have hnot : (k', v) ∉ rest := fun h => hl.1 (List.mem_map.mpr ⟨_, h, rfl⟩)
      simp [assocGet, hnot, eq_comm]
    · have hne : k ≠ k' := fun h => hk h.symm
      simp [assocGet, hk, hne, ih hl.2]

end Assoc

/-! ### Operations -/

section Operations

variable [DecidableEq κ]

def get? (d : Dict κ ν) (k : κ) : Option ν := assocGet k d.entries

def set (d : Dict κ ν) (k : κ) (v : ν) : Dict κ ν where
  entries := assocSet k v d.entries
  nodup := by
    rw [keys_assocSet]
    split_ifs with h
    · exact d.nodup
    · exact List.nodup_append.mpr ⟨d.nodup, List.nodup_singleton k, by
        intro a ha b hb hab
        simp only [List.mem_singleton] at hb
        exact h (hb ▸ hab ▸ ha)⟩

/-- Keep the entries whose key satisfies `p`, as a comprehension over the items does. -/
def filterKeys (d : Dict κ ν) (p : κ → Bool) : Dict κ ν where
  entries := d.entries.filter fun e => p e.1
  nodup := d.nodup.sublist (List.filter_sublist.map _)

def erase (d : Dict κ ν) (k : κ) : Dict κ ν := d.filterKeys fun j => !decide (j = k)

def map (d : Dict κ ν) (f : κ → ν → μ) : Dict κ μ where
  entries := d.entries.map fun e => (e.1, f e.1 e.2)
  nodup := by simpa [Function.comp_def] using d.nodup

/-- Build a dictionary from pairs in order; a later pair overwrites an earlier one. -/
def ofList (l : List (κ × ν)) : Dict κ ν := l.foldl (fun d e => d.set e.1 e.2) empty

def contains (d : Dict κ ν) (k : κ) : Bool := (d.get? k).isSome

/-- Equality of dictionaries as finite maps, whatever the order of their entries. -/
def sameItems [DecidableEq ν] (d e : Dict κ ν) : Bool :=
  d.keys.all (fun k => decide (d.get? k = e.get? k)) && e.keys.all (fun k => d.contains k)

@[simp] theorem get?_empty (k : κ) : (empty : Dict κ ν).get? k = none := rfl

theorem get?_set (d : Dict κ ν) (k j : κ) (v : ν) :
    (d.set k v).get? j = if k = j then some v else d.get? j :=
  assocGet_assocSet k j v d.entries

@[simp] theorem get?_set_self (d : Dict κ ν) (k : κ) (v : ν) : (d.set k v).get? k = some v := by
  simp [get?_set]

theorem get?_set_ne (d : Dict κ ν) {k j : κ} (v : ν) (h : k ≠ j) :
    (d.set k v).get? j = d.get? j := by
  simp [get?_set, h]

omit [DecidableEq κ] in
theorem keys_map (d : Dict κ ν) (f : κ → ν → μ) : (d.map f).keys = d.keys := by
  simp [map, keys, Function.comp_def]

theorem get?_map (d : Dict κ ν) (f : κ → ν → μ) (k : κ) :
    (d.map f).get? k = (d.get? k).map (f k) := by
  have h : ∀ l : List (κ × ν), assocGet k (l.map fun e => (e.1, f e.1 e.2)) =
      (assocGet k l).map (f k) := by
    intro l
    induction l with
    | nil => rfl
    | cons p rest ih =>
      by_cases hk : p.1 = k
      · simp [assocGet, hk]
      · simp [assocGet, hk, ih]
  exact h d.entries

theorem map_set (d : Dict κ ν) (f : κ → ν → μ) (k : κ) (v : ν) :
    (d.set k v).map f = (d.map f).set k (f k v) := by
  have h : ∀ l : List (κ × ν), (assocSet k v l).map (fun e => (e.1, f e.1 e.2)) =
      assocSet k (f k v) (l.map fun e => (e.1, f e.1 e.2)) := by
    intro l
    induction l with
    | nil => rfl
    | cons p rest ih =>
      by_cases hk : p.1 = k
      · simp [assocSet, hk]
      · simp [assocSet, hk, ih]
  exact ext (h d.entries)

theorem set_set (d : Dict κ ν) (k : κ) (v w : ν) : (d.set k v).set k w = d.set k w := by
  have h : ∀ l : List (κ × ν), assocSet k w (assocSet k v l) = assocSet k w l := by
    intro l
    induction l with
    | nil => simp [assocSet]
    | cons p rest ih =>
      by_cases hk : p.1 = k
      · simp [assocSet, hk]
      · simp [assocSet, hk, ih]
  exact ext (h d.entries)

theorem set_eq_self {d : Dict κ ν} {k : κ} {v : ν} (h : d.get? k = some v) : d.set k v = d := by
  have hl : ∀ l : List (κ × ν), assocGet k l = some v → assocSet k v l = l := by
    intro l
    induction l with
    | nil => simp [assocGet]
    | cons p rest ih =>
      obtain ⟨k', v'⟩ := p
      by_cases hk : k' = k
      · intro h
        simp only [assocGet, hk, if_true, Option.some.injEq] at h
        simp [assocSet, hk, h]
      · intro h
        simp only [assocGet, hk, if_false] at h
        simp [assocSet, hk, ih h]
  exact ext (hl d.entries h)

theorem get?_filterKeys (d : Dict κ ν) (p : κ → Bool) (k : κ) :
    (d.filterKeys p).get? k = if p k then d.get? k else none :=
  assocGet_filter p k d.entries

theorem get?_erase (d : Dict κ ν) (k j : κ) :
    (d.erase k).get? j = if j = k then none else d.get? j := by
  by_cases h : j = k <;> simp [erase, get?_filterKeys, h]

@[simp] theorem get?_erase_self (d : Dict κ ν) (k : κ) : (d.erase k).get? k = none := by
  simp [get?_erase]

theorem get?_eq_none {d : Dict κ ν} {k : κ} : d.get? k = none ↔ k ∉ d.keys :=
  assocGet_eq_none k d.entries

theorem get?_eq_some {d : Dict κ ν} {k : κ} {v : ν} : d.get? k = some v ↔ (k, v) ∈ d.entries :=
  assocGet_eq_some k v d.entries d.nodup

theorem mem_keys_iff {d : Dict κ ν} {k : κ} : k ∈ d.keys ↔ ∃ v, d.get? k = some v := by
  rw [← not_iff_not, ← get?_eq_none]
  cases d.get? k <;> simp

theorem contains_iff {d : Dict κ ν} {k : κ} : d.contains k = true ↔ k ∈ d.keys := by
  rw [contains, Option.isSome_iff_exists, mem_keys_iff]

theorem contains_of_keys_eq {d : Dict κ ν} {e : Dict κ μ} (h : d.keys = e.keys) (k : κ) :
    d.contains k = e.contains k := by
  rw [Bool.eq_iff_iff, contains_iff, contains_iff, h]

theorem keys_set (d : Dict κ ν) (k : κ) (v : ν) :
    (d.set k v).keys = if k ∈ d.keys then d.keys else d.keys ++ [k] :=
  keys_assocSet k v d.entries

theorem entries_set_of_notMem {d : Dict κ ν} {k : κ} (v : ν) (h : k ∉ d.keys) :
    (d.set k v).entries = d.entries ++ [(k, v)] :=
  assocSet_of_notMem v d.entries h

theorem keys_set_of_mem {d : Dict κ ν} {k : κ} (v : ν) (h : k ∈ d.keys) :
    (d.set k v).keys = d.keys := by
  rw [keys_set, if_pos h]

theorem mem_keys_set {d : Dict κ ν} {k j : κ} {v : ν} :
    j ∈ (d.set k v).keys ↔ j = k ∨ j ∈ d.keys := by
  rw [keys_set]
  split_ifs with h
  · constructor
    · exact Or.inr
    · rintro (rfl | hj)
      · exact h
      · exact hj
  · simp [or_comm]

theorem mem_keys_filterKeys {d : Dict κ ν} {p : κ → Bool} {k : κ} :
    k ∈ (d.filterKeys p).keys ↔ k ∈ d.keys ∧ p k = true := by
  simp only [mem_keys_iff, get?_filterKeys]
  by_cases hp : p k <;> simp [hp]

theorem get?_foldl_set {l : List (κ × ν)} {d : Dict κ ν} {k : κ} {v : ν}
    (h : (l.foldl (fun d e => d.set e.1 e.2) d).get? k = some v) :
    (k, v) ∈ l ∨ d.get? k = some v := by
  induction l generalizing d with
  | nil => exact Or.inr h
  | cons e rest ih =>
    rcases ih h with h | h
    · exact Or.inl (List.mem_cons_of_mem _ h)
    · rw [get?_set] at h
      split_ifs at h with hk
      · cases h
        exact Or.inl (by simp [← hk])
      · exact Or.inr h

theorem ofList_concat (l : List (κ × ν)) (k : κ) (v : ν) :
    ofList (l ++ [(k, v)]) = (ofList l).set k v := by
  simp [ofList]

theorem mem_of_get?_ofList {l : List (κ × ν)} {k : κ} {v : ν}
    (h : (ofList l).get? k = some v) : (k, v) ∈ l :=
  (get?_foldl_set h).resolve_right (by simp)

theorem get?_foldl_set_of_notMem {l : List (κ × ν)} {d : Dict κ ν} {k : κ}
    (h : k ∉ l.map Prod.fst) : (l.foldl (fun d e => d.set e.1 e.2) d).get? k = d.get? k := by
  induction l generalizing d with
  | nil => rfl
  | cons e rest ih =>
    simp only [List.map_cons, List.mem_cons, not_or] at h
    rw [List.foldl_cons, ih h.2, get?_set_ne d e.2 (Ne.symm h.1)]

theorem get?_ofList_of_mem {l : List (κ × ν)} (hl : (l.map Prod.fst).Nodup) {k : κ} {v : ν}
    (h : (k, v) ∈ l) : (ofList l).get? k = some v := by
  have hgen : ∀ d : Dict κ ν, (l.foldl (fun d e => d.set e.1 e.2) d).get? k = some v := by
    induction l with
    | nil => simp at h
    | cons e rest ih =>
      intro d
      simp only [List.map_cons, List.nodup_cons] at hl
      rcases List.mem_cons.mp h with rfl | h
      · rw [List.foldl_cons, get?_foldl_set_of_notMem hl.1, get?_set_self]
      · exact ih hl.2 h _
  exact hgen empty

theorem entries_ofList {l : List (κ × ν)} (hl : (l.map Prod.fst).Nodup) :
    (ofList l).entries = l := by
  induction l using List.reverseRecOn with
  | nil => rfl
  | append_singleton l e ih =>
    rw [List.map_append, List.nodup_append] at hl
    obtain ⟨hl, -, hdisjoint⟩ := hl
    have hnotMem : e.1 ∉ (ofList l).keys := by
      intro hmem
      rw [keys, ih hl] at hmem
      exact hdisjoint e.1 hmem e.1 (List.mem_singleton_self _) rfl
    rw [ofList_concat, entries_set_of_notMem e.2 hnotMem, ih hl]

theorem mem_keys_ofList {l : List (κ × ν)} {k : κ} : k ∈ (ofList l).keys ↔ k ∈ l.map Prod.fst := by
  induction l using List.reverseRecOn with
  | nil => rfl
  | append_singleton l e ih =>
    rw [ofList_concat, mem_keys_set, ih, List.map_append, List.mem_append, List.map_singleton,
      List.mem_singleton, or_comm]

theorem sameItems_iff [DecidableEq ν] {d e : Dict κ ν} :
    d.sameItems e = true ↔ ∀ k, d.get? k = e.get? k := by
  simp only [sameItems, Bool.and_eq_true, List.all_eq_true, decide_eq_true_eq, contains_iff]
  constructor
  · rintro ⟨hd, he⟩ k
    by_cases hk : k ∈ d.keys
    · exact hd k hk
    · have hke : k ∉ e.keys := fun h => hk (he k h)
      rw [get?_eq_none.mpr hk, get?_eq_none.mpr hke]
  · intro h
    refine ⟨fun k _ => h k, fun k hk => ?_⟩
    obtain ⟨v, hv⟩ := mem_keys_iff.mp hk
    exact mem_keys_iff.mpr ⟨v, (h k).trans hv⟩

theorem mem_keys_of_sameItems [DecidableEq ν] {d e : Dict κ ν} (h : d.sameItems e = true)
    {k : κ} : k ∈ d.keys ↔ k ∈ e.keys := by
  simp only [mem_keys_iff, sameItems_iff.mp h]

end Operations

end Dict
