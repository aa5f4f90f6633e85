import Mathlib.Data.List.Induction
import Mathlib.Logic.Function.Basic

/-!
# Keyed tables and replicas fed with row images

A table holds at most one row under each key, and an edit inserts, updates or deletes a row. A
replica receives one image of each edit, the new row or the deleted one, and puts it or removes
its key. So an update that moves a row to another key leaves the old row in the replica, until
an image with the old key arrives. `mirrors_writeAll_iff` is the exact condition under which the
replica shows the table, when the rows arrive in another form and under keys of their own.
-/

/-- A table of rows with the key `key`; no row stands under another key than its own. -/
structure Keyed {κ ν : Type*} (key : ν → κ) where
  get : κ → Option ν
  keyed : ∀ k v, get k = some v → key v = k

inductive Edit (ν : Type*)
  | insert (v : ν)
  | update (u v : ν)
  | delete (u : ν)

namespace Edit

variable {ν ν' : Type*}

/-- The one row of an edit that a replica receives. -/
def image : Edit ν → ν
  | .insert v => v
  | .update _ v => v
  | .delete u => u

def rows : Edit ν → List ν
  | .insert v => [v]
  | .update u v => [u, v]
  | .delete u => [u]

def map (f : ν → ν') : Edit ν → Edit ν'
  | .insert v => .insert (f v)
  | .update u v => .update (f u) (f v)
  | .delete u => .delete (f u)

theorem image_mem_rows (e : Edit ν) : e.image ∈ e.rows := by
  cases e <;> simp [image, rows]

@[simp] theorem image_map (f : ν → ν') (e : Edit ν) : (e.map f).image = f e.image := by
  cases e <;> rfl

@[simp] theorem rows_map (f : ν → ν') (e : Edit ν) : (e.map f).rows = e.rows.map f := by
  cases e <;> rfl

/-- The edit takes a row away from the key `k`, to another one. -/
def MovesFrom {κ : Type*} (key : ν → κ) (k : κ) (e : Edit ν) : Prop :=
  ∃ u v, e = .update u v ∧ key u = k ∧ key v ≠ k

end Edit

namespace Keyed

variable {κ ν : Type*} {key : ν → κ}

@[ext] theorem ext {t r : Keyed key} (h : ∀ k, t.get k = r.get k) : t = r := by
  cases t
  cases r
  simpa using funext h

def Holds (t : Keyed key) (v : ν) : Prop := t.get (key v) = some v

theorem get_eq_some {t : Keyed key} {k : κ} {v : ν} :
    t.get k = some v ↔ t.Holds v ∧ key v = k := by
  constructor
  · intro h
    have hk := t.keyed k v h
    exact ⟨by rw [Holds, hk, h], hk⟩
  · intro ⟨h, hk⟩
    rw [← hk]
    exact h

theorem get_eq_none {t : Keyed key} {k : κ} :
    t.get k = none ↔ ∀ v, t.Holds v → key v ≠ k := by
  rw [Option.eq_none_iff_forall_ne_some]
  apply forall_congr'
  intro v
  rw [ne_eq, get_eq_some, not_and]

theorem eq_of_holds {t r : Keyed key} (h : ∀ v, t.Holds v ↔ r.Holds v) : t = r := by
  apply ext
  intro k
  apply Option.ext
  intro v
  rw [get_eq_some, get_eq_some, h]

def empty : Keyed key := ⟨fun _ => none, by simp⟩

@[simp] theorem not_holds_empty (v : ν) : ¬ (empty : Keyed key).Holds v := by
  simp [Holds, empty]

variable [DecidableEq κ]

/-! ### Edits -/

def put (t : Keyed key) (v : ν) : Keyed key where
  get := Function.update t.get (key v) (some v)
  keyed k w h := by
    by_cases hk : k = key v
    · rw [hk, Function.update_self] at h
      rw [hk, Option.some.inj h]
    · rw [Function.update_of_ne hk] at h
      exact t.keyed k w h

/-- Remove the row with the key of `u`. -/
def remove (t : Keyed key) (u : ν) : Keyed key where
  get := Function.update t.get (key u) none
  keyed k w h := by
    by_cases hk : k = key u
    · rw [hk, Function.update_self] at h
      cases h
    · rw [Function.update_of_ne hk] at h
      exact t.keyed k w h

@[simp] theorem get_put_self (t : Keyed key) (v : ν) : (t.put v).get (key v) = some v :=
  Function.update_self ..

theorem get_put_of_ne (t : Keyed key) {v : ν} {k : κ} (h : k ≠ key v) :
    (t.put v).get k = t.get k :=
  Function.update_of_ne h ..

@[simp] theorem get_remove_self (t : Keyed key) (u : ν) : (t.remove u).get (key u) = none :=
  Function.update_self ..

theorem get_remove_of_ne (t : Keyed key) {u : ν} {k : κ} (h : k ≠ key u) :
    (t.remove u).get k = t.get k :=
  Function.update_of_ne h ..

theorem holds_put {t : Keyed key} {v w : ν} :
    (t.put v).Holds w ↔ w = v ∨ t.Holds w ∧ key w ≠ key v := by
  by_cases hk : key w = key v
  · rw [Holds, hk, get_put_self, Option.some.injEq]
    grind
  · rw [Holds, get_put_of_ne t hk, Holds]
    grind

theorem holds_remove {t : Keyed key} {u w : ν} :
    (t.remove u).Holds w ↔ t.Holds w ∧ key w ≠ key u := by
  by_cases hk : key w = key u
  · rw [Holds, hk, get_remove_self]
    simp
  · rw [Holds, get_remove_of_ne t hk, Holds]
    simp [hk]

theorem remove_congr (t : Keyed key) {u v : ν} (h : key u = key v) : t.remove u = t.remove v := by
  have hget : (t.remove u).get = (t.remove v).get := congrArg (Function.update t.get · none) h
  exact ext fun k => congrFun hget k

def apply (t : Keyed key) : Edit ν → Keyed key
  | .insert v => t.put v
  | .update u v => (t.remove u).put v
  | .delete u => t.remove u

/-- What a replica does with the image of an edit. -/
def write (t : Keyed key) : Edit ν → Keyed key
  | .insert v => t.put v
  | .update _ v => t.put v
  | .delete u => t.remove u

def applyAll (t : Keyed key) (es : List (Edit ν)) : Keyed key := es.foldl apply t

def writeAll (t : Keyed key) (es : List (Edit ν)) : Keyed key := es.foldl write t

@[simp] theorem applyAll_nil (t : Keyed key) : t.applyAll [] = t := rfl

@[simp] theorem writeAll_nil (t : Keyed key) : t.writeAll [] = t := rfl

@[simp] theorem applyAll_concat (t : Keyed key) (es : List (Edit ν)) (e : Edit ν) :
    t.applyAll (es ++ [e]) = (t.applyAll es).apply e := by
  simp [applyAll]

@[simp] theorem writeAll_concat (t : Keyed key) (es : List (Edit ν)) (e : Edit ν) :
    t.writeAll (es ++ [e]) = (t.writeAll es).write e := by
  simp [writeAll]

theorem writeAll_append (t : Keyed key) (es es' : List (Edit ν)) :
    t.writeAll (es ++ es') = (t.writeAll es).writeAll es' :=
  List.foldl_append

/-- The edit is legal for the table. -/
def Permits (t : Keyed key) : Edit ν → Prop
  | .insert v => t.get (key v) = none
  | .update u v => t.Holds u ∧ (key v = key u ∨ t.get (key v) = none)
  | .delete u => t.Holds u

def Legal (t : Keyed key) (es : List (Edit ν)) : Prop :=
  ∀ a e b, es = a ++ e :: b → (t.applyAll a).Permits e

theorem legal_cons {t : Keyed key} {e : Edit ν} {es : List (Edit ν)} :
    t.Legal (e :: es) ↔ t.Permits e ∧ (t.apply e).Legal es := by
  constructor
  · intro h
    refine ⟨h [] e es rfl, ?_⟩
    intro a e' b hes
    exact h (e :: a) e' b (by rw [hes]; rfl)
  · intro ⟨hpermits, hlegal⟩ a e' b hes
    cases a with
    | nil =>
      obtain ⟨rfl, -⟩ := List.cons.inj hes
      exact hpermits
    | cons x a =>
      obtain ⟨rfl, hrest⟩ := List.cons.inj hes
      exact hlegal a e' b hrest

@[simp] theorem legal_nil (t : Keyed key) : t.Legal [] := by
  intro a e b h
  simp at h

theorem Legal.concat {t : Keyed key} {es : List (Edit ν)} {e : Edit ν} (h : t.Legal (es ++ [e])) :
    t.Legal es ∧ (t.applyAll es).Permits e := by
  refine ⟨?_, h es e [] rfl⟩
  intro a e' b hes
  apply h a e' (b ++ [e])
  rw [hes, List.append_assoc, List.cons_append]

/-! ### What a replica keeps -/

/-- A row was moved away from the key `k`, and no image with that key came later. -/
def LeftBehind (key : ν → κ) (k : κ) (es : List (Edit ν)) : Prop :=
  ∃ a e b, es = a ++ e :: b ∧ e.MovesFrom key k ∧ ∀ e' ∈ b, key e'.image ≠ k

omit [DecidableEq κ] in
theorem LeftBehind.row {k : κ} {es : List (Edit ν)} (h : LeftBehind key k es) :
    ∃ e ∈ es, ∃ u ∈ e.rows, key u = k := by
  obtain ⟨a, e, b, rfl, ⟨u, v, rfl, hu, _⟩, _⟩ := h
  exact ⟨.update u v, by simp, u, by simp [Edit.rows], hu⟩

omit [DecidableEq κ] in
theorem leftBehind_concat {k : κ} {es : List (Edit ν)} {e : Edit ν} :
    LeftBehind key k (es ++ [e]) ↔
      e.MovesFrom key k ∨ LeftBehind key k es ∧ key e.image ≠ k := by
  constructor
  · intro ⟨a, e', b, hes, hmoves, hlater⟩
    rcases List.eq_nil_or_concat b with rfl | ⟨b', e'', rfl⟩
    · obtain ⟨-, he⟩ := List.append_inj' hes rfl
      rw [List.cons.injEq] at he
      rw [he.1]
      exact .inl hmoves
    · rw [List.concat_eq_append, ← List.cons_append, ← List.append_assoc] at hes
      obtain ⟨hes', he⟩ := List.append_inj' hes rfl
      rw [List.cons.injEq] at he
      refine .inr ⟨⟨a, e', b', hes', hmoves, ?_⟩, ?_⟩
      · intro x hx
        apply hlater
        simp [hx]
      · rw [he.1]
        apply hlater
        simp
  · intro h
    rcases h with hmoves | ⟨⟨a, e', b, rfl, hmoves, hlater⟩, hne⟩
    · exact ⟨es, e, [], rfl, hmoves, by simp⟩
    · refine ⟨a, e', b ++ [e], by simp, hmoves, ?_⟩
      intro x hx
      rcases List.mem_append.mp hx with hx | hx
      · exact hlater x hx
      · rw [List.mem_singleton.mp hx]
        exact hne

theorem get_apply_image (t r : Keyed key) (e : Edit ν) :
    (r.write e).get (key e.image) = (t.apply e).get (key e.image) := by
  cases e <;> simp [apply, write, Edit.image]

theorem get_write_of_ne (t : Keyed key) {e : Edit ν} {k : κ} (h : k ≠ key e.image) :
    (t.write e).get k = t.get k := by
  cases e with
  | insert v => exact get_put_of_ne t h
  | update u v => exact get_put_of_ne t h
  | delete u => exact get_remove_of_ne t h

theorem get_apply_of_ne (t : Keyed key) {e : Edit ν} {k : κ} (h : k ≠ key e.image)
    (hmoves : ¬ e.MovesFrom key k) : (t.apply e).get k = t.get k := by
  cases e with
  | insert v => exact get_put_of_ne t h
  | update u v =>
    have hu : k ≠ key u := by
      intro hk
      exact hmoves ⟨u, v, rfl, hk.symm, fun hv => h hv.symm⟩
    have hv : k ≠ key v := h
    rw [apply, get_put_of_ne _ hv, get_remove_of_ne t hu]
  | delete u => exact get_remove_of_ne t h

theorem get_of_movesFrom {t : Keyed key} {e : Edit ν} {k : κ} (hmoves : e.MovesFrom key k)
    (h : t.Permits e) : t.get k ≠ none ∧ (t.apply e).get k = none := by
  obtain ⟨u, v, rfl, rfl, hv⟩ := hmoves
  constructor
  · rw [h.1]
    simp
  · rw [apply, get_put_of_ne _ hv.symm, get_remove_self]

/-- Under a key that is left behind the replica keeps a row that the table has not; under any
other key the two agree. -/
theorem writeAll_get {t : Keyed key} {es : List (Edit ν)} (h : t.Legal es) (k : κ) :
    (LeftBehind key k es → (t.applyAll es).get k = none ∧ (t.writeAll es).get k ≠ none) ∧
      (¬ LeftBehind key k es → (t.writeAll es).get k = (t.applyAll es).get k) := by
  induction es using List.reverseRecOn with
  | nil =>
    refine ⟨?_, fun _ => rfl⟩
    intro ⟨a, e, b, hes, _⟩
    simp at hes
  | append_singleton es e ih =>
    obtain ⟨hlegal, hpermits⟩ := h.concat
    obtain ⟨hleft, hkept⟩ := ih hlegal
    rw [leftBehind_concat, applyAll_concat, writeAll_concat]
    by_cases hk : k = key e.image
    · -- the image of the edit decides what both show under the key
      subst hk
      have hmoves : ¬ e.MovesFrom key (key e.image) := by
        intro ⟨u, v, he, _, hv⟩
        rw [he] at hv
        exact hv rfl
      simp [hmoves, get_apply_image (t.applyAll es)]
    · by_cases hmoves : e.MovesFrom key k
      · obtain ⟨hstood, hfree⟩ := get_of_movesFrom hmoves hpermits
        have hnot : ¬ LeftBehind key k es := fun hl => hstood (hleft hl).1
        refine ⟨fun _ => ⟨hfree, ?_⟩, fun hl => absurd (.inl hmoves) hl⟩
        rw [get_write_of_ne _ hk, hkept hnot]
        exact hstood
      · rw [get_apply_of_ne _ hk hmoves, get_write_of_ne _ hk]
        simp only [hmoves, false_or, and_iff_left (Ne.symm hk)]
        exact ⟨hleft, hkept⟩

/-- A replica that has started with the table is the table exactly when no key is left behind. -/
theorem writeAll_eq_applyAll_iff {t : Keyed key} {es : List (Edit ν)} (h : t.Legal es) :
    t.writeAll es = t.applyAll es ↔ ∀ k, ¬ LeftBehind key k es := by
  constructor
  · intro heq k hl
    obtain ⟨hnone, hsome⟩ := (writeAll_get h k).1 hl
    rw [heq] at hsome
    exact hsome hnone
  · intro hnone
    apply ext
    intro k
    exact (writeAll_get h k).2 (hnone k)

/-! ### Rows in another form -/

variable {κ' ν' : Type*} {key' : ν' → κ'} {f : ν → ν'}

/-- The rows of `r` are the forms of the rows of `t`. -/
def Mirrors (f : ν → ν') (t : Keyed key) (r : Keyed key') : Prop :=
  ∀ w, r.Holds w ↔ ∃ v, t.Holds v ∧ f v = w

/-- The row stands in the table at first, or an edit mentions it. -/
def Occurs (t : Keyed key) (es : List (Edit ν)) (v : ν) : Prop :=
  t.Holds v ∨ ∃ e ∈ es, v ∈ e.rows

/-- Two rows have one key exactly when their forms have. -/
def Apart (key : ν → κ) (key' : ν' → κ') (f : ν → ν') (S : ν → Prop) : Prop :=
  ∀ u v, S u → S v → (key' (f u) = key' (f v) ↔ key u = key v)

omit [DecidableEq κ] in
theorem Mirrors.unique {t : Keyed key} {r r' : Keyed key'} (h : Mirrors f t r)
    (h' : Mirrors f t r') : r = r' := by
  apply eq_of_holds
  intro w
  rw [h w, h' w]

omit [DecidableEq κ] in
theorem mirrors_empty : Mirrors f (empty : Keyed key) (empty : Keyed key') := by
  intro w
  simp

omit [DecidableEq κ] in
theorem Occurs.concat {t : Keyed key} {es : List (Edit ν)} {v : ν} (h : t.Occurs es v)
    (e : Edit ν) : t.Occurs (es ++ [e]) v := by
  rcases h with h | ⟨e', he', hv⟩
  · exact .inl h
  · exact .inr ⟨e', List.mem_append_left _ he', hv⟩

omit [DecidableEq κ] in
theorem Occurs.last {t : Keyed key} {es : List (Edit ν)} {e : Edit ν} {v : ν} (h : v ∈ e.rows) :
    t.Occurs (es ++ [e]) v :=
  .inr ⟨e, by simp, h⟩

theorem holds_apply {t : Keyed key} {e : Edit ν} {v : ν} (h : (t.apply e).Holds v) :
    v = e.image ∨ t.Holds v := by
  cases e with
  | insert w =>
    rcases holds_put.mp h with rfl | ⟨h, -⟩
    · exact .inl rfl
    · exact .inr h
  | update u w =>
    rcases holds_put.mp h with rfl | ⟨h, -⟩
    · exact .inl rfl
    · exact .inr (holds_remove.mp h).1
  | delete u => exact .inr (holds_remove.mp h).1

theorem occurs_of_holds_applyAll {t : Keyed key} {es : List (Edit ν)} {v : ν}
    (h : (t.applyAll es).Holds v) : t.Occurs es v := by
  induction es using List.reverseRecOn with
  | nil => exact .inl h
  | append_singleton es e ih =>
    rw [applyAll_concat] at h
    rcases holds_apply h with rfl | h
    · exact .last e.image_mem_rows
    · exact (ih h).concat e

variable [DecidableEq κ']

theorem Mirrors.put {t : Keyed key} {r : Keyed key'} {S : ν → Prop} (h : Mirrors f t r)
    (hapart : Apart key key' f S) (ht : ∀ u, t.Holds u → S u) {v : ν} (hv : S v) :
    Mirrors f (t.put v) (r.put (f v)) := by
  intro w
  rw [holds_put, h w]
  constructor
  · intro hw
    rcases hw with rfl | ⟨⟨u, hu, rfl⟩, hne⟩
    · exact ⟨v, holds_put.mpr (.inl rfl), rfl⟩
    · rw [ne_eq, hapart u v (ht u hu) hv] at hne
      exact ⟨u, holds_put.mpr (.inr ⟨hu, hne⟩), rfl⟩
  · intro ⟨u, hu, hw⟩
    rcases holds_put.mp hu with rfl | ⟨hu, hne⟩
    · exact .inl hw.symm
    · rw [ne_eq, ← hapart u v (ht u hu) hv, hw] at hne
      exact .inr ⟨⟨u, hu, hw⟩, hne⟩

theorem Mirrors.remove {t : Keyed key} {r : Keyed key'} {S : ν → Prop} (h : Mirrors f t r)
    (hapart : Apart key key' f S) (ht : ∀ u, t.Holds u → S u) {v : ν} (hv : S v) :
    Mirrors f (t.remove v) (r.remove (f v)) := by
  intro w
  rw [holds_remove, h w]
  constructor
  · intro ⟨⟨u, hu, hw⟩, hne⟩
    rw [← hw, ne_eq, hapart u v (ht u hu) hv] at hne
    exact ⟨u, holds_remove.mpr ⟨hu, hne⟩, hw⟩
  · intro ⟨u, hu, hw⟩
    obtain ⟨hu, hne⟩ := holds_remove.mp hu
    rw [ne_eq, ← hapart u v (ht u hu) hv, hw] at hne
    exact ⟨⟨u, hu, hw⟩, hne⟩

theorem Mirrors.apply {t : Keyed key} {r : Keyed key'} {S : ν → Prop} (h : Mirrors f t r)
    (hapart : Apart key key' f S) (ht : ∀ u, t.Holds u → S u) {e : Edit ν}
    (he : ∀ u ∈ e.rows, S u) : Mirrors f (t.apply e) (r.apply (e.map f)) := by
  cases e with
  | insert v => exact h.put hapart ht (he v (by simp [Edit.rows]))
  | update u v =>
    have hu := h.remove hapart ht (he u (by simp [Edit.rows]))
    apply hu.put hapart _ (he v (by simp [Edit.rows]))
    intro x hx
    exact ht x (holds_remove.mp hx).1
  | delete u => exact h.remove hapart ht (he u (by simp [Edit.rows]))

theorem Mirrors.applyAll {t : Keyed key} {r : Keyed key'} {S : ν → Prop} (h : Mirrors f t r)
    (hapart : Apart key key' f S) {es : List (Edit ν)} (hS : ∀ v, t.Occurs es v → S v) :
    Mirrors f (t.applyAll es) (r.applyAll (es.map (Edit.map f))) := by
  induction es using List.reverseRecOn with
  | nil => exact h
  | append_singleton es e ih =>
    rw [List.map_append, List.map_singleton, applyAll_concat, applyAll_concat]
    apply (ih fun v hv => hS v (hv.concat e)).apply hapart
    · intro u hu
      exact hS u ((occurs_of_holds_applyAll hu).concat e)
    · intro u hu
      exact hS u (.last hu)

omit [DecidableEq κ] [DecidableEq κ'] in
theorem Permits.map {t : Keyed key} {r : Keyed key'} {S : ν → Prop} (h : Mirrors f t r)
    (hapart : Apart key key' f S) (ht : ∀ u, t.Holds u → S u) {e : Edit ν}
    (he : ∀ u ∈ e.rows, S u) (hpermits : t.Permits e) : r.Permits (e.map f) := by
  have hholds : ∀ u, t.Holds u → r.Holds (f u) := fun u hu => (h (f u)).mpr ⟨u, hu, rfl⟩
  have hfree : ∀ v, S v → t.get (key v) = none → r.get (key' (f v)) = none := by
    intro v hv hnone
    rw [get_eq_none] at hnone ⊢
    intro w hw hk
    obtain ⟨u, hu, rfl⟩ := (h w).mp hw
    exact hnone u hu ((hapart u v (ht u hu) hv).mp hk)
  cases e with
  | insert v => exact hfree v (he v (by simp [Edit.rows])) hpermits
  | update u v =>
    have hu : S u := he u (by simp [Edit.rows])
    have hv : S v := he v (by simp [Edit.rows])
    exact ⟨hholds u hpermits.1, hpermits.2.imp (hapart v u hv hu).mpr (hfree v hv)⟩
  | delete u => exact hholds u hpermits

theorem Legal.map {t : Keyed key} {r : Keyed key'} {S : ν → Prop} (h : Mirrors f t r)
    (hapart : Apart key key' f S) {es : List (Edit ν)} (hS : ∀ v, t.Occurs es v → S v)
    (hlegal : t.Legal es) : r.Legal (es.map (Edit.map f)) := by
  intro a e b hes
  obtain ⟨a, c, rfl, rfl, hc⟩ := List.map_eq_append_iff.mp hes
  obtain ⟨e, b, rfl, rfl, rfl⟩ := List.map_eq_cons_iff.mp hc
  have hprefix : ∀ v, t.Occurs a v → S v := by
    intro v hv
    apply hS v
    rcases hv with hv | ⟨e', he', hv⟩
    · exact .inl hv
    · exact .inr ⟨e', List.mem_append_left _ he', hv⟩
  apply (hlegal a e b rfl).map (h.applyAll hapart hprefix) hapart
  · intro u hu
    exact hprefix u (occurs_of_holds_applyAll hu)
  · intro u hu
    exact hS u (.inr ⟨e, by simp, hu⟩)

omit [DecidableEq κ] [DecidableEq κ'] in
theorem movesFrom_map {S : ν → Prop} (hapart : Apart key key' f S) {e : Edit ν}
    (he : ∀ u ∈ e.rows, S u) {w : ν} (hw : S w) :
    (e.map f).MovesFrom key' (key' (f w)) ↔ e.MovesFrom key (key w) := by
  constructor
  · intro ⟨u', v', heq, hu, hv⟩
    cases e with
    | update u v =>
      obtain ⟨rfl, rfl⟩ := Edit.update.inj heq
      rw [hapart u w (he u (by simp [Edit.rows])) hw] at hu
      rw [ne_eq, hapart v w (he v (by simp [Edit.rows])) hw] at hv
      exact ⟨u, v, rfl, hu, hv⟩
    | insert v => cases heq
    | delete u => cases heq
  · intro ⟨u, v, heq, hu, hv⟩
    subst heq
    rw [← hapart u w (he u (by simp [Edit.rows])) hw] at hu
    rw [ne_eq, ← hapart v w (he v (by simp [Edit.rows])) hw] at hv
    exact ⟨f u, f v, rfl, hu, hv⟩

omit [DecidableEq κ] [DecidableEq κ'] in
theorem leftBehind_map {S : ν → Prop} (hapart : Apart key key' f S) {es : List (Edit ν)}
    (hes : ∀ e ∈ es, ∀ u ∈ e.rows, S u) {w : ν} (hw : S w) :
    LeftBehind key' (key' (f w)) (es.map (Edit.map f)) ↔ LeftBehind key (key w) es := by
  constructor
  · intro ⟨a, e, b, heq, hmoves, hlater⟩
    obtain ⟨a, c, rfl, rfl, hc⟩ := List.map_eq_append_iff.mp heq
    obtain ⟨e, b, rfl, rfl, rfl⟩ := List.map_eq_cons_iff.mp hc
    refine ⟨a, e, b, rfl, (movesFrom_map hapart (hes e (by simp)) hw).mp hmoves, ?_⟩
    intro x hx
    have hne := hlater (x.map f) (List.mem_map_of_mem hx)
    have hxS : S x.image := hes x (by simp [hx]) x.image x.image_mem_rows
    rwa [Edit.image_map, ne_eq, hapart _ _ hxS hw] at hne
  · intro ⟨a, e, b, heq, hmoves, hlater⟩
    subst heq
    refine ⟨a.map (Edit.map f), e.map f, b.map (Edit.map f), by simp,
      (movesFrom_map hapart (hes e (by simp)) hw).mpr hmoves, ?_⟩
    intro x' hx'
    obtain ⟨x, hx, rfl⟩ := List.mem_map.mp hx'
    have hxS : S x.image := hes x (by simp [hx]) x.image x.image_mem_rows
    rw [Edit.image_map, ne_eq, hapart _ _ hxS hw]
    exact hlater x hx

/-- A replica that shows the table shows it again after the images of the edits exactly when no
key is left behind. -/
theorem mirrors_writeAll_iff {t : Keyed key} {r : Keyed key'} {es : List (Edit ν)}
    (h : Mirrors f t r) (hlegal : t.Legal es) (hapart : Apart key key' f (t.Occurs es)) :
    Mirrors f (t.applyAll es) (r.writeAll (es.map (Edit.map f))) ↔
      ∀ k, ¬ LeftBehind key k es := by
  have hideal := h.applyAll hapart fun _ hv => hv
  have hrows : ∀ e ∈ es, ∀ u ∈ e.rows, t.Occurs es u := fun e he u hu => .inr ⟨e, he, hu⟩
  have hmirror : Mirrors f (t.applyAll es) (r.writeAll (es.map (Edit.map f))) ↔
      r.writeAll (es.map (Edit.map f)) = r.applyAll (es.map (Edit.map f)) := by
    constructor
    · intro hw
      exact hw.unique hideal
    · intro heq
      rw [heq]
      exact hideal
  rw [hmirror, writeAll_eq_applyAll_iff (hlegal.map h hapart fun _ hv => hv)]
  constructor
  · intro hnone k hl
    obtain ⟨e, he, u, hu, rfl⟩ := hl.row
    exact hnone (key' (f u)) ((leftBehind_map hapart hrows (hrows e he u hu)).mpr hl)
  · intro hnone k hl
    obtain ⟨e', he', u', hu', rfl⟩ := hl.row
    obtain ⟨e, he, rfl⟩ := List.mem_map.mp he'
    rw [Edit.rows_map] at hu'
    obtain ⟨u, hu, rfl⟩ := List.mem_map.mp hu'
    exact hnone (key u) ((leftBehind_map hapart hrows (hrows e he u hu)).mp hl)

end Keyed
