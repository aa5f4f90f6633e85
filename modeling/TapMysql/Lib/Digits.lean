import Mathlib.Data.List.Induction
import Mathlib.Data.List.TakeWhile
import Mathlib.Data.String.Basic

/-!
# Digit texts and the numbers that they denote

Texts of decimal digits, with leading zeros or without. Two texts of one length compare as their
numbers do. A shorter text comes before a longer one exactly when its number is at most the number
of the leading digits of the longer one.
-/

namespace Digits

/-- The number that a decimal text denotes. -/
def value (ds : List Char) : ℕ := Nat.ofDigitChars 10 ds 0

def AllDigits (ds : List Char) : Prop := ∀ c ∈ ds, c.isDigit = true

theorem allDigits_toDigits (n : ℕ) : AllDigits (Nat.toDigits 10 n) := fun _ hc =>
  Nat.isDigit_of_mem_toDigits (by omega) (by omega) hc

theorem toList_toString (n : ℕ) : (toString n).toList = Nat.toDigits 10 n := Nat.toList_repr

theorem toList_ofNat (n : ℕ) : (toString (Int.ofNat n)).toList = Nat.toDigits 10 n :=
  toList_toString n

theorem toList_negSucc (n : ℕ) :
    (toString (Int.negSucc n)).toList = '-' :: Nat.toDigits 10 (n + 1) := by
  have htext : toString (Int.negSucc n) = "-" ++ toString (n + 1) := rfl
  have hminus : "-".toList = ['-'] := by decide
  rw [htext, String.toList_append, hminus, toList_toString]
  rfl

theorem value_toDigits (n : ℕ) : value (Nat.toDigits 10 n) = n := Nat.ofDigitChars_ten_toDigits

theorem toDigits_head (n : ℕ) : ∃ c cs, Nat.toDigits 10 n = c :: cs ∧ c ≠ '-' := by
  cases hn : Nat.toDigits 10 n with
  | nil => exact absurd hn Nat.toDigits_ne_nil
  | cons c cs =>
    refine ⟨c, cs, rfl, ?_⟩
    rintro rfl
    exact absurd (allDigits_toDigits n '-' (hn ▸ List.mem_cons_self)) (by decide)

/-- The digits of a positive number start with another digit than zero. -/
theorem head?_toDigits_ne {n : ℕ} (h : n ≠ 0) : (Nat.toDigits 10 n).head? ≠ some '0' := by
  induction n using Nat.strongRecOn with
  | ind n ih =>
    by_cases hlt : n < 10
    · have hdigits : ∀ d < 10, d ≠ 0 → Nat.digitChar d ≠ '0' := by decide
      rw [Nat.toDigits_of_lt_base hlt]
      intro hhead
      exact hdigits n hlt h (Option.some.inj hhead)
    · rw [Nat.toDigits_of_base_le (by omega) (by omega),
        List.head?_append_of_ne_nil _ Nat.toDigits_ne_nil]
      exact ih (n / 10) (by omega) (by omega)

/-- The longest head of a text that holds only some characters, such as digits. -/
theorem takeWhile_append {p : Char → Bool} {xs : List Char} (h : ∀ c ∈ xs, p c = true)
    {rest : List Char} (hrest : ∀ c ∈ rest.head?, p c = false) :
    (xs ++ rest).takeWhile p = xs ∧ (xs ++ rest).dropWhile p = rest := by
  rw [List.takeWhile_append_of_pos h, List.dropWhile_append_of_pos h]
  cases rest with
  | nil => exact ⟨List.append_nil xs, rfl⟩
  | cons c cs =>
    have hc := hrest c rfl
    rw [List.takeWhile_cons_of_neg (by simp [hc]), List.dropWhile_cons_of_neg (by simp [hc])]
    exact ⟨List.append_nil xs, rfl⟩

/-! ### Hexadecimal digits -/

def hexValue (c : Char) : Option ℕ :=
  if c.isDigit then some (c.toNat - 0x30)
  else if 'a' ≤ c ∧ c ≤ 'f' then some (c.toNat - 0x57)
  else if 'A' ≤ c ∧ c ≤ 'F' then some (c.toNat - 0x37)
  else none

theorem hexValue_digitChar : ∀ n < 16, hexValue (Nat.digitChar n) = some n := by decide

/-! ### Zero -/

theorem eq_zero_char_of_isDigit {c : Char} (h : c.isDigit = true)
    (hzero : c.toNat - '0'.toNat = 0) :
    c = '0' := by
  simp only [Char.isDigit, Bool.and_eq_true, decide_eq_true_eq] at h
  have hge : '0'.toNat ≤ c.toNat := h.1
  have hc : c.toNat = '0'.toNat := by omega
  exact Char.toNat_inj.mp hc

theorem ofDigitChars_eq_zero_iff {b : ℕ} (hb : 0 < b) {ds : List Char} (h : AllDigits ds) :
    Nat.ofDigitChars b ds 0 = 0 ↔ ∀ c ∈ ds, c = '0' := by
  induction ds using List.reverseRecOn with
  | nil => simp
  | append_singleton ds d ih =>
    have hds := ih fun c hc => h c (List.mem_append_left _ hc)
    have hd := h d (List.mem_append_right _ (List.mem_singleton_self d))
    rw [Nat.ofDigitChars_append, Nat.ofDigitChars_cons, Nat.ofDigitChars_nil,
      Nat.add_eq_zero_iff, Nat.mul_eq_zero, hds, List.forall_mem_append, List.forall_mem_singleton]
    constructor
    · intro h
      obtain ⟨hzero, hlast⟩ := h
      exact ⟨hzero.resolve_left (by omega), eq_zero_char_of_isDigit hd hlast⟩
    · intro h
      obtain ⟨hzero, rfl⟩ := h
      exact ⟨.inr hzero, rfl⟩

/-! ### The order of texts -/

variable {xs ys : List Char}

theorem value_cons (c : Char) (cs : List Char) :
    value (c :: cs) = 10 ^ cs.length * (c.toNat - '0'.toNat) + value cs := by
  rw [value, Nat.ofDigitChars_cons, Nat.mul_zero, Nat.zero_add,
    Nat.ofDigitChars_eq_ofDigitChars_zero, value]

theorem toNat_bounds {c : Char} (h : c.isDigit = true) :
    '0'.toNat ≤ c.toNat ∧ c.toNat - '0'.toNat < 10 := by
  simp only [Char.isDigit, Bool.and_eq_true, decide_eq_true_eq] at h
  have hge : '0'.toNat ≤ c.toNat := h.1
  have hle : c.toNat ≤ '9'.toNat := h.2
  have hnine : '9'.toNat = '0'.toNat + 9 := rfl
  omega

theorem value_lt (h : AllDigits xs) : value xs < 10 ^ xs.length := by
  induction xs with
  | nil => exact Nat.one_pos
  | cons c cs ih =>
    have hc := (toNat_bounds (h c List.mem_cons_self)).2
    have hcs := ih fun d hd => h d (List.mem_cons_of_mem c hd)
    have hmul := Nat.mul_le_mul_left (10 ^ cs.length) (Nat.succ_le_of_lt hc)
    rw [value_cons, List.length_cons, Nat.pow_succ]
    rw [Nat.mul_succ] at hmul
    omega

theorem leading_lt_iff {r d e x y : ℕ} (hx : x < r) (hy : y < r) :
    r * d + x < r * e + y ↔ d < e ∨ d = e ∧ x < y := by
  rcases lt_trichotomy d e with hde | rfl | hde
  · have hmul := Nat.mul_le_mul_left r (Nat.succ_le_of_lt hde)
    rw [Nat.mul_succ] at hmul
    constructor <;> omega
  · omega
  · have hmul := Nat.mul_le_mul_left r (Nat.succ_le_of_lt hde)
    rw [Nat.mul_succ] at hmul
    constructor <;> omega

theorem char_lt_iff (c d : Char) : c < d ↔ c.toNat < d.toNat := Iff.rfl

theorem lt_iff_value_lt (hx : AllDigits xs) (hy : AllDigits ys) (hlength : xs.length = ys.length) :
    xs < ys ↔ value xs < value ys := by
  induction xs generalizing ys with
  | nil =>
    have hys : ys = [] := List.length_eq_zero_iff.mp hlength.symm
    simp [hys]
  | cons c cs ih =>
    obtain _ | ⟨d, ds⟩ := ys
    · simp at hlength
    · have hlen : cs.length = ds.length := by simpa using hlength
      have hcs : AllDigits cs := fun x h => hx x (List.mem_cons_of_mem c h)
      have hds : AllDigits ds := fun y h => hy y (List.mem_cons_of_mem d h)
      have hc := toNat_bounds (hx c List.mem_cons_self)
      have hd := toNat_bounds (hy d List.mem_cons_self)
      have hxlt := value_lt hcs
      have hylt := value_lt hds
      have hchar : c = d ↔ c.toNat - '0'.toNat = d.toNat - '0'.toNat := by
        rw [← Char.toNat_inj]
        omega
      rw [List.cons_lt_cons_iff, char_lt_iff, ih hcs hds hlen, value_cons, value_cons, hlen,
        leading_lt_iff (hlen ▸ hxlt) hylt, hchar]
      omega

theorem value_append (xs ys : List Char) :
    value (xs ++ ys) = 10 ^ ys.length * value xs + value ys := by
  rw [value, Nat.ofDigitChars_append, Nat.ofDigitChars_eq_ofDigitChars_zero, value, value]

theorem value_take (hy : AllDigits ys) (k : ℕ) :
    value (ys.take k) = value ys / 10 ^ (ys.length - k) := by
  have hrest : value (ys.drop k) < 10 ^ (ys.length - k) := by
    rw [← List.length_drop]
    exact value_lt fun c hc => hy c (List.mem_of_mem_drop hc)
  have hvalue := value_append (ys.take k) (ys.drop k)
  rw [List.take_append_drop, List.length_drop] at hvalue
  rw [hvalue, Nat.mul_add_div (Nat.pow_pos (by omega)), Nat.div_eq_of_lt hrest, Nat.add_zero]

theorem lt_append_iff (hlength : xs.length = ys.length) {zs : List Char} (hzs : zs ≠ []) :
    xs < ys ++ zs ↔ xs < ys ∨ xs = ys := by
  induction xs generalizing ys with
  | nil =>
    have hys : ys = [] := List.length_eq_zero_iff.mp hlength.symm
    subst hys
    obtain _ | ⟨z, zs⟩ := zs
    · exact absurd rfl hzs
    · simp
  | cons c cs ih =>
    obtain _ | ⟨d, ds⟩ := ys
    · simp at hlength
    · have hlen : cs.length = ds.length := by simpa using hlength
      rw [List.cons_append, List.cons_lt_cons_iff, List.cons_lt_cons_iff, ih hlen,
        List.cons.injEq, and_or_left, or_assoc]

theorem value_inj (hx : AllDigits xs) (hy : AllDigits ys) (hlength : xs.length = ys.length) :
    value xs = value ys ↔ xs = ys := by
  constructor
  · intro hvalue
    rcases lt_trichotomy xs ys with hlt | heq | hgt
    · have := (lt_iff_value_lt hx hy hlength).mp hlt
      omega
    · exact heq
    · have := (lt_iff_value_lt hy hx hlength.symm).mp hgt
      omega
  · rintro rfl
    rfl

/-- A shorter text against a longer one: its number against the leading digits. -/
theorem lt_iff_value_le (hx : AllDigits xs) (hy : AllDigits ys)
    (hlength : xs.length < ys.length) :
    xs < ys ↔ value xs ≤ value ys / 10 ^ (ys.length - xs.length) := by
  have htake : xs.length = (ys.take xs.length).length := by
    rw [List.length_take]
    omega
  have hdigits : AllDigits (ys.take xs.length) := fun c hc => hy c (List.mem_of_mem_take hc)
  have hrest : ys.drop xs.length ≠ [] := by
    intro hnil
    have := List.drop_eq_nil_iff.mp hnil
    omega
  rw [← value_take hy, le_iff_lt_or_eq, ← lt_iff_value_lt hx hdigits htake,
    value_inj hx hdigits htake, ← lt_append_iff htake hrest, List.take_append_drop]

end Digits
