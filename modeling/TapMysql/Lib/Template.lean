import Mathlib.Data.List.Basic

/-!
# Texts with named placeholders

A placeholder is `%(name)s`, where the name is a nonempty run of word characters. A text is read
from left to right into its placeholders and the characters between them. Which characters are
word characters is a parameter; the four characters that a placeholder is spelled with besides
its name are not among them, apart from the letter.
-/

namespace Template

variable (isWord : Char → Bool)

inductive Token
  | char (c : Char)
  | param (name : List Char)
  deriving DecidableEq

def Token.spell : Token → List Char
  | .char c => [c]
  | .param name => '%' :: '(' :: (name ++ [')', 's'])

/-- The name of the placeholder that a text begins with, and the text behind it. -/
def placeholder? : List Char → Option (List Char × List Char)
  | '%' :: '(' :: cs =>
    match cs.takeWhile isWord, cs.dropWhile isWord with
    | [], _ => none
    | c :: name, ')' :: 's' :: rest => some (c :: name, rest)
    | _, _ => none
  | _ => none

/-- The tokens of a text, after its first `skip` characters. -/
def scan : ℕ → List Char → List Token
  | _, [] => []
  | skip + 1, _ :: cs => scan skip cs
  | 0, c :: cs =>
    match placeholder? isWord (c :: cs) with
    | none => .char c :: scan 0 cs
    | some (name, _) => .param name :: scan (name.length + 3) cs

def tokens (text : List Char) : List Token := scan isWord 0 text

/-- Some placeholder stands in the text. -/
def HasPlaceholder (text : List Char) : Prop :=
  ∃ before name rest, name ≠ [] ∧ (∀ c ∈ name, isWord c = true) ∧
    text = before ++ (Token.param name).spell ++ rest

variable {isWord}

theorem scan_drop (skip : ℕ) (cs : List Char) :
    scan isWord skip cs = tokens isWord (cs.drop skip) := by
  induction cs generalizing skip with
  | nil => cases skip <;> rfl
  | cons c cs ih =>
    cases skip with
    | zero => rfl
    | succ skip => exact ih skip

theorem placeholder?_spell {cs name rest : List Char}
    (h : placeholder? isWord cs = some (name, rest)) :
    name ≠ [] ∧ (∀ c ∈ name, isWord c = true) ∧ cs = (Token.param name).spell ++ rest := by
  unfold placeholder? at h
  split at h
  · rename_i cs
    have hsplit := List.takeWhile_append_dropWhile (p := isWord) (l := cs)
    have hword := List.all_takeWhile (p := isWord) (l := cs)
    split at h
    · cases h
    · rename_i c word rest' htake hdrop
      obtain ⟨rfl, rfl⟩ := Prod.mk.inj (Option.some.inj h)
      rw [htake] at hword
      refine ⟨List.cons_ne_nil _ _, List.all_eq_true.mp hword, ?_⟩
      rw [← hsplit, htake, hdrop]
      simp [Token.spell]
    · cases h
  · cases h

theorem placeholder?_of_spell (hparen : isWord ')' = false) {name : List Char}
    (hne : name ≠ []) (hname : ∀ c ∈ name, isWord c = true) (rest : List Char) :
    placeholder? isWord ((Token.param name).spell ++ rest) = some (name, rest) := by
  have htake : (name ++ ')' :: 's' :: rest).takeWhile isWord = name := by
    rw [List.takeWhile_append_of_pos hname]
    simp [hparen]
  have hdrop : (name ++ ')' :: 's' :: rest).dropWhile isWord = ')' :: 's' :: rest := by
    rw [List.dropWhile_append_of_pos hname]
    simp [hparen]
  have hspell : (Token.param name).spell ++ rest =
      '%' :: '(' :: (name ++ ')' :: 's' :: rest) := by simp [Token.spell]
  obtain _ | ⟨c, cs⟩ := name
  · exact absurd rfl hne
  · rw [hspell, placeholder?]
    simp only [htake, hdrop]

theorem tokens_cons_of_none {c : Char} {cs : List Char}
    (h : placeholder? isWord (c :: cs) = none) :
    tokens isWord (c :: cs) = .char c :: tokens isWord cs := by
  rw [tokens, scan, h]
  rfl

theorem tokens_of_placeholder {cs name rest : List Char}
    (h : placeholder? isWord cs = some (name, rest)) :
    tokens isWord cs = .param name :: tokens isWord rest := by
  obtain ⟨-, -, rfl⟩ := placeholder?_spell h
  rw [Token.spell, List.cons_append] at h ⊢
  rw [tokens, scan, h]
  simp only
  rw [scan_drop, List.cons_append, List.append_assoc]
  congr 2
  rw [List.drop_succ_cons, List.drop_append]
  simp

/-- The tokens of a text, read one by one. -/
inductive Reads (isWord : Char → Bool) : List Char → List Token → Prop
  | done : Reads isWord [] []
  | char {c : Char} {cs : List Char} {ts : List Token} :
      placeholder? isWord (c :: cs) = none → Reads isWord cs ts →
      Reads isWord (c :: cs) (.char c :: ts)
  | param {cs name rest : List Char} {ts : List Token} :
      placeholder? isWord cs = some (name, rest) → Reads isWord rest ts →
      Reads isWord cs (.param name :: ts)

theorem reads_tokens (isWord : Char → Bool) (text : List Char) :
    Reads isWord text (tokens isWord text) := by
  induction hn : text.length using Nat.strongRecOn generalizing text with
  | ind n ih =>
    cases text with
    | nil => exact .done
    | cons c cs =>
      cases hp : placeholder? isWord (c :: cs) with
      | none =>
        rw [tokens_cons_of_none hp]
        refine .char hp (ih cs.length ?_ cs rfl)
        rw [← hn, List.length_cons]
        omega
      | some r =>
        obtain ⟨name, rest⟩ := r
        rw [tokens_of_placeholder hp]
        refine .param hp (ih rest.length ?_ rest rfl)
        rw [← hn, (placeholder?_spell hp).2.2, List.length_append, Token.spell]
        simp only [List.length_cons]
        omega

/-! ### Characters of no placeholder -/

/-- A character that no placeholder is spelled with. -/
structure Foreign (isWord : Char → Bool) (c : Char) : Prop where
  word : isWord c = false
  marks : c ∉ ['%', '(', ')', 's']

theorem Foreign.notMem_spell {c : Char} (hc : Foreign isWord c) {name : List Char}
    (hname : ∀ d ∈ name, isWord d = true) : c ∉ (Token.param name).spell := by
  have hnot : c ∉ name := fun hmem => by
    have hword := hname c hmem
    rw [hc.word] at hword
    cases hword
  have hmarks := hc.marks
  simp only [List.mem_cons, List.not_mem_nil, or_false, not_or] at hmarks
  obtain ⟨hpercent, hopen, hclose, hs⟩ := hmarks
  simp [Token.spell, hnot, hpercent, hopen, hclose, hs]

theorem placeholder?_append_of_none (hparen : isWord ')' = false) {sep : Char}
    (hsep : Foreign isWord sep) {c : Char} {cs : List Char} (ys : List Char)
    (h : placeholder? isWord (c :: cs) = none) :
    placeholder? isWord (c :: cs ++ sep :: ys) = none := by
  cases hp : placeholder? isWord (c :: cs ++ sep :: ys) with
  | none => rfl
  | some r =>
    obtain ⟨name, rest⟩ := r
    obtain ⟨hne, hname, hspell⟩ := placeholder?_spell hp
    have hno : ∀ xs, c :: cs ≠ (Token.param name).spell ++ xs := by
      intro xs heq
      rw [heq, placeholder?_of_spell hparen hne hname] at h
      cases h
    rcases List.append_eq_append_iff.mp hspell with ⟨xs, hleft, hright⟩ | ⟨xs, hleft, hright⟩
    · -- the placeholder would reach over the separator
      cases xs with
      | nil => exact absurd (by rw [hleft, List.append_nil, List.append_nil]) (hno [])
      | cons x xs =>
        obtain ⟨rfl, -⟩ := List.cons.inj hright
        have hmem : sep ∈ (Token.param name).spell := by simp [hleft]
        exact absurd hmem (hsep.notMem_spell hname)
    · exact absurd hleft (hno xs)

/-- No placeholder reaches over a foreign character. -/
theorem tokens_append (hparen : isWord ')' = false) {sep : Char} (hsep : Foreign isWord sep)
    (xs ys : List Char) :
    tokens isWord (xs ++ sep :: ys) = tokens isWord xs ++ .char sep :: tokens isWord ys := by
  have hreads := reads_tokens isWord xs
  generalize tokens isWord xs = ts at hreads
  induction hreads with
  | done =>
    refine tokens_cons_of_none ?_
    have hpercent : sep ≠ '%' := fun h => hsep.marks (by simp [h])
    rw [placeholder?]
    exact fun _ h => absurd (List.cons.inj h).1 hpercent
  | char hp _ ih =>
    have hnone := placeholder?_append_of_none hparen hsep ys hp
    rw [List.cons_append] at hnone ⊢
    rw [tokens_cons_of_none hnone, ih, List.cons_append]
  | param hp _ ih =>
    obtain ⟨hne, hname, rfl⟩ := placeholder?_spell hp
    rw [List.append_assoc, tokens_of_placeholder (placeholder?_of_spell hparen hne hname _), ih,
      List.cons_append]

/-! ### Texts without placeholders -/

theorem hasPlaceholder_cons {c : Char} {cs : List Char} (h : HasPlaceholder isWord cs) :
    HasPlaceholder isWord (c :: cs) := by
  obtain ⟨before, name, rest, hne, hname, rfl⟩ := h
  exact ⟨c :: before, name, rest, hne, hname, rfl⟩

theorem percent_mem_of_hasPlaceholder {text : List Char} (h : HasPlaceholder isWord text) :
    '%' ∈ text := by
  obtain ⟨before, name, rest, -, -, rfl⟩ := h
  simp [Token.spell]

theorem tokens_eq_map_iff (hparen : isWord ')' = false) (text : List Char) :
    tokens isWord text = text.map .char ↔ ¬HasPlaceholder isWord text := by
  have hreads := reads_tokens isWord text
  generalize tokens isWord text = ts at hreads
  induction hreads with
  | done => simp [HasPlaceholder, Token.spell]
  | @char c cs ts hp _ ih =>
    rw [List.map_cons, List.cons.injEq]
    refine (and_iff_right rfl).trans (ih.trans (not_congr ⟨hasPlaceholder_cons, fun h => ?_⟩))
    obtain ⟨before, name, rest, hne, hname, heq⟩ := h
    cases before with
    | nil =>
      rw [heq, List.nil_append, placeholder?_of_spell hparen hne hname] at hp
      cases hp
    | cons d before =>
      obtain ⟨-, rfl⟩ := List.cons.inj heq
      exact ⟨before, name, rest, hne, hname, rfl⟩
  | @param cs name rest ts hp _ ih =>
    obtain ⟨hne, hname, rfl⟩ := placeholder?_spell hp
    refine iff_of_false ?_ (not_not.mpr ⟨[], name, rest, hne, hname, rfl⟩)
    rw [Token.spell, List.cons_append, List.map_cons]
    exact fun h => Token.noConfusion (List.cons.inj h).1

theorem tokens_append_of_notMem {xs : List Char} (h : '%' ∉ xs) (ys : List Char) :
    tokens isWord (xs ++ ys) = xs.map .char ++ tokens isWord ys := by
  induction xs with
  | nil => rfl
  | cons c cs ih =>
    obtain ⟨hc, hcs⟩ := List.ne_and_not_mem_of_not_mem_cons h
    have hnone : placeholder? isWord (c :: (cs ++ ys)) = none := by
      rw [placeholder?]
      exact fun _ heq => absurd (List.cons.inj heq).1.symm hc
    rw [List.cons_append, tokens_cons_of_none hnone, ih hcs]
    rfl

/-! ### Filling a text -/

def Token.fill (mark : Char) : Token → Char
  | .char c => c
  | .param _ => mark

def Token.name? : Token → Option (List Char)
  | .char _ => none
  | .param name => some name

/-- The text with a mark in the place of every placeholder. -/
def fill (isWord : Char → Bool) (mark : Char) (text : List Char) : List Char :=
  (tokens isWord text).map (Token.fill mark)

/-- The names of the placeholders, in order. -/
def params (isWord : Char → Bool) (text : List Char) : List (List Char) :=
  (tokens isWord text).filterMap Token.name?

section Fill

variable {mark sep : Char} (hparen : isWord ')' = false)

include hparen

theorem fill_append (hsep : Foreign isWord sep) (xs ys : List Char) :
    fill isWord mark (xs ++ sep :: ys) = fill isWord mark xs ++ sep :: fill isWord mark ys := by
  rw [fill, tokens_append hparen hsep, List.map_append, List.map_cons]
  rfl

theorem params_append (hsep : Foreign isWord sep) (xs ys : List Char) :
    params isWord (xs ++ sep :: ys) = params isWord xs ++ params isWord ys := by
  rw [params, tokens_append hparen hsep, List.filterMap_append, List.filterMap_cons]
  rfl

variable (mark) in
theorem fill_of_no_placeholder {text : List Char} (h : ¬HasPlaceholder isWord text) :
    fill isWord mark text = text ∧ params isWord text = [] := by
  rw [fill, params, (tokens_eq_map_iff hparen text).mpr h]
  refine ⟨?_, List.filterMap_eq_nil_iff.mpr fun t ht => ?_⟩
  · rw [List.map_map]
    exact List.map_id text
  · obtain ⟨c, -, rfl⟩ := List.mem_map.mp ht
    rfl

omit hparen in
/-- Filling adds one mark for each placeholder. -/
theorem count_fill (hmark : Foreign isWord mark) (text : List Char) :
    (fill isWord mark text).count mark = text.count mark + (params isWord text).length := by
  have hreads := reads_tokens isWord text
  rw [fill, params]
  generalize tokens isWord text = ts at hreads
  induction hreads with
  | done => rfl
  | char _ _ ih =>
    rw [List.map_cons, Token.fill, List.count_cons, ih, List.count_cons]
    simp only [List.filterMap_cons, Token.name?]
    omega
  | param hp _ ih =>
    obtain ⟨-, hname, rfl⟩ := placeholder?_spell hp
    have hnone := List.count_eq_zero.mpr (hmark.notMem_spell hname)
    rw [List.map_cons, Token.fill, List.count_cons_self, ih, List.count_append, hnone]
    simp only [List.filterMap_cons, Token.name?, List.length_cons]
    omega

omit hparen in
theorem mem_fill {c : Char} {text : List Char} (h : c ∈ fill isWord mark text) :
    c = mark ∨ c ∈ text := by
  have hreads := reads_tokens isWord text
  rw [fill] at h
  generalize tokens isWord text = ts at hreads h
  induction hreads with
  | done => cases h
  | char _ _ ih =>
    rcases List.mem_cons.mp h with rfl | h
    · exact Or.inr List.mem_cons_self
    · exact (ih h).imp_right (List.mem_cons_of_mem _)
  | param hp _ ih =>
    obtain ⟨-, -, rfl⟩ := placeholder?_spell hp
    rcases List.mem_cons.mp h with rfl | h
    · exact Or.inl rfl
    · exact (ih h).imp_right (List.mem_append_right _)

/-- A text with one placeholder. -/
theorem params_single {xs name ys : List Char} (hxs : '%' ∉ xs) (hne : name ≠ [])
    (hname : ∀ c ∈ name, isWord c = true) (hys : '%' ∉ ys) :
    params isWord (xs ++ ((Token.param name).spell ++ ys)) = [name] := by
  have hchars : ∀ text : List Char, (text.map Token.char).filterMap Token.name? = [] := fun text =>
    List.filterMap_eq_nil_iff.mpr fun t ht => by
      obtain ⟨c, -, rfl⟩ := List.mem_map.mp ht
      rfl
  rw [params, tokens_append_of_notMem hxs,
    tokens_of_placeholder (placeholder?_of_spell hparen hne hname ys),
    (tokens_eq_map_iff hparen ys).mpr fun h => hys (percent_mem_of_hasPlaceholder h),
    List.filterMap_append, hchars, List.filterMap_cons]
  exact congrArg (name :: ·) (hchars ys)

theorem params_eq_nil_iff (text : List Char) :
    params isWord text = [] ↔ ¬HasPlaceholder isWord text := by
  refine ⟨fun h => ?_, fun h => (fill_of_no_placeholder '%' hparen h).2⟩
  rw [← tokens_eq_map_iff hparen]
  have hreads := reads_tokens isWord text
  rw [params] at h
  generalize tokens isWord text = ts at hreads h
  induction hreads with
  | done => rfl
  | char _ _ ih => exact congrArg _ (ih h)
  | param => cases h

theorem params_of_notMem {text : List Char} (h : '%' ∉ text) : params isWord text = [] :=
  (params_eq_nil_iff hparen text).mpr fun hp => h (percent_mem_of_hasPlaceholder hp)

/-- A text is unchanged exactly when it holds no placeholder. -/
theorem fill_eq_self_iff (hmark : Foreign isWord mark) (text : List Char) :
    fill isWord mark text = text ↔ ¬HasPlaceholder isWord text := by
  refine ⟨fun h => ?_, fun h => (fill_of_no_placeholder mark hparen h).1⟩
  have hcount := count_fill hmark text
  rw [h] at hcount
  rw [← params_eq_nil_iff hparen]
  exact List.length_eq_zero_iff.mp (by omega)

end Fill

/-! ### Doubled marks -/

/-- `text.replace(c, cc)` for a character `c`. -/
def double (c : Char) (text : List Char) : List Char :=
  text.flatMap fun d => if d = c then [c, c] else [d]

theorem double_append {c sep : Char} (hsep : sep ≠ c) (xs ys : List Char) :
    double c (xs ++ sep :: ys) = double c xs ++ sep :: double c ys := by
  simp [double, hsep]

theorem length_double (c : Char) (text : List Char) :
    (double c text).length = text.length + text.count c := by
  induction text with
  | nil => rfl
  | cons d text ih =>
    rw [double, List.flatMap_cons, List.length_append, ← double, ih, List.length_cons,
      List.count_cons]
    by_cases h : d = c
    · simp [h]
      omega
    · simp [h]
      omega

theorem double_of_notMem {c : Char} {text : List Char} (h : c ∉ text) : double c text = text := by
  induction text with
  | nil => rfl
  | cons d text ih =>
    obtain ⟨hd, htext⟩ := List.ne_and_not_mem_of_not_mem_cons h
    rw [double, List.flatMap_cons, if_neg hd.symm, ← double, ih htext]
    rfl

theorem count_double {c d : Char} (h : d ≠ c) (text : List Char) :
    (double c text).count d = text.count d := by
  induction text with
  | nil => rfl
  | cons x text ih =>
    rw [double, List.flatMap_cons, List.count_append, ← double, ih, List.count_cons]
    by_cases hx : x = c
    · subst hx
      simp [h.symm]
    · simp [hx, List.count_cons, Nat.add_comm]

/-- Doubling the percent signs of a text is undone by filling only when there are none. -/
theorem fill_double_eq_iff (hparen : isWord ')' = false) {mark : Char}
    (hmark : Foreign isWord mark) (text : List Char) :
    fill isWord mark (double '%' text) = text ↔ '%' ∉ text := by
  constructor
  · intro h
    have hpercent : mark ≠ '%' := fun h => hmark.marks (by simp [h])
    have hcount := count_fill hmark (double '%' text)
    rw [h, count_double hpercent] at hcount
    have hparams : params isWord (double '%' text) = [] := List.length_eq_zero_iff.mp (by omega)
    rw [(fill_of_no_placeholder mark hparen ((params_eq_nil_iff hparen _).mp hparams)).1] at h
    have hlength := length_double '%' text
    rw [h] at hlength
    exact List.count_eq_zero.mp (by omega)
  · intro h
    rw [double_of_notMem h]
    exact (fill_eq_self_iff hparen hmark text).mpr fun hp => h (percent_mem_of_hasPlaceholder hp)

end Template
