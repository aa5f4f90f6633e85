import TapMysql.Lib.Json

/-!
# Reading a written document

A string is read back unit by unit and a number by its longest run of characters. The items of a
bracket are read back when each of them is, so a document follows by induction on it.
-/

namespace Json

variable {F : Type}

/-! ### Strings -/

theorem hexValue₄_digitChar {u : ℕ} (hu : u < 0x10000) :
    hexValue₄ (Nat.digitChar (u / 0x1000)) (Nat.digitChar (u / 0x100 % 16))
      (Nat.digitChar (u / 0x10 % 16)) (Nat.digitChar (u % 16)) = some u := by
  rw [hexValue₄, Digits.hexValue_digitChar _ (by omega), Digits.hexValue_digitChar _ (by omega),
    Digits.hexValue_digitChar _ (by omega), Digits.hexValue_digitChar _ (by omega)]
  exact congrArg some (by omega)

theorem readUnits_close (rest : List Char) :
    readUnits (quoteMark :: rest) = some ([], rest) := by
  rw [readUnits.eq_def]
  simp only [if_true]

theorem readUnits_letter {e c : Char} (hu : e ≠ 'u') (hc : escapedChar e = some c)
    (rest : List Char) :
    readUnits (backslash :: e :: rest) =
      (readUnits rest).map fun r => (c.toNat :: r.1, r.2) := by
  rw [readUnits.eq_def]
  simp only [if_neg (show backslash ≠ quoteMark by decide), if_true, if_neg hu, hc]

theorem readUnits_char {c : Char} (hquote : c ≠ quoteMark) (hbackslash : c ≠ backslash)
    (hc : 0x20 ≤ c.toNat) (rest : List Char) :
    readUnits (c :: rest) = (readUnits rest).map fun r => (c.toNat :: r.1, r.2) := by
  rw [readUnits.eq_def]
  simp only [if_neg hquote, if_neg hbackslash, if_neg (Nat.not_lt.mpr hc)]

theorem readUnits_unicodeEscape {u : ℕ} (hu : u < 0x10000) (rest : List Char) :
    readUnits (unicodeEscape u ++ rest) = (readUnits rest).map fun r => (u :: r.1, r.2) := by
  rw [readUnits.eq_def]
  simp only [unicodeEscape, List.cons_append, List.nil_append,
    if_neg (show backslash ≠ quoteMark by decide), if_true, hexValue₄_digitChar hu]

/-- A short escape stands for the character that it is the escape of. -/
theorem escapeLetter_spec {c e : Char} (h : escapeLetter c = some e) :
    e ≠ 'u' ∧ escapedChar e = some c ∧ c.toNat < 0x10000 := by
  unfold escapeLetter at h
  split_ifs at h with h₁ h₂ h₃ h₄ h₅ h₆ h₇ <;> subst c <;> obtain rfl := Option.some.inj h <;>
    decide

theorem escapeLetter_none {c : Char} (h : escapeLetter c = none) :
    c ≠ quoteMark ∧ c ≠ backslash := by
  constructor <;>
    · rintro rfl
      exact absurd h (by decide)

theorem readUnits_quoteChar (c : Char) (rest : List Char) :
    readUnits (quoteChar c ++ rest) =
      (readUnits rest).map fun r => (units c ++ r.1, r.2) := by
  unfold quoteChar
  split
  · rename_i e he
    obtain ⟨hu, hescaped, hlow⟩ := escapeLetter_spec he
    rw [List.cons_append, List.cons_append, List.nil_append, readUnits_letter hu hescaped, units,
      if_pos hlow]
    rfl
  · rename_i hc
    obtain ⟨hquote, hbackslash⟩ := escapeLetter_none hc
    split_ifs with hprintable
    · have hlow : c.toNat < 0x10000 := by omega
      rw [List.cons_append, List.nil_append,
        readUnits_char hquote hbackslash hprintable.1, units, if_pos hlow]
      rfl
    · have hvalid := c.valid
      unfold units
      split_ifs with hlow
      · rw [List.flatMap_cons, List.flatMap_nil, List.append_nil,
          readUnits_unicodeEscape hlow]
        rfl
      · have hmax : c.toNat < 0x110000 := by
          rcases hvalid with hvalid | hvalid
          · exact Nat.lt_trans hvalid (by decide)
          · exact hvalid.2
        rw [List.flatMap_cons, List.flatMap_cons, List.flatMap_nil, List.append_nil,
          List.append_assoc, readUnits_unicodeEscape (by omega),
          readUnits_unicodeEscape (by omega), Option.map_map]
        rfl

theorem readUnits_quote (cs rest : List Char) :
    readUnits (cs.flatMap quoteChar ++ quoteMark :: rest) = some (cs.flatMap units, rest) := by
  induction cs with
  | nil => exact readUnits_close rest
  | cons c cs ih =>
    rw [List.flatMap_cons, List.append_assoc, readUnits_quoteChar, ih]
    rfl

/-- The units of a character are no halves of other surrogates. -/
theorem joinUnits_units (c : Char) (us : List ℕ) :
    joinUnits (units c ++ us) = (joinUnits us).map (c :: ·) := by
  have hvalid : c.toNat < 0xd800 ∨ 0xdfff < c.toNat ∧ c.toNat < 0x110000 := c.valid
  unfold units
  split_ifs with hlow
  · rw [List.cons_append, List.nil_append, joinUnits.eq_def]
    simp only [if_neg (show ¬(0xd800 ≤ c.toNat ∧ c.toNat < 0xdc00) by omega),
      if_neg (show ¬(0xdc00 ≤ c.toNat ∧ c.toNat < 0xe000) by omega), Char.ofNat_toNat]
  · have hjoin : 0x10000 + (0xd800 + (c.toNat - 0x10000) / 0x400 - 0xd800) * 0x400 +
        (0xdc00 + (c.toNat - 0x10000) % 0x400 - 0xdc00) = c.toNat := by
      omega
    rw [List.cons_append, List.cons_append, List.nil_append, joinUnits.eq_def]
    simp only
    rw [if_pos (by omega), if_pos (by omega), hjoin, Char.ofNat_toNat]

theorem joinUnits_flatMap (cs : List Char) : joinUnits (cs.flatMap units) = some cs := by
  induction cs with
  | nil => rfl
  | cons c cs ih =>
    rw [List.flatMap_cons, joinUnits_units, ih]
    rfl

theorem readString_quote (s : String) (rest : List Char) :
    readString (s.toList.flatMap quoteChar ++ quoteMark :: rest) = some (s, rest) := by
  rw [readString, readUnits_quote]
  simp only [joinUnits_flatMap, Option.map_some, String.ofList_toList]

/-! ### Numbers -/

theorem isNumberChar_of_isDigit {c : Char} (h : c.isDigit = true) : isNumberChar c = true := by
  rw [isNumberChar, h, Bool.true_or]

theorem isDigits_spec {ds : List Char} (h : isDigits ds = true) :
    ds ≠ [] ∧ ∀ c ∈ ds, c.isDigit = true := by
  rw [isDigits, Bool.and_eq_true, Bool.not_eq_true', List.isEmpty_eq_false_iff,
    List.all_eq_true] at h
  exact h

theorem isExponent_chars {cs : List Char} (h : isExponent cs = true) :
    ∀ c ∈ cs, isNumberChar c = true := by
  unfold isExponent at h
  split at h
  · simp
  · rename_i e cs
    rw [Bool.and_eq_true, Bool.or_eq_true, decide_eq_true_eq, decide_eq_true_eq] at h
    refine List.forall_mem_cons.mpr ⟨?_, ?_⟩
    · rcases h.1 with rfl | rfl <;> decide
    · have hcs := h.2
      split at hcs
      · simp
      · rename_i s ds
        split_ifs at hcs with hsign
        · rw [Bool.or_eq_true, decide_eq_true_eq, decide_eq_true_eq] at hsign
          refine List.forall_mem_cons.mpr ⟨?_, fun c hc => ?_⟩
          · rcases hsign with rfl | rfl <;> decide
          · exact isNumberChar_of_isDigit ((isDigits_spec hcs).2 c hc)
        · exact fun c hc => isNumberChar_of_isDigit ((isDigits_spec hcs).2 c hc)

theorem isFraction_chars {cs : List Char} (h : isFraction cs = true) :
    ∀ c ∈ cs, isNumberChar c = true := by
  unfold isFraction at h
  split at h
  · simp
  · rename_i d cs
    split_ifs at h with hpoint
    · rw [Bool.and_eq_true] at h
      refine List.forall_mem_cons.mpr ⟨by rw [hpoint]; decide, fun c hc => ?_⟩
      rw [← List.takeWhile_append_dropWhile (p := Char.isDigit) (l := cs), List.mem_append] at hc
      rcases hc with hc | hc
      · exact isNumberChar_of_isDigit ((isDigits_spec h.1).2 c hc)
      · exact isExponent_chars h.2 c hc
    · exact isExponent_chars h

theorem chars_of_unsigned {cs : List Char} (h : ∀ c ∈ unsigned cs, isNumberChar c = true) :
    ∀ c ∈ cs, isNumberChar c = true := by
  cases cs with
  | nil => simp
  | cons d cs =>
    rw [unsigned] at h
    split_ifs at h with hsign
    · exact List.forall_mem_cons.mpr ⟨by rw [hsign]; decide, h⟩
    · exact h

/-- A number is one run of characters. -/
theorem isNumber_chars {cs : List Char} (h : isNumber cs = true) :
    cs ≠ [] ∧ ∀ c ∈ cs, isNumberChar c = true := by
  rw [isNumber, Bool.and_eq_true, isWhole, Bool.and_eq_true] at h
  obtain ⟨⟨hwhole, -⟩, hfraction⟩ := h
  refine ⟨?_, chars_of_unsigned fun c hc => ?_⟩
  · rintro rfl
    exact (isDigits_spec hwhole).1 rfl
  · rw [← List.takeWhile_append_dropWhile (p := Char.isDigit) (l := unsigned cs),
      List.mem_append] at hc
    rcases hc with hc | hc
    · exact isNumberChar_of_isDigit ((isDigits_spec hwhole).2 c hc)
    · exact isFraction_chars hfraction c hc

theorem isWhole_toDigits (n : ℕ) : isWhole (Nat.toDigits 10 n) = true := by
  have hdigits : isDigits (Nat.toDigits 10 n) = true := by
    rw [isDigits, Bool.and_eq_true, Bool.not_eq_true', List.isEmpty_eq_false_iff, List.all_eq_true]
    exact ⟨Nat.toDigits_ne_nil, Digits.allDigits_toDigits n⟩
  rw [isWhole, hdigits, Bool.true_and, Bool.or_eq_true, bne_iff_ne, beq_iff_eq]
  by_cases hzero : n = 0
  · exact Or.inr (by rw [hzero]; rfl)
  · exact Or.inl (Digits.head?_toDigits_ne hzero)

/-- The text of an integer is an integer literal of that value. -/
theorem integer_text (n : Int) :
    isInteger (toString n).toList = true ∧ integerValue (toString n).toList = n := by
  cases n with
  | ofNat n =>
    obtain ⟨c, cs, hdigits, hc⟩ := Digits.toDigits_head n
    have hunsigned : unsigned (Nat.toDigits 10 n) = Nat.toDigits 10 n := by
      rw [hdigits, unsigned, if_neg hc]
    rw [isInteger, integerValue, Digits.toList_ofNat, hunsigned, Digits.value_toDigits, hdigits,
      List.head?_cons, if_neg (by simpa using hc), ← hdigits]
    exact ⟨isWhole_toDigits n, rfl⟩
  | negSucc n =>
    rw [isInteger, integerValue, Digits.toList_negSucc, unsigned, if_pos rfl, List.head?_cons,
      if_pos rfl, Digits.value_toDigits]
    exact ⟨isWhole_toDigits _, rfl⟩

theorem isInteger_chars {cs : List Char} (h : isInteger cs = true) :
    cs ≠ [] ∧ ∀ c ∈ cs, isNumberChar c = true := by
  rw [isInteger, isWhole, Bool.and_eq_true] at h
  refine ⟨?_, chars_of_unsigned fun c hc => ?_⟩
  · rintro rfl
    exact (isDigits_spec h.1).1 rfl
  · exact isNumberChar_of_isDigit ((isDigits_spec h.1).2 c hc)

/-! ### Lists of items -/

section Items

variable {α : Type} {item : List Char → Option (α × List Char)} {close : Char}
  {write : α → List Char} {xs : List α}

theorem length_le_intercalate {l : List (List Char)} {x : List Char} (hx : x ∈ l) :
    x.length ≤ (separator.intercalate l).length := by
  induction l with
  | nil => simp at hx
  | cons y l ih =>
    cases l with
    | nil =>
      rw [List.mem_singleton] at hx
      rw [List.intercalate_singleton, hx]
    | cons z l =>
      rw [List.intercalate_cons_cons, List.length_append, List.length_append]
      rcases List.mem_cons.mp hx with rfl | hx
      · omega
      · have := ih hx
        omega

theorem count_le_intercalate (l : List (List Char)) :
    l.length ≤ (separator.intercalate l).length + 1 := by
  induction l with
  | nil => exact Nat.zero_le 1
  | cons y l ih =>
    cases l with
    | nil => exact Nat.le_add_left 1 _
    | cons z l =>
      have hseparator : separator.length = 2 := rfl
      rw [List.intercalate_cons_cons, List.length_append, List.length_append, List.length_cons]
      omega

theorem skipSpaces_of_not {c : Char} (h : isSpace c = false) (cs : List Char) :
    skipSpaces (c :: cs) = c :: cs := List.dropWhile_cons_of_neg (by simp [h])

theorem skipSpaces_space (cs : List Char) : skipSpaces (' ' :: cs) = skipSpaces cs := rfl

/-- What an item reads before a comma or the closing bracket, the list reads. -/
theorem parseItems_intercalate (hclose : isSpace close = false ∧ close ≠ ',')
    (hspace : ∀ cs, item (' ' :: cs) = item cs)
    (hitem : ∀ x ∈ xs, ∀ c rest, c = ',' ∨ c = close →
      item (write x ++ c :: rest) = some (x, c :: rest))
    (hne : xs ≠ []) {n : ℕ} (hn : xs.length ≤ n) (rest : List Char) :
    parseItems item close n (separator.intercalate (xs.map write) ++ close :: rest) =
      some (xs, rest) := by
  induction xs generalizing n with
  | nil => exact absurd rfl hne
  | cons x xs ih =>
    obtain ⟨hx, hxs⟩ := List.forall_mem_cons.mp hitem
    obtain _ | n := n
    · exact absurd hn (Nat.not_succ_le_zero _)
    · cases xs with
      | nil =>
        rw [List.map_singleton, List.intercalate_singleton, parseItems, hx _ _ (Or.inr rfl)]
        simp only [skipSpaces_of_not hclose.1, if_neg hclose.2, if_true]
      | cons y ys =>
        have hrest := ih hxs (List.cons_ne_nil y ys) (Nat.le_of_succ_le_succ hn)
        obtain ⟨m, rfl⟩ : ∃ m, n = m + 1 := by
          cases n with
          | zero => exact absurd hn (by simp)
          | succ m => exact ⟨m, rfl⟩
        have hblank : ∀ cs, parseItems item close (m + 1) (' ' :: cs) =
            parseItems item close (m + 1) cs := fun cs => by
          rw [parseItems, parseItems, hspace]
        rw [List.map_cons, List.map_cons, List.intercalate_cons_cons, List.append_assoc,
          List.append_assoc, ← List.map_cons, parseItems]
        simp only [separator, List.cons_append, List.nil_append, hx ',' _ (Or.inl rfl),
          skipSpaces_of_not (show isSpace ',' = false by decide), if_true, hblank]
        rw [separator] at hrest
        rw [hrest]
        rfl

/-- The first character of a text is no space and closes nothing. -/
def Opens (cs : List Char) : Prop :=
  ∃ c rest, cs = c :: rest ∧ isSpace c = false ∧ c ≠ ']' ∧ c ≠ '}'

variable (item write xs) in
theorem parseBracket_intercalate (hclose : close = ']' ∨ close = '}')
    (hspace : ∀ cs, item (' ' :: cs) = item cs)
    (hitem : ∀ x ∈ xs, ∀ c rest, c = ',' ∨ c = close →
      item (write x ++ c :: rest) = some (x, c :: rest))
    (hopens : ∀ x ∈ xs, Opens (write x)) (rest : List Char) :
    parseBracket item close (separator.intercalate (xs.map write) ++ close :: rest) =
      some (xs, rest) := by
  have hmark : isSpace close = false ∧ close ≠ ',' := by
    rcases hclose with rfl | rfl <;> decide
  cases xs with
  | nil =>
    rw [List.map_nil, List.intercalate_nil, List.nil_append, parseBracket,
      skipSpaces_of_not hmark.1]
    simp only [if_true]
  | cons x xs =>
    obtain ⟨c, cs, hx, hspaceFree, hbracket, hbrace⟩ := hopens x List.mem_cons_self
    have hhead : ∃ tail, separator.intercalate ((x :: xs).map write) ++ close :: rest =
        c :: tail := by
      cases xs with
      | nil =>
        rw [List.map_singleton, List.intercalate_singleton, hx]
        exact ⟨_, rfl⟩
      | cons y ys =>
        rw [List.map_cons, List.map_cons, List.intercalate_cons_cons, hx]
        exact ⟨_, rfl⟩
    obtain ⟨tail, htail⟩ := hhead
    have hc : c ≠ close := by
      rcases hclose with rfl | rfl
      · exact hbracket
      · exact hbrace
    have hcount := count_le_intercalate ((x :: xs).map write)
    rw [parseBracket, htail, skipSpaces_of_not hspaceFree]
    simp only [if_neg hc]
    rw [← htail]
    refine parseItems_intercalate hmark hspace hitem (List.cons_ne_nil x xs) ?_ rest
    have hclosing : (close :: rest).length = rest.length + 1 := rfl
    rw [List.length_map] at hcount
    rw [List.length_append, hclosing]
    omega

end Items

/-! ### Documents -/

/-- Induction on a document, with a hypothesis for each element and each member. -/
@[elab_as_elim]
theorem Doc.induct {P : Doc F → Prop} (null : P .null) (bool : ∀ b, P (.bool b))
    (int : ∀ n, P (.int n)) (double : ∀ x, P (.double x)) (string : ∀ s, P (.string s))
    (array : ∀ xs, (∀ x ∈ xs, P x) → P (.array xs))
    (object : ∀ ms, (∀ m ∈ ms, P m.2) → P (.object ms)) (d : Doc F) : P d :=
  @Doc.rec F P (fun xs => ∀ x ∈ xs, P x) (fun ms => ∀ m ∈ ms, P m.2) (fun m => P m.2) null bool
    int double string array object (by simp)
    (fun _ _ hx hxs => List.forall_mem_cons.mpr ⟨hx, hxs⟩) (by simp)
    (fun _ _ hm hms => List.forall_mem_cons.mpr ⟨hm, hms⟩) (fun _ _ hd => hd) d

section Documents

variable (D : Doubles F)

theorem texts_eq (xs : List (Doc F)) : texts D xs = xs.map (Doc.text D) := by
  induction xs with
  | nil => rfl
  | cons x xs ih => rw [texts, ih, List.map_cons]

theorem memberTexts_eq (ms : List (String × Doc F)) :
    memberTexts D ms = ms.map (memberText D) := by
  induction ms with
  | nil => rfl
  | cons m ms ih => rw [memberTexts, ih, List.map_cons]

theorem opens_of_number {cs : List Char} (h : cs ≠ [] ∧ ∀ c ∈ cs, isNumberChar c = true) :
    Opens cs := by
  obtain ⟨hne, hchars⟩ := h
  obtain _ | ⟨c, cs⟩ := cs
  · exact absurd rfl hne
  · have hc := hchars c List.mem_cons_self
    have hspace : isSpace c = false := by
      by_contra hspace
      rw [Bool.not_eq_false, isSpace, List.contains_iff_mem] at hspace
      simp only [List.mem_cons, List.not_mem_nil, or_false] at hspace
      rcases hspace with rfl | rfl | rfl | rfl <;> exact absurd hc (by decide)
    refine ⟨c, cs, rfl, hspace, ?_, ?_⟩ <;>
      · rintro rfl
        exact absurd hc (by decide)

theorem opens_text (d : Doc F) : Opens (d.text D) := by
  cases d with
  | null => exact ⟨_, _, rfl, by decide⟩
  | bool b => cases b <;> exact ⟨_, _, rfl, by decide⟩
  | int n => exact opens_of_number (isInteger_chars (integer_text n).1)
  | double x => exact opens_of_number (isNumber_chars (D.isNumber_write x))
  | string s => exact ⟨_, _, rfl, by decide⟩
  | array xs => exact ⟨_, _, rfl, by decide⟩
  | object ms => exact ⟨_, _, rfl, by decide⟩

theorem opens_memberText (m : String × Doc F) : Opens (memberText D m) := by
  obtain ⟨k, d⟩ := m
  exact ⟨_, _, rfl, by decide⟩

theorem parseValue_space (fuel : ℕ) (cs : List Char) :
    parseValue D fuel (' ' :: cs) = parseValue D fuel cs := by
  cases fuel with
  | zero => rfl
  | succ fuel => rw [parseValue, parseValue, skipSpaces_space]

/-- A run of the characters of numbers is read as a number. -/
theorem parseValue_number {cs : List Char} (hcs : cs ≠ [] ∧ ∀ c ∈ cs, isNumberChar c = true)
    {d : Doc F} (hd : readNumber D cs = some d) (fuel : ℕ) {rest : List Char}
    (hrest : ∀ c ∈ rest.head?, isNumberChar c = false) :
    parseValue D (fuel + 1) (cs ++ rest) = some (d, rest) := by
  obtain ⟨htake, hdrop⟩ := Digits.takeWhile_append hcs.2 hrest
  obtain ⟨c, tail, rfl, hspace, -, -⟩ := opens_of_number hcs
  have hc := hcs.2 c List.mem_cons_self
  have hother : c ≠ quoteMark ∧ c ≠ '[' ∧ c ≠ '{' := by
    refine ⟨?_, ?_, ?_⟩ <;>
      · rintro rfl
        exact absurd hc (by decide)
  rw [List.cons_append] at htake hdrop ⊢
  rw [parseValue, skipSpaces_of_not hspace]
  simp only [if_neg hother.1, if_neg hother.2.1, if_neg hother.2.2, if_pos hc, htake, hdrop, hd,
    Option.map_some]

theorem parseMember_text {value : List Char → Option (Doc F × List Char)}
    (hspace : ∀ cs, value (' ' :: cs) = value cs) (m : String × Doc F) {rest : List Char}
    (hvalue : value (m.2.text D ++ rest) = some (m.2, rest)) :
    parseMember value (memberText D m ++ rest) = some (m, rest) := by
  rw [memberText, quote, List.append_assoc, List.cons_append, List.append_assoc, parseMember,
    skipSpaces_of_not (by decide)]
  simp only [if_true, List.cons_append, List.nil_append, readString_quote,
    skipSpaces_of_not (show isSpace ':' = false by decide), hspace, hvalue, Option.map_some]

/-- A document is read back from its text, whatever follows it that continues no number. -/
theorem parseValue_text (d : Doc F) : ∀ fuel rest, (d.text D).length < fuel →
    (∀ c ∈ rest.head?, isNumberChar c = false) →
    parseValue D fuel (d.text D ++ rest) = some (d, rest) := by
  have hends : ∀ {close : Char}, close = ']' ∨ close = '}' → ∀ c : Char, c = ',' ∨ c = close →
      isNumberChar c = false := by
    intro close hclose c hc
    rcases hclose with rfl | rfl <;> rcases hc with rfl | rfl <;> decide
  have hfuel : ∀ {n fuel : ℕ}, n < fuel → ∃ m, fuel = m + 1 := fun {n fuel} h =>
    ⟨fuel - 1, by omega⟩
  induction d using Doc.induct with
  | null =>
    intro fuel rest hlength hrest
    obtain ⟨fuel, rfl⟩ := hfuel hlength
    rfl
  | bool b =>
    intro fuel rest hlength hrest
    obtain ⟨fuel, rfl⟩ := hfuel hlength
    cases b <;> rfl
  | int n =>
    intro fuel rest hlength hrest
    obtain ⟨fuel, rfl⟩ := hfuel hlength
    obtain ⟨hinteger, hvalue⟩ := integer_text n
    refine parseValue_number D (isInteger_chars hinteger) ?_ fuel hrest
    rw [readNumber, if_pos hinteger, hvalue]
  | double x =>
    intro fuel rest hlength hrest
    obtain ⟨fuel, rfl⟩ := hfuel hlength
    refine parseValue_number D (isNumber_chars (D.isNumber_write x)) ?_ fuel hrest
    rw [readNumber, D.isInteger_write, if_neg Bool.false_ne_true, if_pos (D.isNumber_write x),
      D.read_write, Option.map_some]
  | string s =>
    intro fuel rest hlength hrest
    obtain ⟨fuel, rfl⟩ := hfuel hlength
    rw [Doc.text, quote, List.cons_append, List.append_assoc, parseValue,
      skipSpaces_of_not (by decide)]
    simp only [if_true, List.cons_append, List.nil_append, readString_quote, Option.map_some]
  | array xs ih =>
    intro fuel rest hlength hrest
    obtain ⟨fuel, rfl⟩ := hfuel hlength
    rw [Doc.text, texts_eq, List.length_cons, List.length_append] at hlength
    rw [Doc.text, texts_eq, List.cons_append, List.append_assoc, List.cons_append,
      List.nil_append, parseValue, skipSpaces_of_not (by decide)]
    have hread : ∀ x ∈ xs, ∀ c tail, c = ',' ∨ c = ']' →
        parseValue D fuel (x.text D ++ c :: tail) = some (x, c :: tail) := by
      intro x hx c tail hc
      have hle := length_le_intercalate (List.mem_map_of_mem (f := Doc.text D) hx)
      refine ih x hx fuel (c :: tail) (by omega) ?_
      simpa using hends (Or.inl rfl) c hc
    have hitems := parseBracket_intercalate (parseValue D fuel) (Doc.text D) xs (Or.inl rfl)
      (parseValue_space D fuel) hread (fun x _ => opens_text D x) rest
    simp only [if_neg (show '[' ≠ quoteMark by decide), if_true, hitems, Option.map_some]
  | object ms ih =>
    intro fuel rest hlength hrest
    obtain ⟨fuel, rfl⟩ := hfuel hlength
    rw [Doc.text, memberTexts_eq, List.length_cons, List.length_append] at hlength
    rw [Doc.text, memberTexts_eq, List.cons_append, List.append_assoc, List.cons_append,
      List.nil_append, parseValue, skipSpaces_of_not (by decide)]
    have hspace : ∀ cs, parseMember (parseValue D fuel) (' ' :: cs) =
        parseMember (parseValue D fuel) cs := by
      intro cs
      rw [parseMember, parseMember, skipSpaces_space]
    have hread : ∀ m ∈ ms, ∀ c tail, c = ',' ∨ c = '}' →
        parseMember (parseValue D fuel) (memberText D m ++ c :: tail) = some (m, c :: tail) := by
      intro m hm c tail hc
      have hle := length_le_intercalate (List.mem_map_of_mem (f := memberText D) hm)
      have hvalue : (m.2.text D).length ≤ (memberText D m).length := by
        rw [memberText, List.length_append, List.length_cons, List.length_cons]
        omega
      refine parseMember_text D (parseValue_space D fuel) m ?_
      refine ih m hm fuel (c :: tail) (by omega) ?_
      simpa using hends (Or.inr rfl) c hc
    have hitems := parseBracket_intercalate (parseMember (parseValue D fuel)) (memberText D) ms
      (Or.inr rfl) hspace hread (fun m _ => opens_memberText D m) rest
    simp only [if_neg (show '{' ≠ quoteMark by decide), if_neg (show '{' ≠ '[' by decide),
      if_true, hitems, Option.map_some]

/-- The text of a document parses to it. -/
theorem parse_text (d : Doc F) : parse D (d.text D) = some d := by
  have hvalue := parseValue_text D d ((d.text D).length + 1) [] (Nat.lt_succ_self _) (by simp)
  rw [List.append_nil] at hvalue
  rw [parse, hvalue]
  rfl

end Documents

end Json
