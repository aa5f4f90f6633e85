import TapMysql.Lib.Digits
import TapMysql.Lib.Utf8

/-!
# The generic syntax of URIs

The parts of a URI with an authority, and percent-encoding. Delimiters are found first and each
part is decoded afterwards; a percent sign that two hexadecimal digits do not follow stands for
itself.
-/

namespace Uri

/-! ### Percent-encoding -/

/-- The octets that a part denotes. -/
def octets : List Char → List UInt8
  | [] => []
  | c :: cs =>
    if c = '%' then
      match cs with
      | x :: y :: rest =>
        match Digits.hexValue x, Digits.hexValue y with
        | some m, some n => UInt8.ofNat (m * 16 + n) :: octets rest
        | _, _ => String.utf8EncodeChar c ++ octets (x :: y :: rest)
      | cs => String.utf8EncodeChar c ++ octets cs
    else String.utf8EncodeChar c ++ octets cs

def decode (cs : List Char) : Option String := Utf8.decode (octets cs)

/-- A percent sign with two hexadecimal digits behind it. -/
def HasEscape (cs : List Char) : Prop :=
  ∃ xs x y ys, cs = xs ++ '%' :: x :: y :: ys ∧
    (Digits.hexValue x).isSome = true ∧ (Digits.hexValue y).isSome = true

def isUnreserved (b : UInt8) : Bool :=
  decide (b.toNat < 128) &&
    ((Char.ofNat b.toNat).isAlphanum || ['_', '.', '-', '~'].contains (Char.ofNat b.toNat))

def upperDigit (n : ℕ) : Char := (Nat.digitChar n).toUpper

def encodeOctet (b : UInt8) : List Char :=
  ['%', upperDigit (b.toNat / 16), upperDigit (b.toNat % 16)]

theorem octets_cons {c : Char} (h : c ≠ '%') (cs : List Char) :
    octets (c :: cs) = String.utf8EncodeChar c ++ octets cs := by
  rw [octets.eq_def]
  exact if_neg h

theorem hexValue_upperDigit : ∀ n < 16, Digits.hexValue (upperDigit n) = some n := by decide

theorem octets_encodeOctet (b : UInt8) (rest : List Char) :
    octets (encodeOctet b ++ rest) = b :: octets rest := by
  have hb := b.toNat_lt
  have hvalue : b.toNat / 16 * 16 + b.toNat % 16 = b.toNat := by omega
  rw [octets.eq_def]
  simp only [encodeOctet, List.cons_append, List.nil_append, if_true,
    hexValue_upperDigit _ (show b.toNat / 16 < 16 by omega),
    hexValue_upperDigit _ (show b.toNat % 16 < 16 by omega), hvalue, UInt8.ofNat_toNat]

theorem hasEscape_cons {c : Char} {cs : List Char} : HasEscape (c :: cs) ↔
    (c = '%' ∧ ∃ x y ys, cs = x :: y :: ys ∧ (Digits.hexValue x).isSome = true ∧
      (Digits.hexValue y).isSome = true) ∨ HasEscape cs := by
  constructor
  · intro h
    obtain ⟨xs, x, y, ys, heq, hx, hy⟩ := h
    cases xs with
    | nil =>
      obtain ⟨rfl, rfl⟩ := List.cons.inj heq
      exact Or.inl ⟨rfl, x, y, ys, rfl, hx, hy⟩
    | cons d xs =>
      obtain ⟨rfl, rfl⟩ := List.cons.inj heq
      exact Or.inr ⟨xs, x, y, ys, rfl, hx, hy⟩
  · intro h
    rcases h with h | h
    · obtain ⟨rfl, x, y, ys, rfl, hx, hy⟩ := h
      exact ⟨[], x, y, ys, rfl, hx, hy⟩
    · obtain ⟨xs, x, y, ys, rfl, hx, hy⟩ := h
      exact ⟨c :: xs, x, y, ys, rfl, hx, hy⟩

/-- A character that begins no escape adds its own octets. -/
theorem octets_spec_cons {c : Char} {cs : List Char} (hc : HasEscape (c :: cs) ↔ HasEscape cs)
    (h : (HasEscape cs ∧ (octets cs).length < (Utf8.encode cs).length) ∨
      (¬HasEscape cs ∧ octets cs = Utf8.encode cs)) :
    (HasEscape (c :: cs) ∧
      (String.utf8EncodeChar c ++ octets cs).length < (Utf8.encode (c :: cs)).length) ∨
      (¬HasEscape (c :: cs) ∧ String.utf8EncodeChar c ++ octets cs = Utf8.encode (c :: cs)) := by
  rw [hc, Utf8.encode_cons, List.length_append, List.length_append]
  rcases h with ⟨hyes, hlt⟩ | ⟨hno, heq⟩
  · exact Or.inl ⟨hyes, by omega⟩
  · exact Or.inr ⟨hno, by rw [heq]⟩

/-- The octets of a text are those of its characters, unless an escape makes them fewer. -/
theorem octets_spec (cs : List Char) :
    (HasEscape cs ∧ (octets cs).length < (Utf8.encode cs).length) ∨
      (¬HasEscape cs ∧ octets cs = Utf8.encode cs) := by
  fun_induction octets cs with
  | case1 =>
    refine Or.inr ⟨fun h => ?_, rfl⟩
    obtain ⟨xs, x, y, ys, heq, -⟩ := h
    exact absurd heq.symm (List.append_ne_nil_of_right_ne_nil _ (List.cons_ne_nil _ _))
  | case2 x y rest m n hy hx ih =>
    refine Or.inl ⟨⟨[], x, y, rest, rfl, by rw [hx]; rfl, by rw [hy]; rfl⟩, ?_⟩
    have hle : (octets rest).length ≤ (Utf8.encode rest).length := by
      rcases ih with ⟨-, hlt⟩ | ⟨-, heq⟩
      · omega
      · rw [heq]
    have hpercent := Utf8.length_utf8EncodeChar_pos '%'
    have hxlen := Utf8.length_utf8EncodeChar_pos x
    rw [Utf8.encode_cons, Utf8.encode_cons, Utf8.encode_cons, List.length_append,
      List.length_append, List.length_append, List.length_cons]
    omega
  | case3 x y rest hno ih =>
    refine octets_spec_cons ?_ ih
    rw [hasEscape_cons, or_iff_right]
    intro h
    obtain ⟨-, x', y', ys, heq, hx, hy⟩ := h
    obtain ⟨rfl, hrest⟩ := List.cons.inj heq
    obtain ⟨rfl, -⟩ := List.cons.inj hrest
    obtain ⟨m, hm⟩ := Option.isSome_iff_exists.mp hx
    obtain ⟨n, hn⟩ := Option.isSome_iff_exists.mp hy
    exact hno m n hm hn
  | case4 cs hshort ih =>
    refine octets_spec_cons ?_ ih
    rw [hasEscape_cons, or_iff_right]
    intro h
    obtain ⟨-, x, y, ys, heq, -⟩ := h
    exact hshort x y ys heq
  | case5 c cs hc ih =>
    refine octets_spec_cons ?_ ih
    rw [hasEscape_cons, or_iff_right]
    exact fun h => hc h.1

theorem decode_self_iff (s : String) : decode s.toList = some s ↔ ¬HasEscape s.toList := by
  rw [decode, Utf8.decode_eq_some]
  rcases octets_spec s.toList with ⟨hescape, hlt⟩ | ⟨hescape, heq⟩
  · exact iff_of_false (fun h => by rw [h] at hlt; omega) (not_not_intro hescape)
  · exact iff_of_true heq hescape

/-- A text decoded from a head of itself is that head, without escapes. -/
theorem decode_prefix_iff {s : String} {cs : List Char} (hhead : cs <+: s.toList) :
    decode cs = some s ↔ cs = s.toList ∧ ¬HasEscape s.toList := by
  rw [← decode_self_iff]
  constructor
  · intro h
    obtain ⟨tail, htail⟩ := hhead
    have hle : (octets cs).length ≤ (Utf8.encode cs).length := by
      rcases octets_spec cs with ⟨-, hlt⟩ | ⟨-, heq⟩
      · omega
      · rw [heq]
    have hnil : tail = [] := by
      cases tail with
      | nil => rfl
      | cons c tail =>
        have hlength := congrArg List.length (Utf8.decode_eq_some.mp h)
        have hc := Utf8.length_utf8EncodeChar_pos c
        rw [← htail, Utf8.encode_append, Utf8.encode_cons, List.length_append,
          List.length_append] at hlength
        omega
    rw [hnil, List.append_nil] at htail
    exact ⟨htail, htail ▸ h⟩
  · intro h
    exact h.1 ▸ h.2

/-! ### The parts -/

/-- The text before the first separator, and the text behind it. -/
def splitFirst (sep : Char) (cs : List Char) : List Char × Option (List Char) :=
  match cs.dropWhile (· != sep) with
  | [] => (cs, none)
  | _ :: rest => (cs.takeWhile (· != sep), some rest)

/-- The text before the last separator, and the text behind it. -/
def splitLast (sep : Char) (cs : List Char) : Option (List Char) × List Char :=
  match splitFirst sep cs.reverse with
  | (_, none) => (none, cs)
  | (last, some rest) => (some rest.reverse, last.reverse)

structure Parts where
  scheme : List Char
  user : Option (List Char)
  password : Option (List Char)
  host : List Char
  port : Option (List Char)
  path : List Char

def endsAuthority (c : Char) : Bool := ['/', '?', '#'].contains c

def endsPath (c : Char) : Bool := ['?', '#'].contains c

/-- The parts of the authority and the path, which follow `scheme://`. -/
def splitAuthority (scheme cs : List Char) : Parts :=
  let authority := cs.takeWhile fun c => !endsAuthority c
  let path := (cs.dropWhile fun c => !endsAuthority c).takeWhile fun c => !endsPath c
  match splitLast '@' authority with
  | (none, address) =>
    ⟨scheme, none, none, (splitFirst ':' address).1, (splitFirst ':' address).2, path⟩
  | (some userinfo, address) =>
    ⟨scheme, some (splitFirst ':' userinfo).1, (splitFirst ':' userinfo).2,
      (splitFirst ':' address).1, (splitFirst ':' address).2, path⟩

def split (uri : List Char) : Option Parts :=
  match splitFirst ':' uri with
  | (scheme, some ('/' :: '/' :: rest)) => some (splitAuthority scheme rest)
  | _ => none

theorem splitFirst_append {sep : Char} {xs : List Char} (h : sep ∉ xs) (ys : List Char) :
    splitFirst sep (xs ++ sep :: ys) = (xs, some ys) := by
  have hxs : ∀ c ∈ xs, (c != sep) = true := fun c hc => bne_iff_ne.mpr fun heq => h (heq ▸ hc)
  have hsep : ∀ c ∈ (sep :: ys).head?, (c != sep) = false := by simp
  obtain ⟨htake, hdrop⟩ := Digits.takeWhile_append hxs hsep
  rw [splitFirst, hdrop, htake]

theorem splitLast_append {sep : Char} {ys : List Char} (h : sep ∉ ys) (xs : List Char) :
    splitLast sep (xs ++ sep :: ys) = (some xs, ys) := by
  have hreverse : (xs ++ sep :: ys).reverse = ys.reverse ++ sep :: xs.reverse := by simp
  rw [splitLast, hreverse, splitFirst_append (by simpa using h)]
  simp only [List.reverse_reverse]

theorem split_append {scheme : List Char} (h : ':' ∉ scheme) (cs : List Char) :
    split (scheme ++ ':' :: '/' :: '/' :: cs) = some (splitAuthority scheme cs) := by
  rw [split, splitFirst_append h]
  rfl

/-- A head without the separator ends before it. -/
theorem prefix_of_append {sep : Char} {p xs ys : List Char} (h : p <+: xs ++ sep :: ys)
    (hp : sep ∉ p) : p <+: xs := by
  rcases List.prefix_or_prefix_of_prefix h (List.prefix_append xs (sep :: ys)) with hle | hle
  · exact hle
  · obtain ⟨tail, rfl⟩ := hle
    rw [List.prefix_append_right_inj] at h
    cases tail with
    | nil => exact (List.append_nil xs).symm ▸ List.prefix_refl xs
    | cons c tail =>
      obtain rfl := (List.cons_prefix_cons.mp h).1
      exact absurd (List.mem_append_right xs List.mem_cons_self) hp

theorem splitFirst_head (sep : Char) (cs : List Char) :
    (splitFirst sep cs).1 <+: cs ∧ sep ∉ (splitFirst sep cs).1 := by
  have htake : sep ∉ cs.takeWhile (· != sep) := fun hmem => by
    simpa using List.mem_takeWhile_imp hmem
  rw [splitFirst]
  split
  · rename_i hdrop
    refine ⟨List.prefix_refl cs, ?_⟩
    have hcs := List.takeWhile_append_dropWhile (p := (· != sep)) (l := cs)
    rw [hdrop, List.append_nil] at hcs
    exact hcs ▸ htake
  · exact ⟨List.takeWhile_prefix _, htake⟩

theorem splitLast_head {sep : Char} {cs xs ys : List Char}
    (h : splitLast sep cs = (some xs, ys)) : xs <+: cs := by
  rw [splitLast, splitFirst] at h
  cases hdrop : cs.reverse.dropWhile (· != sep) with
  | nil => simp [hdrop] at h
  | cons c rest =>
    simp only [hdrop, Prod.mk.injEq, Option.some.injEq] at h
    have hsuffix : c :: rest <:+ cs.reverse := hdrop ▸ List.dropWhile_suffix _
    have hhead := List.reverse_prefix.mpr ((List.suffix_cons c rest).trans hsuffix)
    rwa [List.reverse_reverse, h.1] at hhead

/-- Whatever is read as the user is a head of the text without delimiters. -/
theorem splitAuthority_user {scheme cs user : List Char}
    (h : (splitAuthority scheme cs).user = some user) :
    user <+: cs ∧ ':' ∉ user ∧ ∀ c ∈ user, endsAuthority c = false := by
  rw [splitAuthority] at h
  split at h
  · cases h
  · rename_i userinfo address hsplit
    obtain rfl := Option.some.inj h
    have hauthority := (splitFirst_head ':' userinfo).1.trans (splitLast_head hsplit)
    refine ⟨hauthority.trans (List.takeWhile_prefix _), (splitFirst_head ':' userinfo).2,
      fun c hc => ?_⟩
    simpa using List.mem_takeWhile_imp (hauthority.subset hc)

/-- The parts of an authority whose delimiters stand between the parts only. -/
theorem splitAuthority_spell (scheme : List Char) {user password host port path : List Char}
    (huser : ':' ∉ user ∧ ∀ c ∈ user, endsAuthority c = false)
    (hpassword : ∀ c ∈ password, endsAuthority c = false)
    (hhost : ':' ∉ host ∧ '@' ∉ host ∧ ∀ c ∈ host, endsAuthority c = false)
    (hport : '@' ∉ port ∧ ∀ c ∈ port, endsAuthority c = false)
    (hpath : ∀ c ∈ path.head?, endsAuthority c = true) :
    splitAuthority scheme (user ++ ':' :: (password ++ '@' :: (host ++ ':' :: (port ++ path)))) =
      ⟨scheme, some user, some password, host, some port,
        path.takeWhile fun c => !endsPath c⟩ := by
  have hend : ∀ c ∈ path.head?, (!endsAuthority c) = false := by
    intro c hc
    rw [hpath c hc]
    rfl
  have hauthority : ∀ c ∈ user ++ ':' :: (password ++ '@' :: (host ++ ':' :: port)),
      (!endsAuthority c) = true := by
    intro c hc
    simp only [List.mem_append, List.mem_cons] at hc
    rw [Bool.not_eq_true']
    rcases hc with hc | rfl | hc | rfl | hc | rfl | hc
    · exact huser.2 c hc
    · decide
    · exact hpassword c hc
    · decide
    · exact hhost.2.2 c hc
    · decide
    · exact hport.2 c hc
  have hspell : user ++ ':' :: (password ++ '@' :: (host ++ ':' :: (port ++ path))) =
      (user ++ ':' :: (password ++ '@' :: (host ++ ':' :: port))) ++ path := by simp
  obtain ⟨htake, hdrop⟩ := Digits.takeWhile_append hauthority hend
  have haddress : '@' ∉ host ++ ':' :: port := by
    rw [List.mem_append, List.mem_cons]
    rintro (hmem | heq | hmem)
    · exact hhost.2.1 hmem
    · exact absurd heq (by decide)
    · exact hport.1 hmem
  have hlast := splitLast_append haddress (user ++ ':' :: password)
  rw [List.append_assoc, List.cons_append] at hlast
  rw [splitAuthority, hspell, htake, hdrop]
  simp only [hlast, splitFirst_append huser.1, splitFirst_append hhost.1]

end Uri
