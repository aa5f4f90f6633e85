import Mathlib.Data.List.Basic

/-!
# UTF-8

The bytes of a text, and the text of bytes. Bytes below 128 are those of the ASCII characters.
-/

namespace Utf8

def encode (cs : List Char) : List UInt8 := cs.flatMap String.utf8EncodeChar

/-- The text that bytes encode, if they encode one. -/
def decode (bs : List UInt8) : Option String := String.fromUTF8? bs.toByteArray

theorem encode_cons (c : Char) (cs : List Char) :
    encode (c :: cs) = String.utf8EncodeChar c ++ encode cs := List.flatMap_cons

theorem encode_append (cs ds : List Char) : encode (cs ++ ds) = encode cs ++ encode ds :=
  List.flatMap_append

theorem toByteArray_encode (s : String) : (encode s.toList).toByteArray = s.toByteArray :=
  String.utf8Encode_toList

theorem decode_eq_some {bs : List UInt8} {s : String} :
    decode bs = some s ↔ bs = encode s.toList := by
  rw [← List.toByteArray_inj, toByteArray_encode, decode, String.fromUTF8?]
  constructor
  · intro h
    split_ifs at h with hvalid
    rw [← Option.some.inj h]
    rfl
  · intro h
    rw [dif_pos (h ▸ s.isValidUTF8), Option.some.injEq]
    exact String.toByteArray_inj.mp h

theorem decode_encode (s : String) : decode (encode s.toList) = some s := decode_eq_some.mpr rfl

theorem length_utf8EncodeChar_pos (c : Char) : 0 < (String.utf8EncodeChar c).length := by
  rw [String.length_utf8EncodeChar]
  exact c.utf8Size_pos

theorem utf8EncodeChar_ascii {c : Char} (h : c.toNat < 128) :
    String.utf8EncodeChar c = [UInt8.ofNat c.toNat] := by
  have hle : c.val.toNat ≤ 0x7f := Nat.le_of_lt_succ h
  rw [String.utf8EncodeChar]
  exact if_pos hle

theorem utf8EncodeChar_notAscii {c : Char} (h : 128 ≤ c.toNat) :
    ∀ b ∈ String.utf8EncodeChar c, 128 ≤ b.toNat := by
  have hlt : ¬c.val.toNat ≤ 0x7f := Nat.not_le.mpr h
  have hbyte : ∀ x y : ℕ, 128 ≤ y → x + y < 256 → 128 ≤ (UInt8.ofNat (x + y)).toNat := by
    intro x y hy hlt
    rw [UInt8.toNat_ofNat', Nat.mod_eq_of_lt hlt]
    omega
  intro b hb
  rw [String.utf8EncodeChar] at hb
  simp only [if_neg hlt] at hb
  split_ifs at hb <;> simp only [List.mem_cons, List.not_mem_nil, or_false] at hb <;>
    rcases hb with rfl | rfl | rfl | rfl <;> exact hbyte _ _ (by omega) (by omega)

/-- An ASCII byte stands for its character. -/
theorem mem_encode_ascii {c : Char} (hc : c.toNat < 128) {cs : List Char} :
    UInt8.ofNat c.toNat ∈ encode cs ↔ c ∈ cs := by
  have hvalue : ∀ {d : Char}, d.toNat < 128 → (UInt8.ofNat d.toNat).toNat = d.toNat := by
    intro d hd
    rw [UInt8.toNat_ofNat', Nat.mod_eq_of_lt (by omega)]
  rw [encode, List.mem_flatMap]
  constructor
  · intro h
    obtain ⟨d, hd, hmem⟩ := h
    rcases Nat.lt_or_ge d.toNat 128 with hascii | hascii
    · rw [utf8EncodeChar_ascii hascii, List.mem_singleton, ← UInt8.toNat_inj, hvalue hc,
        hvalue hascii, Char.toNat_inj] at hmem
      exact hmem ▸ hd
    · have := utf8EncodeChar_notAscii hascii _ hmem
      rw [hvalue hc] at this
      omega
  · intro h
    exact ⟨c, h, by rw [utf8EncodeChar_ascii hc]; exact List.mem_singleton_self _⟩

end Utf8
