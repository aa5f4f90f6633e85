import Mathlib.Data.List.Lex
import Mathlib.Order.Lex
import TapMysql.Select.Incremental

/-!
# Time stamps in bookmarks

A `datetime` is written as its ISO text with the offset of UTC. Reading that text gives the
`datetime` back, with or without microseconds. Time stamps are ordered by their fields, the year
first.
-/

namespace TapMysql

/-! ### The fields -/

namespace DateTime

/-- Upper bounds of the fields, which every `datetime` of Python keeps. -/
structure Valid (d : DateTime) : Prop where
  year : d.year < 10000
  month : d.month < 13
  day : d.day < 32
  hour : d.hour < 24
  minute : d.minute < 60
  second : d.second < 60
  microsecond : d.microsecond < 1000000

def fields (d : DateTime) : List ℕ :=
  [d.year, d.month, d.day, d.hour, d.minute, d.second, d.microsecond]

theorem fields_injective : Function.Injective fields := by
  intro c d h
  obtain ⟨⟨_, _, _⟩, _, _, _, _⟩ := c
  obtain ⟨⟨_, _, _⟩, _, _, _, _⟩ := d
  simpa [fields, and_assoc] using h

/-- The order of time. -/
instance : LinearOrder DateTime := LinearOrder.lift' fields fields_injective

end DateTime

/-! ### Reading back what was written -/

theorem takeDigits_append {ds : List Char} (h : Digits.AllDigits ds) (rest : List Char) :
    takeDigits ds.length (ds ++ rest) = some (Digits.value ds, rest) := by
  induction ds with
  | nil => rfl
  | cons c cs ih =>
    have hcs := ih fun d hd => h d (List.mem_cons_of_mem c hd)
    rw [List.length_cons, List.cons_append, takeDigits, if_pos (h c List.mem_cons_self), hcs,
      Digits.value_cons, Nat.mul_comm]
    rfl

theorem takeDigits_pad {width n : ℕ} (hwidth : 0 < width) (hn : n < 10 ^ width)
    (rest : List Char) : takeDigits width ((pad width n).toList ++ rest) = some (n, rest) := by
  have htake := takeDigits_append (allDigits_pad width n) rest
  rwa [length_pad_of_lt hwidth hn, value_pad] at htake

theorem takeMarked_pad (mark : Char) {n : ℕ} (hn : n < 100) (rest : List Char) :
    takeMarked mark (mark :: ((pad 2 n).toList ++ rest)) = some (n, rest) := by
  rw [takeMarked, if_pos rfl, takeDigits_pad (by decide) hn]

/-- The text of the fraction of a second. -/
def fractionText (microsecond : ℕ) : List Char :=
  if microsecond = 0 then [] else '.' :: (pad 6 microsecond).toList

theorem takeFraction_fractionText {microsecond : ℕ} (h : microsecond < 1000000)
    {rest : List Char} (hrest : rest.head? ≠ some '.') :
    takeFraction (fractionText microsecond ++ rest) = some (microsecond, rest) := by
  rw [fractionText]
  split_ifs with hzero
  · subst hzero
    rw [List.nil_append]
    unfold takeFraction
    split
    · exact absurd rfl hrest
    · rfl
  · rw [List.cons_append, takeFraction, takeDigits_pad (by decide) h]

theorem toList_isoformat (d : DateTime) (rest : String) : (d.isoformat ++ rest).toList =
    (pad 4 d.year).toList ++ ('-' :: ((pad 2 d.month).toList ++ ('-' :: ((pad 2 d.day).toList ++
      ('T' :: ((pad 2 d.hour).toList ++ (':' :: ((pad 2 d.minute).toList ++
        (':' :: ((pad 2 d.second).toList ++
          (fractionText d.microsecond ++ rest.toList))))))))))) := by
  rw [DateTime.isoformat, Date.isoformat, fractionText]
  split_ifs <;> simp [String.toList_append]

theorem fromisoformat_isoformat {d : DateTime} (h : d.Valid) :
    fromisoformat (d.isoformat ++ "+00:00") = some d := by
  have hday := h.day
  have hmonth := h.month
  have hhour := h.hour
  have hminute := h.minute
  have hsecond := h.second
  rw [fromisoformat, toList_isoformat, takeDigits_pad (by decide) h.year]
  simp only [takeMarked_pad '-' (show d.month < 100 by omega),
    takeMarked_pad '-' (show d.day < 100 by omega),
    takeDigits_pad (show 0 < 2 by decide) (show d.hour < 10 ^ 2 by omega),
    takeMarked_pad ':' (show d.minute < 100 by omega),
    takeMarked_pad ':' (show d.second < 100 by omega)]
  rw [takeFraction_fractionText h.microsecond (by decide)]
  rfl

end TapMysql
