import TapMysql.Rendering
import TapMysql.Select.Timestamps

/-!
# Durations as literals of TIME

Both paths write a duration with `str`: days apart, hours without a leading zero, and a negative
duration as negative days and a rest below a day. A literal of TIME has a sign, two or three digits
of hours and no days.
-/

namespace TapMysql

/-! ### Literals -/

/-- Two or three digits of hours. -/
def takeHours (cs : List Char) : Option (ℕ × List Char) :=
  let ds := cs.takeWhile Char.isDigit
  if ds.length = 2 ∨ ds.length = 3 then some (Digits.value ds, cs.dropWhile Char.isDigit) else none

/-- `:NN` below 60. -/
def takeSixty (cs : List Char) : Option (ℕ × List Char) :=
  (takeMarked ':' cs).filter fun r => decide (r.1 < 60)

def takeMicroseconds : List Char → Option (ℕ × List Char)
  | '.' :: cs => takeDigits 6 cs
  | cs => some (0, cs)

def readClock (cs : List Char) : Option ℕ :=
  match takeHours cs with
  | none => none
  | some (hours, cs) =>
    match takeSixty cs with
    | none => none
    | some (minutes, cs) =>
      match takeSixty cs with
      | none => none
      | some (seconds, cs) =>
        match takeMicroseconds cs with
        | some (micro, []) => some (((hours * 60 + minutes) * 60 + seconds) * 1000000 + micro)
        | _ => none

/-- The microseconds that a literal `[-]HH:MM:SS[.ffffff]` denotes. -/
def readTime (s : String) : Option Int :=
  match s.toList with
  | '-' :: cs => (readClock cs).map fun us : ℕ => -(us : Int)
  | cs => (readClock cs).map fun us : ℕ => (us : Int)

example : readTime "-838:59:59.000001" = some (-3020399000001) := by decide

def microsecondsPerHour : Int := 3600 * 1000000

/-! ### The characters of a duration -/

/-- `H:MM:SS[.ffffff]` of a duration below a day. -/
def clockText (us : ℕ) : List Char :=
  Nat.toDigits 10 (us / 1000000 / 3600) ++ (':' :: ((pad 2 (us / 1000000 / 60 % 60)).toList ++
    (':' :: ((pad 2 (us / 1000000 % 60)).toList ++ fractionText (us % 1000000)))))

/-- Within a day the text is the clock alone. -/
theorem toList_timedeltaStr {us : Int} (hnonneg : 0 ≤ us) (hday : us < microsecondsPerDay) :
    (timedeltaStr us).toList = clockText us.toNat := by
  have hdays : us / microsecondsPerDay = 0 := Int.ediv_eq_zero_of_lt hnonneg hday
  have hrest : us % microsecondsPerDay = us := Int.emod_eq_of_lt hnonneg hday
  simp only [timedeltaStr, hdays, hrest, if_true, clockText, fractionText, String.toList_append,
    Digits.toList_toString]
  split_ifs <;> simp

/-- A number of days comes first, and a blank after it. -/
theorem toList_timedeltaStr_days {us : Int} (hdays : us / microsecondsPerDay ≠ 0) :
    ∃ n rest, (timedeltaStr us).toList = Nat.toDigits 10 n ++ ' ' :: rest ∨
      (timedeltaStr us).toList = '-' :: (Nat.toDigits 10 n ++ ' ' :: rest) := by
  have htext : ∃ rest, (timedeltaStr us).toList =
      (toString (us / microsecondsPerDay)).toList ++ (" day".toList ++ rest) := by
    simp only [timedeltaStr, if_neg hdays, String.toList_append, List.append_assoc]
    exact ⟨_, rfl⟩
  have hblank : " day".toList = ' ' :: "day".toList := by decide
  obtain ⟨rest, hrest⟩ := htext
  rw [hblank, List.cons_append] at hrest
  cases hsign : us / microsecondsPerDay with
  | ofNat n =>
    exact ⟨n, _, Or.inl (by rw [hrest, hsign, Digits.toList_ofNat])⟩
  | negSucc n =>
    exact ⟨n + 1, _, Or.inr (by rw [hrest, hsign, Digits.toList_negSucc, List.cons_append])⟩

/-! ### Reading a duration -/

/-- The hours end at the first character that is not a digit. -/
theorem takeHours_append {ds : List Char} (h : Digits.AllDigits ds) {c : Char}
    (hc : c.isDigit = false) (rest : List Char) : takeHours (ds ++ c :: rest) =
      if ds.length = 2 ∨ ds.length = 3 then some (Digits.value ds, c :: rest) else none := by
  have hend : ∀ d ∈ (c :: rest).head?, d.isDigit = false := by simp [hc]
  obtain ⟨htake, hdrop⟩ := Digits.takeWhile_append h hend
  simp only [takeHours, htake, hdrop]

theorem readClock_days (n : ℕ) (rest : List Char) :
    readClock (Nat.toDigits 10 n ++ ' ' :: rest) = none := by
  rw [readClock, takeHours_append (Digits.allDigits_toDigits n) (by decide)]
  split_ifs <;> rfl

theorem takeSixty_pad {n : ℕ} (hn : n < 60) (rest : List Char) :
    takeSixty (':' :: ((pad 2 n).toList ++ rest)) = some (n, rest) := by
  rw [takeSixty, takeMarked_pad ':' (by omega), Option.filter_some, if_pos (decide_eq_true hn)]

theorem takeMicroseconds_fractionText {us : ℕ} (h : us < 1000000) :
    takeMicroseconds (fractionText us) = some (us, []) := by
  rw [fractionText]
  split_ifs with hzero
  · rw [hzero]
    rfl
  · have htake := takeDigits_pad (show 0 < 6 by decide) h []
    rwa [List.append_nil] at htake

/-- A clock is a literal when its hour has two digits. -/
theorem readClock_clockText {us : ℕ} (hday : us < 86400000000) :
    readClock (clockText us) = if 36000000000 ≤ us then some us else none := by
  have hlength : (Nat.toDigits 10 (us / 1000000 / 3600)).length ≤ 2 :=
    (Nat.length_toDigits_le_iff (by omega) (by omega)).mpr (by omega)
  have hlengthOne : (Nat.toDigits 10 (us / 1000000 / 3600)).length ≤ 1 ↔ us < 36000000000 := by
    rw [Nat.length_toDigits_le_iff (by omega) (by omega)]
    omega
  rw [readClock, clockText, takeHours_append (Digits.allDigits_toDigits _) (by decide)]
  by_cases hhours : 36000000000 ≤ us
  · rw [if_pos (by omega), if_pos hhours]
    simp only [takeSixty_pad (show us / 1000000 / 60 % 60 < 60 by omega),
      takeSixty_pad (show us / 1000000 % 60 < 60 by omega),
      takeMicroseconds_fractionText (show us % 1000000 < 1000000 by omega), Digits.value_toDigits]
    congr 1
    omega
  · rw [if_neg (by omega), if_neg hhours]

theorem readTime_of_digits {s : String} {n : ℕ} {rest : List Char}
    (h : s.toList = Nat.toDigits 10 n ++ rest) :
    readTime s = (readClock s.toList).map fun us : ℕ => (us : Int) := by
  obtain ⟨c, cs, hdigits, hc⟩ := Digits.toDigits_head n
  rw [readTime, h, hdigits, List.cons_append]
  split
  · rename_i heq
    exact absurd (List.cons.inj heq).1 hc
  · rfl

/-- What a reader of literals makes of the text of a duration. -/
theorem readTime_timedeltaStr (us : Int) : readTime (timedeltaStr us) =
    if 10 * microsecondsPerHour ≤ us ∧ us < 24 * microsecondsPerHour then some us else none := by
  have hhour : microsecondsPerHour = 3600000000 := rfl
  have hday : microsecondsPerDay = 86400000000 := rfl
  rw [hhour]
  by_cases hdays : us / microsecondsPerDay = 0
  · rw [hday] at hdays
    have htext : (timedeltaStr us).toList = clockText us.toNat :=
      toList_timedeltaStr (by omega) (by omega)
    rw [readTime_of_digits htext, htext, readClock_clockText (by omega)]
    split_ifs with hread hrange hrange
    · exact congrArg some (Int.toNat_of_nonneg (by omega))
    · omega
    · omega
    · rfl
  · obtain ⟨n, rest, htext⟩ := toList_timedeltaStr_days hdays
    rw [hday] at hdays
    rw [if_neg (by omega)]
    rcases htext with htext | htext
    · rw [readTime_of_digits htext, htext, readClock_days]
      rfl
    · rw [readTime, htext]
      exact congrArg (Option.map _) (readClock_days n rest)

/-! ### Columns of the type TIME -/

section Column

variable {e : CatalogEntry} {c : String} {p : PropSchema}

theorem renderElem_time (hformat : p.format = some "time") (us : Int) :
    renderElem p (.timedelta us) = .ok (.str (timedeltaStr us)) := by
  rw [renderElem, if_pos hformat]

theorem renderValue_time (hformat : p.format = some "time") (lib : Binlog.RenderLib)
    (col : Option Binlog.DbColumn) (us : Int) :
    Binlog.renderValue lib p col (.timedelta us) = .ok (.str (timedeltaStr us)) := by
  rw [Binlog.renderValue, if_pos hformat]

/-- Both paths write a duration as a literal of TIME that denotes it, and that no other duration
is written as, exactly from 10:00:00 up to a day. -/
theorem time_text_iff (hp : e.schema.get? c = some p) (hformat : p.format = some "time")
    (lib : Binlog.RenderLib) (columns : List Binlog.DbColumn) (us : Int) :
    (∃ text, SnapshotReads e c (.timedelta us) (.str text) ∧
      BinlogReads lib e columns c (.timedelta us) (.str text) ∧ readTime text = some us ∧
      ∀ us', SnapshotReads e c (.timedelta us') (.str text) → us' = us) ↔
    10 * microsecondsPerHour ≤ us ∧ us < 24 * microsecondsPerHour := by
  have hsnapshot : ∀ us text, SnapshotReads e c (.timedelta us) (.str text) ↔
      timedeltaStr us = text := fun us text =>
    (snapshotReads_iff hp (renderElem_time hformat us)).trans (by rw [Val.str.injEq])
  have hbinlog : ∀ text, BinlogReads lib e columns c (.timedelta us) (.str text) ↔
      timedeltaStr us = text := fun text =>
    (binlogReads_iff hp (renderValue_time hformat lib _ us)).trans (by rw [Val.str.injEq])
  simp only [hsnapshot, hbinlog]
  have hread := readTime_timedeltaStr us
  constructor
  · intro h
    obtain ⟨text, rfl, -, htime, -⟩ := h
    by_contra hrange
    rw [htime, if_neg hrange] at hread
    cases hread
  · intro hrange
    rw [if_pos hrange] at hread
    refine ⟨timedeltaStr us, rfl, rfl, hread, fun us' heq => ?_⟩
    have hread' := readTime_timedeltaStr us'
    rw [heq, hread] at hread'
    split_ifs at hread'
    exact (Option.some.inj hread').symm

end Column

namespace Sample

/-- Table `db.t` with a column `d` of the type TIME. -/
def timeEntry : CatalogEntry where
  tapStreamId := "db-t"
  stream := "db-t"
  table := "t"
  metadata := Dict.empty
  schema := Dict.ofList
    [("d", { PropSchema.blank with
      type := some ["null", "string"], format := some "time", inclusion := some .available })]

def timeColumns : List Binlog.DbColumn := [⟨some "d", 11, none⟩]

end Sample

open Sample

theorem time_text_iff_evening : ∃ text, SnapshotReads timeEntry "d" (.timedelta 86399000001)
      (.str text) ∧
    BinlogReads Binlog.Sample.lib timeEntry timeColumns "d" (.timedelta 86399000001) (.str text) ∧
    readTime text = some 86399000001 ∧
    ∀ us', SnapshotReads timeEntry "d" (.timedelta us') (.str text) → us' = 86399000001 :=
  (time_text_iff rfl rfl Binlog.Sample.lib timeColumns 86399000001).mpr (by decide)

/-- An hour below zero is written with days, and two hours without a leading zero. -/
theorem time_text_not_literal :
    SnapshotReads timeEntry "d" (.timedelta (-3600000000)) (.str "-1 day, 23:00:00") ∧
      BinlogReads Binlog.Sample.lib timeEntry timeColumns "d" (.timedelta (-3600000000))
        (.str "-1 day, 23:00:00") ∧
      (¬∃ text, SnapshotReads timeEntry "d" (.timedelta (-3600000000)) (.str text) ∧
        readTime text = some (-3600000000)) ∧
      SnapshotReads timeEntry "d" (.timedelta 7200000000) (.str "2:00:00") ∧
      readTime "2:00:00" = none := by
  have hnegative : readTime "-1 day, 23:00:00" = none := by decide
  refine ⟨(snapshotReads_iff rfl rfl).mpr (by decide), (binlogReads_iff rfl rfl).mpr (by decide),
    fun h => ?_, (snapshotReads_iff rfl rfl).mpr (by decide), by decide⟩
  obtain ⟨text, hreads, htime⟩ := h
  have htext : Val.str "-1 day, 23:00:00" = .str text :=
    Eq.trans (by decide) ((snapshotReads_iff (c := "d") rfl rfl).mp hreads)
  obtain rfl := Val.str.inj htext
  exact absurd (hnegative.symm.trans htime) (by decide)

end TapMysql
