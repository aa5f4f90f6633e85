import Mathlib.Data.List.Basic
import Mathlib.Data.Rat.Defs
import TapMysql.Lib.Digits

/-!
# Values of the tap

The values that a MySQL client hands over, that a record carries and that a bookmark stores.
A `datetime` is naive, as both clients deliver it. A double and a decimal are the rational
they denote. A `dict` keeps its items in order, with keys that may be strings or byte strings.
-/

namespace TapMysql

structure Date where
  year : Nat
  month : Nat
  day : Nat
  deriving DecidableEq, Repr

structure DateTime extends Date where
  hour : Nat
  minute : Nat
  second : Nat
  microsecond : Nat
  deriving DecidableEq, Repr

inductive Val where
  | null
  | bool (b : Bool)
  | int (n : Int)
  | float (q : Rat)
  | decimal (q : Rat)
  | str (s : String)
  | bytes (bs : List UInt8)
  | datetime (d : DateTime)
  | date (d : Date)
  | timedelta (microseconds : Int)
  | list (xs : List Val)
  | tuple (xs : List Val)
  | dict (items : List (Val × Val))
  deriving Inhabited

namespace Val

-- one argument is matched first, so that the recursion is structural and equality evaluates
mutual

def beq : Val → Val → Bool
  | .null, b => match b with | .null => true | _ => false
  | .bool a, b => match b with | .bool b => decide (a = b) | _ => false
  | .int a, b => match b with | .int b => decide (a = b) | _ => false
  | .float a, b => match b with | .float b => decide (a = b) | _ => false
  | .decimal a, b => match b with | .decimal b => decide (a = b) | _ => false
  | .str a, b => match b with | .str b => decide (a = b) | _ => false
  | .bytes a, b => match b with | .bytes b => decide (a = b) | _ => false
  | .datetime a, b => match b with | .datetime b => decide (a = b) | _ => false
  | .date a, b => match b with | .date b => decide (a = b) | _ => false
  | .timedelta a, b => match b with | .timedelta b => decide (a = b) | _ => false
  | .list a, b => match b with | .list b => beqList a b | _ => false
  | .tuple a, b => match b with | .tuple b => beqList a b | _ => false
  | .dict a, b => match b with | .dict b => beqItems a b | _ => false
termination_by structural a => a

def beqList : List Val → List Val → Bool
  | [], b => b.isEmpty
  | a :: as, b => match b with | b :: bs => beq a b && beqList as bs | [] => false
termination_by structural a => a

def beqItems : List (Val × Val) → List (Val × Val) → Bool
  | [], b => b.isEmpty
  | a :: as, b => match b with | b :: bs => beqItem a b && beqItems as bs | [] => false
termination_by structural a => a

def beqItem : Val × Val → Val × Val → Bool
  | (k, v), b => beq k b.1 && beq v b.2
termination_by structural a => a

end

mutual

theorem beq_iff : ∀ a b : Val, beq a b = true ↔ a = b
  | .null, b => by cases b <;> simp [beq]
  | .bool _, b => by cases b <;> simp [beq]
  | .int _, b => by cases b <;> simp [beq]
  | .float _, b => by cases b <;> simp [beq]
  | .decimal _, b => by cases b <;> simp [beq]
  | .str _, b => by cases b <;> simp [beq]
  | .bytes _, b => by cases b <;> simp [beq]
  | .datetime _, b => by cases b <;> simp [beq]
  | .date _, b => by cases b <;> simp [beq]
  | .timedelta _, b => by cases b <;> simp [beq]
  | .list xs, b => by cases b <;> simp [beq, beqList_iff xs]
  | .tuple xs, b => by cases b <;> simp [beq, beqList_iff xs]
  | .dict xs, b => by cases b <;> simp [beq, beqItems_iff xs]

theorem beqList_iff : ∀ a b : List Val, beqList a b = true ↔ a = b
  | [], b => by cases b <;> simp [beqList]
  | x :: xs, b => by cases b <;> simp [beqList, beq_iff x, beqList_iff xs]

theorem beqItems_iff : ∀ a b : List (Val × Val), beqItems a b = true ↔ a = b
  | [], b => by cases b <;> simp [beqItems]
  | x :: xs, b => by cases b <;> simp [beqItems, beqItem_iff x, beqItems_iff xs]

theorem beqItem_iff : ∀ a b : Val × Val, beqItem a b = true ↔ a = b
  | (k, v), (k', v') => by simp [beqItem, beq_iff k, beq_iff v]

end

instance : DecidableEq Val := fun a b => decidable_of_iff (beq a b = true) (beq_iff a b)

/-- A value without parts that is not a byte string. -/
def isScalar : Val → Bool
  | .bytes _ => false
  | .list _ => false
  | .tuple _ => false
  | .dict _ => false
  | _ => true

/-- Induction on a value with a hypothesis for each element, key and value in it. -/
@[elab_as_elim]
theorem induct {P : Val → Prop} (scalar : ∀ v, v.isScalar = true → P v)
    (bytes : ∀ bs, P (.bytes bs)) (list : ∀ xs, (∀ x ∈ xs, P x) → P (.list xs))
    (tuple : ∀ xs, (∀ x ∈ xs, P x) → P (.tuple xs))
    (dict : ∀ items, (∀ i ∈ items, P i.1 ∧ P i.2) → P (.dict items)) (v : Val) : P v :=
  @Val.rec P (fun xs => ∀ x ∈ xs, P x) (fun items => ∀ i ∈ items, P i.1 ∧ P i.2)
    (fun i => P i.1 ∧ P i.2) (scalar _ rfl) (fun _ => scalar _ rfl) (fun _ => scalar _ rfl)
    (fun _ => scalar _ rfl) (fun _ => scalar _ rfl) (fun _ => scalar _ rfl) bytes
    (fun _ => scalar _ rfl) (fun _ => scalar _ rfl) (fun _ => scalar _ rfl) list tuple dict
    (by simp) (fun _ _ hx hxs => List.forall_mem_cons.mpr ⟨hx, hxs⟩) (by simp)
    (fun _ _ hi his => List.forall_mem_cons.mpr ⟨hi, his⟩) (fun _ _ hk hv => ⟨hk, hv⟩) v

/-- The truth value Python gives to a value in a condition. -/
def truthy : Val → Bool
  | .null => false
  | .bool b => b
  | .int n => decide (n ≠ 0)
  | .float q => decide (q ≠ 0)
  | .decimal q => decide (q ≠ 0)
  | .str s => decide (s ≠ "")
  | .bytes bs => !bs.isEmpty
  | .datetime _ => true
  | .date _ => true
  | .timedelta us => decide (us ≠ 0)
  | .list xs => !xs.isEmpty
  | .tuple xs => !xs.isEmpty
  | .dict items => !items.isEmpty

@[simp] theorem truthy_null : Val.null.truthy = false := rfl

/-- `val in (0, b'\x00')`: a number equal to zero, `False`, or the single zero byte. -/
def isZero : Val → Bool
  | .bool b => !b
  | .int n => decide (n = 0)
  | .float q => decide (q = 0)
  | .decimal q => decide (q = 0)
  | .bytes bs => decide (bs = [0])
  | _ => false

end Val

/-! ### Text forms -/

def padLeft (width : Nat) (s : String) : String :=
  String.ofList (List.replicate (width - s.length) '0') ++ s

def pad (width n : Nat) : String := padLeft width (toString n)

theorem toList_pad (width n : ℕ) : (pad width n).toList =
    List.replicate (width - (Nat.toDigits 10 n).length) '0' ++ Nat.toDigits 10 n := by
  have hlength : (toString n).length = (Nat.toDigits 10 n).length := by
    rw [← String.length_toList, Digits.toList_toString]
  rw [pad, padLeft, String.toList_append, String.toList_ofList, hlength,
    Digits.toList_toString]

theorem length_toList_pad (width n : ℕ) :
    (pad width n).toList.length = max width (Nat.toDigits 10 n).length := by
  rw [toList_pad, List.length_append, List.length_replicate]
  omega

theorem allDigits_pad (width n : ℕ) : Digits.AllDigits (pad width n).toList := by
  intro c hc
  rw [toList_pad, List.mem_append, List.mem_replicate] at hc
  rcases hc with ⟨-, rfl⟩ | hc
  · rfl
  · exact Nat.isDigit_of_mem_toDigits (by omega) (by omega) hc

theorem value_pad (width n : ℕ) : Digits.value (pad width n).toList = n := by
  rw [Digits.value, toList_pad, Nat.ofDigitChars_append, Nat.ofDigitChars_replicate_zero,
    Nat.mul_zero, Nat.ofDigitChars_ten_toDigits]

theorem length_pad_of_lt {width n : ℕ} (hwidth : 0 < width) (h : n < 10 ^ width) :
    (pad width n).toList.length = width := by
  have hle := (Nat.length_toDigits_le_iff (by omega) hwidth).mpr h
  rw [length_toList_pad]
  omega

def Date.isoformat (d : Date) : String := pad 4 d.year ++ "-" ++ pad 2 d.month ++ "-" ++ pad 2 d.day

def DateTime.isoformat (d : DateTime) : String :=
  d.toDate.isoformat ++ "T" ++ pad 2 d.hour ++ ":" ++ pad 2 d.minute ++ ":" ++ pad 2 d.second ++
    if d.microsecond = 0 then "" else "." ++ pad 6 d.microsecond

def microsecondsPerDay : Int := 86400 * 1000000

/-- `str(timedelta)`: a negative duration is a negative number of days and a rest below a day. -/
def timedeltaStr (us : Int) : String :=
  let days := us / microsecondsPerDay
  let rest := (us % microsecondsPerDay).toNat
  let seconds := rest / 1000000
  let clock := toString (seconds / 3600) ++ ":" ++ pad 2 (seconds / 60 % 60) ++ ":" ++
    pad 2 (seconds % 60)
  let micro := rest % 1000000
  (if days = 0 then ""
    else toString days ++ " day" ++ (if days.natAbs = 1 then "" else "s") ++ ", ") ++
    clock ++ if micro = 0 then "" else "." ++ pad 6 micro

/-- The proleptic Gregorian date that lies `days` days after 1970-01-01. -/
def dateOfEpochDays (days : Int) : Date :=
  let z := days + 719468
  let era := z / 146097
  let doe := (z % 146097).toNat
  let yoe := (doe - doe / 1460 + doe / 36524 - doe / 146096) / 365
  let doy := doe - (365 * yoe + yoe / 4 - yoe / 100)
  let mp := (5 * doy + 2) / 153
  let month := if mp < 10 then mp + 3 else mp - 9
  let year := yoe + era * 400 + if month ≤ 2 then 1 else 0
  ⟨year.toNat, month, doy - (153 * mp + 2) / 5 + 1⟩

/-- The moment `us` microseconds after the Unix epoch, in UTC. -/
def dateTimeOfEpoch (us : Int) : DateTime :=
  let rest := (us % microsecondsPerDay).toNat
  let seconds := rest / 1000000
  { dateOfEpochDays (us / microsecondsPerDay) with
    hour := seconds / 3600
    minute := seconds / 60 % 60
    second := seconds % 60
    microsecond := rest % 1000000 }

def hexDigit (n : Nat) : Char :=
  "0123456789abcdef".toList.getD n '0'

/-- `codecs.encode(val, 'hex').decode('utf-8')`. -/
def hexEncode (bs : List UInt8) : String :=
  String.ofList (bs.flatMap fun b => [hexDigit (b.toNat / 16), hexDigit (b.toNat % 16)])

/-- `str.ljust(width, '0')`. -/
def ljustZero (width : Nat) (s : String) : String :=
  s ++ String.ofList (List.replicate (width - s.length) '0')

def intFromBytesLittle : List UInt8 → Nat
  | [] => 0
  | b :: bs => b.toNat + 256 * intFromBytesLittle bs

def intFromBytesBig (bs : List UInt8) : Nat := intFromBytesLittle bs.reverse

/-! ### Parsing -/

def isSpace (c : Char) : Bool := [' ', '\t', '\n', '\r', '\x0b', '\x0c'].contains c

def digitValue (c : Char) : Nat := c.toNat - '0'.toNat

/-- The digits of an integer literal, read into `acc`; an underscore may stand between two
digits. `after` says whether the last character read was a digit. -/
def readDigits : Bool → Nat → List Char → Option Nat
  | after, acc, [] => if after then some acc else none
  | after, acc, c :: cs =>
    if c.isDigit then readDigits true (10 * acc + digitValue c) cs
    else if c = '_' && after then readDigits false acc cs
    else none

/-- `int(text)`. -/
def pyInt (s : String) : Option Int :=
  let trimmed := ((s.toList.dropWhile isSpace).reverse.dropWhile isSpace).reverse
  match trimmed with
  | '-' :: ds => (readDigits false 0 ds).map fun n => -(n : Int)
  | '+' :: ds => (readDigits false 0 ds).map fun n => (n : Int)
  | ds => (readDigits false 0 ds).map fun n => (n : Int)

theorem readDigits_of_isDigit {ds : List Char} (h : ∀ c ∈ ds, c.isDigit) (after : Bool) (acc : Nat)
    (hne : ds ≠ [] ∨ after = true) :
    readDigits after acc ds = some (Nat.ofDigitChars 10 ds acc) := by
  induction ds generalizing after acc with
  | nil =>
    have hafter : after = true := by simpa using hne
    simp [readDigits, hafter]
  | cons c ds ih =>
    rw [readDigits, if_pos (h c List.mem_cons_self),
      ih (fun d hd => h d (List.mem_cons_of_mem c hd)) true _ (.inr rfl), Nat.ofDigitChars_cons,
      digitValue]

theorem not_isSpace_of_isDigit {c : Char} (h : c.isDigit = true) : isSpace c = false := by
  have hge : 48 ≤ c.toNat := by
    simp only [Char.isDigit, Bool.and_eq_true, decide_eq_true_eq] at h
    exact h.1
  simp only [isSpace, List.contains_eq_mem, decide_eq_false_iff_not]
  intro hmem
  simp only [List.mem_cons, List.not_mem_nil, or_false] at hmem
  rcases hmem with rfl | rfl | rfl | rfl | rfl | rfl <;> exact absurd hge (by decide)

theorem dropWhile_isSpace {ds : List Char} (h : ∀ c ∈ ds, c.isDigit) :
    ds.dropWhile isSpace = ds := by
  cases ds with
  | nil => rfl
  | cons c ds =>
    rw [List.dropWhile_cons, not_isSpace_of_isDigit (h c List.mem_cons_self)]
    rfl

theorem pyInt_of_isDigit {s : String} (h : ∀ c ∈ s.toList, c.isDigit) (hne : s ≠ "") :
    pyInt s = some ((Nat.ofDigitChars 10 s.toList 0 : ℕ) : Int) := by
  have hnil : s.toList ≠ [] := fun hs => hne (String.toList_eq_nil_iff.mp hs)
  have hread := readDigits_of_isDigit h false 0 (.inl hnil)
  have hreverse : s.toList.reverse.dropWhile isSpace = s.toList.reverse :=
    dropWhile_isSpace fun c hc => h c (List.mem_reverse.mp hc)
  simp only [pyInt, dropWhile_isSpace h, hreverse, List.reverse_reverse]
  split
  · rename_i hs
    have := h '-' (by rw [hs]; exact List.mem_cons_self)
    exact absurd this (by decide)
  · rename_i hs
    have := h '+' (by rw [hs]; exact List.mem_cons_self)
    exact absurd this (by decide)
  · rw [hread]
    rfl

def splitChars (sep : Char) : List Char → List (List Char)
  | [] => [[]]
  | c :: cs =>
    if c = sep then [] :: splitChars sep cs
    else match splitChars sep cs with
      | [] => [[c]]
      | w :: ws => (c :: w) :: ws

/-- `text.split(sep)` for a separator of one character. -/
def splitOn (sep : Char) (s : String) : List String :=
  (splitChars sep s.toList).map String.ofList

example : pyInt " 1_000 " = some 1000 := by decide

example : splitOn '-' "0-1-57" = ["0", "1", "57"] := by decide

example : timedeltaStr (-3600 * 1000000) = "-1 day, 23:00:00" := by decide

end TapMysql
