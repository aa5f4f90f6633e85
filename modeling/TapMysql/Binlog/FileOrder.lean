import Mathlib.Data.List.Dedup
import TapMysql.Lib.Digits
import TapMysql.Binlog.Bookmark
import TapMysql.Binlog.Steps

/-!
# The order of binlog files

A server names its binlog files by a counter that is padded to six digits and may grow beyond. The
tap compares the names as texts, in `calculate_bookmark` and in the stop test of the loop.
-/

namespace TapMysql.Binlog

open Digits (AllDigits value)

/-! ### Names -/

/-- The name of the file with the number `n`. -/
def binlogFileName (base : String) (n : ℕ) : String := base ++ "." ++ pad 6 n

def suffixDigits (n : ℕ) : List Char := (pad 6 n).toList

def suffixWidth (n : ℕ) : ℕ := max 6 (Nat.toDigits 10 n).length

theorem length_suffixDigits (n : ℕ) : (suffixDigits n).length = suffixWidth n :=
  length_toList_pad 6 n

theorem allDigits_suffixDigits (n : ℕ) : AllDigits (suffixDigits n) := allDigits_pad 6 n

theorem value_suffixDigits (n : ℕ) : value (suffixDigits n) = n := value_pad 6 n

theorem suffixWidth_mono {m n : ℕ} (h : m ≤ n) : suffixWidth m ≤ suffixWidth n := by
  have hpos : 0 < (Nat.toDigits 10 n).length := Nat.length_toDigits_pos
  have hn : n < 10 ^ (Nat.toDigits 10 n).length :=
    (Nat.length_toDigits_le_iff (by omega) hpos).mp le_rfl
  have hle : (Nat.toDigits 10 m).length ≤ (Nat.toDigits 10 n).length :=
    (Nat.length_toDigits_le_iff (by omega) hpos).mpr (lt_of_le_of_lt h hn)
  rw [suffixWidth, suffixWidth]
  omega

theorem binlogFileName_lt_iff (base : String) (m n : ℕ) :
    binlogFileName base m < binlogFileName base n ↔ suffixDigits m < suffixDigits n := by
  have hname : ∀ k, (binlogFileName base k).toList = (base ++ ".").toList ++ suffixDigits k :=
    fun k => by rw [binlogFileName, String.toList_append, suffixDigits]
  rw [String.lt_iff_toList_lt, hname, hname]
  constructor
  · intro h
    rcases lt_trichotomy (suffixDigits m) (suffixDigits n) with hlt | heq | hgt
    · exact hlt
    · rw [heq] at h
      exact absurd h (lt_irrefl _)
    · exact absurd h (lt_asymm (List.append_left_lt hgt))
  · exact fun h => List.append_left_lt h

theorem binlogFileName_inj {base : String} {m n : ℕ} :
    binlogFileName base m = binlogFileName base n ↔ m = n := by
  constructor
  · intro h
    have hsuffix : pad 6 m = pad 6 n := by
      simpa [binlogFileName, String.ext_iff] using h
    have hvalue := congrArg (fun s : String => value s.toList) hsuffix
    have hm := value_suffixDigits m
    have hn := value_suffixDigits n
    rw [suffixDigits] at hm hn
    simp only [hm, hn] at hvalue
    exact hvalue
  · rintro rfl
    rfl

/-- The smaller number is at most the leading digits of the larger one. With suffixes of one width
this always holds. -/
def SuffixesInOrder (m n : ℕ) : Prop :=
  min m n ≤ max m n / 10 ^ (suffixWidth (max m n) - suffixWidth (min m n))

instance (m n : ℕ) : Decidable (SuffixesInOrder m n) := inferInstanceAs (Decidable (_ ≤ _))

theorem SuffixesInOrder.symm {m n : ℕ} (h : SuffixesInOrder m n) : SuffixesInOrder n m := by
  rw [SuffixesInOrder, min_comm, max_comm]
  exact h

theorem suffixesInOrder_self (n : ℕ) : SuffixesInOrder n n := by
  simp [SuffixesInOrder]

theorem binlogFileName_lt_of_lt_iff (base : String) {m n : ℕ} (h : m < n) :
    binlogFileName base m < binlogFileName base n ↔ SuffixesInOrder m n := by
  have hm := allDigits_suffixDigits m
  have hn := allDigits_suffixDigits n
  have hle := suffixWidth_mono (le_of_lt h)
  rw [binlogFileName_lt_iff, SuffixesInOrder, min_eq_left (le_of_lt h), max_eq_right (le_of_lt h)]
  rcases eq_or_lt_of_le hle with hwidth | hwidth
  · have hlength : (suffixDigits m).length = (suffixDigits n).length := by
      rw [length_suffixDigits, length_suffixDigits, hwidth]
    rw [Digits.lt_iff_value_lt hm hn hlength, value_suffixDigits, value_suffixDigits, hwidth,
      Nat.sub_self, Nat.pow_zero, Nat.div_one]
    omega
  · have hlength : (suffixDigits m).length < (suffixDigits n).length := by
      rw [length_suffixDigits, length_suffixDigits]
      exact hwidth
    rw [Digits.lt_iff_value_le hm hn hlength, value_suffixDigits, value_suffixDigits,
      length_suffixDigits, length_suffixDigits]

/-- The names compare as the numbers exactly when the suffixes are in order. -/
theorem binlogFileName_order_iff (base : String) (m n : ℕ) :
    (binlogFileName base m < binlogFileName base n ↔ m < n) ↔ SuffixesInOrder m n := by
  rcases lt_trichotomy m n with hlt | rfl | hgt
  · rw [binlogFileName_lt_of_lt_iff base hlt]
    exact iff_true_right hlt
  · simp [suffixesInOrder_self]
  · have hne : binlogFileName base m ≠ binlogFileName base n := by
      rw [Ne, binlogFileName_inj]
      omega
    have hnot : ¬ m < n := by omega
    rw [iff_false_right hnot, not_lt, le_iff_lt_or_eq, or_iff_left hne.symm,
      binlogFileName_lt_of_lt_iff base hgt]
    exact ⟨SuffixesInOrder.symm, SuffixesInOrder.symm⟩

/-! ### The earliest bookmark -/

/-- The bookmarks of the streams of the map. -/
def mapBookmarks (m : StreamsMap) (entries : List (String × Bookmark)) : List Bookmark :=
  (entries.filter fun s => m.contains s.1).map Prod.snd

/-- The minimum per file covers the bookmarks `bs`: each of them has its file in it with a position
that is not greater, and every file in it is one of theirs. -/
structure Covers (minPerFile : Dict Val MinLogPos) (bs : List Bookmark) : Prop where
  least : ∀ b ∈ bs, ∃ found, minPerFile.get? ((b.get? "log_file").getD .null) = some found ∧
    gtVal found.logPos ((b.get? "log_pos").getD .null) ≠ .ok true
  file : ∀ f ∈ minPerFile.keys, ∃ b ∈ bs, (b.get? "log_file").getD .null = f

theorem gtVal_self (a : Val) : gtVal a a ≠ .ok true := by
  cases a <;> simp [gtVal]

theorem gtVal_trans {a b c : Val} (hab : gtVal a b = .ok true) (hac : gtVal a c ≠ .ok true) :
    gtVal b c ≠ .ok true := by
  cases a with
  | int a =>
    cases b with
    | int b =>
      cases c with
      | int c =>
        simp only [gtVal, ne_eq, Except.ok.injEq, decide_eq_true_eq] at hab hac ⊢
        omega
      | _ => simp [gtVal]
    | _ => simp [gtVal] at hab
  | str a =>
    cases b with
    | str b =>
      cases c with
      | str c =>
        simp only [gtVal, ne_eq, Except.ok.injEq, decide_eq_true_eq] at hab hac ⊢
        exact fun hbc => hac (lt_trans hbc hab)
      | _ => simp [gtVal]
    | _ => simp [gtVal] at hab
  | _ => simp [gtVal] at hab

theorem Covers.add {minPerFile minPerFile' : Dict Val MinLogPos} {bs : List Bookmark} {t : String}
    {b : Bookmark} (h : Covers minPerFile bs) (hadd : addLogPos minPerFile t b = .ok minPerFile') :
    Covers minPerFile' (bs ++ [b]) := by
  set f := (b.get? "log_file").getD .null with hf
  set q := (b.get? "log_pos").getD .null with hq
  -- the entry of the file of `b` is written, and its position is not greater than before
  have hentry : ∃ new, minPerFile' = minPerFile.set f new ∧ gtVal new.logPos q ≠ .ok true ∧
      ∀ old, minPerFile.get? f = some old → ∀ x, gtVal old.logPos x ≠ .ok true →
        gtVal new.logPos x ≠ .ok true := by
    rw [addLogPos, ← hf, ← hq] at hadd
    split at hadd
    · rename_i hnone
      exact ⟨_, (Except.ok.inj hadd).symm, gtVal_self q, fun old hold => by simp [hnone] at hold⟩
    · rename_i found hfound
      split at hadd
      · cases hadd
      · rename_i hgt
        refine ⟨_, (Except.ok.inj hadd).symm, gtVal_self q, fun old hold x hx => ?_⟩
        rw [hfound, Option.some.injEq] at hold
        exact gtVal_trans hgt (hold ▸ hx)
      · rename_i hgt
        refine ⟨_, (Except.ok.inj hadd).symm, by simp [hgt], fun old hold x hx => ?_⟩
        rw [hfound, Option.some.injEq] at hold
        exact hold ▸ hx
  obtain ⟨new, rfl, hnew, hold⟩ := hentry
  constructor
  · intro b' hb'
    rw [List.mem_append, List.mem_singleton] at hb'
    rcases hb' with hb' | rfl
    · obtain ⟨found, hget, hgt⟩ := h.least b' hb'
      by_cases hsame : f = (b'.get? "log_file").getD .null
      · rw [← hsame] at hget ⊢
        exact ⟨new, by rw [Dict.get?_set, if_pos rfl], hold found hget _ hgt⟩
      · exact ⟨found, by rw [Dict.get?_set_ne _ _ hsame, hget], hgt⟩
    · exact ⟨new, by rw [Dict.get?_set, if_pos rfl], hnew⟩
  · intro g hg
    rcases Dict.mem_keys_set.mp hg with rfl | hg
    · exact ⟨b, List.mem_append_right _ (List.mem_singleton_self b), rfl⟩
    · obtain ⟨b', hb', hfile⟩ := h.file g hg
      exact ⟨b', List.mem_append_left _ hb', hfile⟩

theorem minLogPosLoop_covers {m : StreamsMap} {entries : List (String × Bookmark)}
    {minPerFile minPerFile' : Dict Val MinLogPos} {bs : List Bookmark} (h : Covers minPerFile bs)
    (hloop : minLogPosLoop m entries minPerFile = .ok minPerFile') :
    Covers minPerFile' (bs ++ mapBookmarks m entries) := by
  induction entries generalizing minPerFile bs with
  | nil =>
    cases hloop
    simpa [mapBookmarks] using h
  | cons s rest ih =>
    obtain ⟨t, b⟩ := s
    rw [minLogPosLoop] at hloop
    split at hloop
    · rename_i hm
      split at hloop
      · cases hloop
      · rename_i added hadded
        have hrest := ih (h.add hadded) hloop
        simpa [mapBookmarks, hm] using hrest
    · rename_i hm
      have hrest := ih h hloop
      simpa [mapBookmarks, hm] using hrest

theorem firstLogFile_ok {minPerFile : Dict Val MinLogPos} {files : List String} {f : String}
    {p : Val} (h : firstLogFile minPerFile files = .ok (f, p)) :
    (∃ found, minPerFile.get? (.str f) = some found ∧ found.logPos = p) ∧
      ∀ g ∈ files, files.Pairwise (· ≤ ·) → .str g ∈ minPerFile.keys → f ≤ g := by
  induction files with
  | nil => cases h
  | cons g files ih =>
    rw [firstLogFile] at h
    split at h
    · rename_i found hfound
      cases h
      refine ⟨⟨found, hfound, rfl⟩, fun g' hg' hsorted _ => ?_⟩
      rcases List.mem_cons.mp hg' with rfl | hg'
      · exact le_rfl
      · exact List.rel_of_pairwise_cons hsorted hg'
    · rename_i hnone
      obtain ⟨hfound, hleast⟩ := ih h
      refine ⟨hfound, fun g' hg' hsorted hkey => ?_⟩
      rcases List.mem_cons.mp hg' with rfl | hg'
      · exact absurd hkey (Dict.get?_eq_none.mp hnone)
      · exact hleast g' hg' hsorted.of_cons hkey

/-- The position that is returned is in the first file by name that a bookmark names, and no
bookmark in that file has a smaller position. Every bookmarked file is one of the server's. -/
theorem calculateBookmark_ok {server : Server} {m : StreamsMap} {st : State} {f : String} {p : Val}
    (h : calculateBookmark server m st = .ok (f, p)) :
    (∃ b ∈ mapBookmarks m st.bookmarks.entries, (b.get? "log_file").getD .null = .str f) ∧
    ∀ b ∈ mapBookmarks m st.bookmarks.entries, ∃ g ∈ server.binaryLogs,
      (b.get? "log_file").getD .null = .str g ∧ f ≤ g ∧
      (f = g → gtVal p ((b.get? "log_pos").getD .null) ≠ .ok true) := by
  rw [calculateBookmark] at h
  split at h
  · cases h
  · rename_i minPerFile hmin
    have hstart : Covers Dict.empty [] := ⟨by simp, by simp [Dict.keys, Dict.empty]⟩
    have hcovers : Covers minPerFile (mapBookmarks m st.bookmarks.entries) :=
      minLogPosLoop_covers hstart hmin
    split at h
    · cases h
    · dsimp only at h
      split at h
      · rename_i hexpired
        obtain ⟨⟨found, hfound, rfl⟩, hleast⟩ := firstLogFile_ok h
        refine ⟨hcovers.file _ (Dict.mem_keys_iff.mpr ⟨found, hfound⟩), fun b hb => ?_⟩
        obtain ⟨entry, hentry, hgt⟩ := hcovers.least b hb
        have hkey : (b.get? "log_file").getD .null ∈ minPerFile.keys :=
          Dict.mem_keys_iff.mpr ⟨entry, hentry⟩
        -- no file of the state is expired
        have hserver : (b.get? "log_file").getD .null ∈ server.binaryLogs.map Val.str := by
          have := List.filter_eq_nil_iff.mp (List.isEmpty_iff.mp hexpired) _ hkey
          simpa using this
        obtain ⟨g, hg, hfile⟩ := List.mem_map.mp hserver
        rw [← hfile] at hkey hentry ⊢
        refine ⟨g, hg, rfl, ?_, ?_⟩
        · refine hleast g ?_ (List.pairwise_insertionSort _ _) hkey
          rw [List.mem_insertionSort, List.mem_dedup]
          exact hg
        · rintro rfl
          rw [hfound, Option.some.injEq] at hentry
          exact hentry ▸ hgt
      · split at h <;> cases h

/-! ### The order of creation -/

/-- The place `(n, p)` is not later than `(k, q)`: it is in an older file, or in the same one and
its position is not greater. -/
def NotLater (n : ℕ) (p : Val) (k : ℕ) (q : Val) : Prop :=
  n < k ∨ n = k ∧ gtVal p q ≠ .ok true

/-- The reader is at the captured end or behind it. -/
def AtOrAfter (n pos last endPos : ℕ) : Prop := last < n ∨ last = n ∧ endPos ≤ pos

/-- A stream of the map has its bookmark in the file with the number `k`. -/
def BookmarkedFile (base : String) (m : StreamsMap) (st : State) (k : ℕ) : Prop :=
  ∃ b ∈ mapBookmarks m st.bookmarks.entries,
    (b.get? "log_file").getD .null = .str (binlogFileName base k)

/-- The oldest bookmarked file comes before the others by name too. -/
def OldestFirst (base : String) (m : StreamsMap) (st : State) : Prop :=
  ∀ j k, BookmarkedFile base m st j → BookmarkedFile base m st k →
    (∀ i, BookmarkedFile base m st i → j ≤ i) → SuffixesInOrder j k

/-- The place is not later than the bookmark of any stream of the map. -/
def NotLaterThanBookmarks (base : String) (m : StreamsMap) (st : State) (f : String) (p : Val) :
    Prop :=
  ∃ n, f = binlogFileName base n ∧ ∀ b ∈ mapBookmarks m st.bookmarks.entries, ∃ k,
    (b.get? "log_file").getD .null = .str (binlogFileName base k) ∧
    NotLater n p k ((b.get? "log_pos").getD .null)

variable {base : String}

theorem binlogFileName_le_iff {m n : ℕ} (h : m ≤ n) :
    binlogFileName base m ≤ binlogFileName base n ↔ SuffixesInOrder m n := by
  rcases eq_or_lt_of_le h with rfl | hlt
  · simp [suffixesInOrder_self]
  · have hne : binlogFileName base m ≠ binlogFileName base n := by
      rw [Ne, binlogFileName_inj]
      omega
    rw [le_iff_lt_or_eq, or_iff_left hne, binlogFileName_lt_of_lt_iff base hlt]

theorem calculateBookmark_notLater_iff {server : Server} {first count : ℕ}
    (hlogs : server.binaryLogs = (List.range' first count).map (binlogFileName base))
    {m : StreamsMap} {st : State} {f : String} {p : Val}
    (hreturn : calculateBookmark server m st = .ok (f, p)) :
    NotLaterThanBookmarks base m st f p ↔ OldestFirst base m st := by
  obtain ⟨⟨b₀, hb₀, hfile₀⟩, hleast⟩ := calculateBookmark_ok hreturn
  have hname : ∀ g ∈ server.binaryLogs, ∃ k, g = binlogFileName base k := by
    intro g hg
    rw [hlogs] at hg
    obtain ⟨k, -, rfl⟩ := List.mem_map.mp hg
    exact ⟨k, rfl⟩
  -- the returned file is bookmarked, and first by name
  obtain ⟨n, rfl⟩ : ∃ n, f = binlogFileName base n := by
    obtain ⟨g, hg, hfile, -, -⟩ := hleast b₀ hb₀
    rw [hfile₀, Val.str.injEq] at hfile
    rw [hfile]
    exact hname g hg
  have hn : BookmarkedFile base m st n := ⟨b₀, hb₀, hfile₀⟩
  have hfirst : ∀ k, BookmarkedFile base m st k →
      binlogFileName base n ≤ binlogFileName base k := by
    intro k h
    obtain ⟨b, hb, hfile⟩ := h
    obtain ⟨g, hg, hfile', hle, -⟩ := hleast b hb
    rw [hfile, Val.str.injEq] at hfile'
    rw [hfile']
    exact hle
  constructor
  · rintro ⟨n', hn', hnot⟩ j k hj hk hmin
    rw [binlogFileName_inj] at hn'
    subst hn'
    have hle : ∀ i, BookmarkedFile base m st i → n ≤ i := by
      intro i h
      obtain ⟨b, hb, hfile⟩ := h
      obtain ⟨i', hi', hlater⟩ := hnot b hb
      rw [hfile, Val.str.injEq, binlogFileName_inj] at hi'
      subst hi'
      rcases hlater with hlt | ⟨heq, -⟩ <;> omega
    have hjn : j = n := le_antisymm (hmin n hn) (hle j hj)
    subst hjn
    exact (binlogFileName_le_iff (hle k hk)).mp (hfirst k hk)
  · intro horder
    -- the oldest bookmarked file is not before the returned one by name
    obtain ⟨j, hj, hmin⟩ : ∃ j, BookmarkedFile base m st j ∧
        ∀ i, BookmarkedFile base m st i → j ≤ i := by
      classical
      exact ⟨Nat.find ⟨n, hn⟩, Nat.find_spec ⟨n, hn⟩, fun i hi => Nat.find_min' ⟨n, hn⟩ hi⟩
    have hjn : binlogFileName base j ≤ binlogFileName base n :=
      (binlogFileName_le_iff (hmin n hn)).mpr (horder j n hj hn hmin)
    have heq : n = j := binlogFileName_inj.mp (le_antisymm (hfirst j hj) hjn)
    subst heq
    refine ⟨n, rfl, fun b hb => ?_⟩
    obtain ⟨g, hg, hfile, -, hpos⟩ := hleast b hb
    obtain ⟨k, rfl⟩ := hname g hg
    refine ⟨k, hfile, ?_⟩
    rcases eq_or_lt_of_le (hmin k ⟨b, hb, hfile⟩) with rfl | hlt
    · exact .inr ⟨rfl, hpos rfl⟩
    · exact .inl hlt

/-! ### The stop test -/

/-- The iteration leaves the loop and takes the captured end as its position. -/
def StopsAtEnd (env : Env) (d : Delivery) : Prop :=
  ∀ v, iteration env v d = .halt []
    (.broke { v with logFile := some env.endLogFile, logPos := some env.endLogPos })

theorem stopsAtEnd_iff_reachedEnd {env : Env} {d : Delivery} :
    StopsAtEnd env d ↔ reachedEnd env d = true := by
  constructor
  · intro h
    rcases iteration_halt (h (initialVars Dict.empty State.empty none)) with
      ⟨hend, -, -⟩ | ⟨-, -, e, he⟩
    · exact hend
    · cases he
  · intro hend v
    rw [iteration, if_pos hend]

theorem stopsAtEnd_iff {env : Env} {d : Delivery} {last reader : ℕ}
    (hend : env.endLogFile = binlogFileName base last)
    (hreader : d.logFile = binlogFileName base reader) :
    (StopsAtEnd env d ↔ AtOrAfter reader d.logPos last env.endLogPos) ↔
      SuffixesInOrder last reader := by
  have htest : reachedEnd env d = true ↔
      binlogFileName base last < binlogFileName base reader ∨
        last = reader ∧ env.endLogPos ≤ d.logPos := by
    rw [reachedEnd, hend, hreader, Bool.or_eq_true, Bool.and_eq_true, decide_eq_true_eq,
      decide_eq_true_eq, decide_eq_true_eq, binlogFileName_inj]
  rw [stopsAtEnd_iff_reachedEnd, htest, AtOrAfter, ← binlogFileName_order_iff base]
  by_cases heq : last = reader
  · subst heq
    simp
  · simp [heq]

/-- Both comparisons of files follow the order of creation exactly when the oldest bookmarked file
has the smallest name and the names of the reader's file and of the last file are in order. -/
theorem files_compared_iff {server : Server} {first count : ℕ}
    (hlogs : server.binaryLogs = (List.range' first count).map (binlogFileName base))
    {m : StreamsMap} {st : State} {f : String} {p : Val}
    (hreturn : calculateBookmark server m st = .ok (f, p)) {env : Env} {d : Delivery}
    {last reader : ℕ} (hend : env.endLogFile = binlogFileName base last)
    (hreader : d.logFile = binlogFileName base reader) :
    (NotLaterThanBookmarks base m st f p ∧
      (StopsAtEnd env d ↔ AtOrAfter reader d.logPos last env.endLogPos)) ↔
    OldestFirst base m st ∧ SuffixesInOrder last reader := by
  rw [calculateBookmark_notLater_iff hlogs hreturn, stopsAtEnd_iff hend hreader]

/-- A run that takes the captured end as its position has read an event at it or behind it. -/
theorem run_broke_atOrAfter {env : Env} {failure : Option Err} {ds : List Delivery} {v₀ v : Vars}
    {last : ℕ} (hend : env.endLogFile = binlogFileName base last)
    (hfiles : ∀ d ∈ ds, ∃ reader, d.logFile = binlogFileName base reader ∧
      SuffixesInOrder last reader)
    (hrun : (Loop.run (iteration env) (readerEnd failure) ds v₀).2 = .broke v) :
    ∃ d ∈ ds, ∃ reader, d.logFile = binlogFileName base reader ∧
      AtOrAfter reader d.logPos last env.endLogPos := by
  rcases Loop.run_cases (iteration env) (readerEnd failure) ds v₀ with
    ⟨out, s, -, he⟩ | ⟨a, d, b, out, s, em, t, rfl, -, hhalt, he⟩
  · rw [he] at hrun
    cases failure <;> cases hrun
  · rw [he] at hrun
    rcases iteration_halt hhalt with ⟨hreached, -, -⟩ | ⟨-, -, e, rfl⟩
    · obtain ⟨reader, hreader, horder⟩ := hfiles d (by simp)
      have hstops := (stopsAtEnd_iff hend hreader).mpr horder
      exact ⟨d, by simp, reader, hreader, hstops.mp (stopsAtEnd_iff_reachedEnd.mpr hreached)⟩
    · cases hrun

namespace Sample

/-- A state with the bookmarks of two streams, in the files `n` and `k`. -/
def twoBookmarks (n k : ℕ) : State :=
  ⟨none, Dict.ofList
    [("db-t", Dict.ofList [("log_file", .str (binlogFileName "bin" n)), ("log_pos", .int 4)]),
    ("db-u", Dict.ofList [("log_file", .str (binlogFileName "bin" k)), ("log_pos", .int 4)])]⟩

def twoStreams : StreamsMap :=
  generateStreamsMap [entry, { entry with tapStreamId := "db-u", stream := "db-u", table := "u" }]

def filesFrom (first : ℕ) : Server where
  binaryLogs := (List.range' first 2).map (binlogFileName "bin")
  binlogGtidPos _ _ := none
  serverId := 1

/-- What the reader shows at the start of the file `n`. -/
def atStart (n : ℕ) : Delivery := ⟨.rotate "" 4, binlogFileName "bin" n, 4, "", 0⟩

end Sample

theorem files_compared_iff_six_digits :
    (NotLaterThanBookmarks "bin" Sample.twoStreams (Sample.twoBookmarks 7 8)
        (binlogFileName "bin" 7) (.int 4) ∧
      (StopsAtEnd (Sample.env (binlogFileName "bin" 8) 4) (Sample.atStart 7) ↔
        AtOrAfter 7 4 8 4)) ↔
    OldestFirst "bin" Sample.twoStreams (Sample.twoBookmarks 7 8) ∧ SuffixesInOrder 8 7 := by
  have hlogs : (Sample.filesFrom 7).binaryLogs = (List.range' 7 2).map (binlogFileName "bin") := rfl
  exact files_compared_iff hlogs (by decide +kernel) rfl rfl

/-- Behind the file 999999 comes the file 1000000, whose name is the smaller one: the tap resumes in
the later file, and a run that reads the earlier one stops and takes the end in the later one. -/
theorem seventh_digit_out_of_order :
    calculateBookmark (Sample.filesFrom 999999) Sample.twoStreams
        (Sample.twoBookmarks 999999 1000000) = .ok (binlogFileName "bin" 1000000, .int 4) ∧
      ¬ NotLaterThanBookmarks "bin" Sample.twoStreams (Sample.twoBookmarks 999999 1000000)
        (binlogFileName "bin" 1000000) (.int 4) ∧
      StopsAtEnd (Sample.env (binlogFileName "bin" 1000000) 4) (Sample.atStart 999999) ∧
      ¬ AtOrAfter 999999 4 1000000 4 := by
  refine ⟨by decide +kernel, ?_, stopsAtEnd_iff_reachedEnd.mpr (by decide +kernel), ?_⟩
  · intro h
    obtain ⟨n, hn, hnot⟩ := h
    rw [binlogFileName_inj] at hn
    subst hn
    obtain ⟨k, hk, hlater⟩ := hnot
      (Dict.ofList [("log_file", .str (binlogFileName "bin" 999999)), ("log_pos", .int 4)])
      (by decide +kernel)
    have hfile : (Val.str (binlogFileName "bin" 999999)) = .str (binlogFileName "bin" k) := hk
    rw [Val.str.injEq, binlogFileName_inj] at hfile
    subst hfile
    rcases hlater with hlt | ⟨heq, -⟩ <;> omega
  · rw [AtOrAfter]
    omega

end TapMysql.Binlog
