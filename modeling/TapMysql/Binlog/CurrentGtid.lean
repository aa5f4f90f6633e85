import Mathlib.Order.Interval.Set.Basic
import TapMysql.Binlog.Executed

/-!
# The current gtid of a server

`fetch_current_gtid_pos` of `sync_strategies/binlog.py` looks for the gtid of the server itself in
`gtid_executed`, the text of all transactions that the server has executed, those of other servers
too. It finds one only when its own transactions stand in one interval, and then it names these.
-/

namespace TapMysql.Binlog

/-! ### The function of the source -/

/-- The characters that `str.strip` drops at both ends. -/
def isBlank (c : Char) : Bool :=
  (9 ≤ c.toNat && c.toNat ≤ 13) || (28 ≤ c.toNat && c.toNat ≤ 32) ||
    (0x2000 ≤ c.toNat && c.toNat ≤ 0x200A) ||
    [0x85, 0xA0, 0x1680, 0x2028, 0x2029, 0x202F, 0x205F, 0x3000].contains c.toNat

def pyStrip (s : String) : String :=
  String.ofList ((s.toList.dropWhile isBlank).reverse.dropWhile isBlank).reverse

/-- A gtid of the server itself, in the form of its engine. -/
def isGtidOf (engine : Engine) (server gtid : String) : Bool :=
  match engine with
  | .mysql =>
    match splitOn ':' gtid with
    | [source, _] => decide (source = server)
    | _ => false
  | .mariadb =>
    match splitOn '-' gtid with
    | [_, source, _] => decide (source = server)
    | _ => false

/-- `gtid_to_use` at the end of the loop over the parts of the text. -/
def gtidToUse (engine : Engine) (server : String) : List String → Option String → Option String
  | [], found => found
  | part :: rest, found =>
    let gtid := pyStrip part
    if gtid = "" then gtidToUse engine server rest found
    else gtidToUse engine server rest (if isGtidOf engine server gtid then some gtid else found)

def gtidNotPresent : Err := ⟨.exception, "GTID is not present on this server!"⟩

def noSuitableGtid (server : String) : Err :=
  ⟨.exception, "No suitable GTID was found for server " ++ server ++ "."⟩

/-- `fetch_current_gtid_pos`, with the id of the server and the row that it answers. -/
def fetchCurrentGtidPos (engine : Engine) (server : Except Err String)
    (result : Except Err (Option String)) : Except Err String :=
  match server with
  | .error err => .error err
  | .ok server =>
    match result with
    | .error err => .error err
    | .ok none => .error gtidNotPresent
    | .ok (some gtids) =>
      match gtidToUse engine server (splitOn ',' gtids) none with
      | none => .error (noSuitableGtid server)
      | some gtid => .ok gtid

example : fetchCurrentGtidPos .mariadb (.ok "7") (.ok (some "0-1-100, 2-7-9,1-7-4")) =
    .ok "1-7-4" := by decide

/-! ### What the loop finds -/

theorem isGtidOf_empty (engine : Engine) (server : String) : isGtidOf engine server "" = false := by
  cases engine <;> rfl

/-- The last part wins that is a gtid of the server. -/
theorem gtidToUse_eq (engine : Engine) (server : String) (parts : List String)
    (found : Option String) :
    gtidToUse engine server parts found =
      (((parts.map pyStrip).filter (isGtidOf engine server)).getLast?).or found := by
  induction parts generalizing found with
  | nil => rfl
  | cons part parts ih =>
    rw [gtidToUse, List.map_cons]
    split_ifs with hempty hown
    · rw [ih, hempty, List.filter_cons_of_neg (by simp [isGtidOf_empty])]
    · rw [ih, List.filter_cons_of_pos hown, List.getLast?_cons]
      cases ((parts.map pyStrip).filter (isGtidOf engine server)).getLast? <;> rfl
    · rw [ih, List.filter_cons_of_neg hown]

section Strip

variable {cs : List Char}

theorem dropWhile_isBlank (h : ∀ c ∈ cs, isBlank c = false) : cs.dropWhile isBlank = cs := by
  cases cs with
  | nil => rfl
  | cons c cs => rw [List.dropWhile_cons_of_neg (by simp [h c List.mem_cons_self])]

theorem pyStrip_plain (h : ∀ c ∈ cs, isBlank c = false) :
    pyStrip (String.ofList cs) = String.ofList cs := by
  rw [pyStrip, String.toList_ofList, dropWhile_isBlank h,
    dropWhile_isBlank fun c hc => h c (List.mem_reverse.mp hc), List.reverse_reverse]

theorem pyStrip_cons {c : Char} (hc : isBlank c = true) :
    pyStrip (String.ofList (c :: cs)) = pyStrip (String.ofList cs) := by
  rw [pyStrip, pyStrip, String.toList_ofList, String.toList_ofList, List.dropWhile_cons_of_pos hc]

end Strip

theorem splitChars_flatMap {α : Type*} {sep : Char} {f : α → List Char} {ys : List α}
    (hf : ∀ y ∈ ys, sep ∉ f y) {xs : List Char} (hxs : sep ∉ xs) :
    splitChars sep (xs ++ ys.flatMap fun y => sep :: f y) = xs :: ys.map f := by
  induction ys generalizing xs with
  | nil => rw [List.flatMap_nil, List.append_nil, splitChars_of_not_mem hxs, List.map_nil]
  | cons y ys ih =>
    obtain ⟨hy, hys⟩ := List.forall_mem_cons.mp hf
    rw [List.flatMap_cons, List.cons_append, splitChars_append_cons hxs, ih hys hy, List.map_cons]

/-! ### The text of the executed transactions -/

/-- The transactions of one server in `gtid_executed`, as intervals of their numbers. -/
structure SourceSet where
  uuid : String
  intervals : List (ℕ × ℕ)
  plain : ∀ c ∈ uuid.toList, c ≠ ',' ∧ c ≠ ':' ∧ isBlank c = false

def intervalChars (i : ℕ × ℕ) : List Char :=
  if i.1 = i.2 then (toString i.1).toList
  else (toString i.1).toList ++ '-' :: (toString i.2).toList

namespace SourceSet

def chars (s : SourceSet) : List Char :=
  s.uuid.toList ++ s.intervals.flatMap fun i => ':' :: intervalChars i

def text (s : SourceSet) : String := String.ofList s.chars

/-- The numbers of the transactions. -/
def numbers (s : SourceSet) : Set ℕ := {n | ∃ i ∈ s.intervals, i.1 ≤ n ∧ n ≤ i.2}

end SourceSet

/-- `@@GLOBAL.gtid_executed` without tags: every server after the first has a line of its own. -/
def executedText : List SourceSet → String
  | [] => ""
  | s :: rest => String.ofList (s.chars ++ rest.flatMap fun r => ',' :: '\n' :: r.chars)

/-- The executed transactions, each with the server that it is from and its number there. -/
def executed (sources : List SourceSet) : Set (String × ℕ) :=
  {t | ∃ s ∈ sources, s.uuid = t.1 ∧ t.2 ∈ s.numbers}

/-- The transactions that the gtid names, each with its server. -/
def namedTransactions (gtid : String) : Set (String × ℕ) :=
  {t | (∃ interval, splitOn ':' gtid = [t.1, interval]) ∧ t.2 ∈ named gtid}

section Text

theorem mem_intervalChars {i : ℕ × ℕ} {c : Char} (h : c ∈ intervalChars i) :
    c.isDigit = true ∨ c = '-' := by
  unfold intervalChars at h
  split_ifs at h
  · exact .inl (isDigit_of_mem_toString h)
  · rcases List.mem_append.mp h with h | h
    · exact .inl (isDigit_of_mem_toString h)
    · rcases List.mem_cons.mp h with rfl | h
      · exact .inr rfl
      · exact .inl (isDigit_of_mem_toString h)

theorem isBlank_of_isDigit {c : Char} (h : c.isDigit = true) : isBlank c = false := by
  simp only [Char.isDigit, Bool.and_eq_true, decide_eq_true_eq] at h
  have hge : 48 ≤ c.toNat := h.1
  have hle : c.toNat ≤ 57 := h.2
  simp only [isBlank, List.contains_eq_mem, List.mem_cons, List.not_mem_nil, or_false,
    Bool.or_eq_false_iff, Bool.and_eq_false_iff, decide_eq_false_iff_not]
  omega

theorem not_mem_intervalChars {i : ℕ × ℕ} {c : Char} (hc : c.isDigit = false) (hminus : c ≠ '-') :
    c ∉ intervalChars i := by
  intro h
  rcases mem_intervalChars h with hdigit | rfl
  · rw [hc] at hdigit
    cases hdigit
  · exact hminus rfl

variable (s : SourceSet)

theorem SourceSet.mem_chars {s : SourceSet} {c : Char} (h : c ∈ s.chars) :
    c ≠ ',' ∧ isBlank c = false := by
  rcases List.mem_append.mp h with h | h
  · exact ⟨(s.plain c h).1, (s.plain c h).2.2⟩
  · obtain ⟨i, -, h⟩ := List.mem_flatMap.mp h
    rcases List.mem_cons.mp h with rfl | h
    · decide
    · rcases mem_intervalChars h with hdigit | rfl
      · refine ⟨?_, isBlank_of_isDigit hdigit⟩
        rintro rfl
        cases hdigit
      · decide

theorem SourceSet.pyStrip_text : pyStrip s.text = s.text :=
  pyStrip_plain fun _ hc => (mem_chars hc).2

/-- The parts between the commas are the sources again. -/
theorem pyStrip_splitOn_executedText {sources : List SourceSet} (hne : sources ≠ []) :
    (splitOn ',' (executedText sources)).map pyStrip = sources.map SourceSet.text := by
  cases sources with
  | nil => exact absurd rfl hne
  | cons s rest =>
    have hcomma : ∀ r : SourceSet, ',' ∉ r.chars := fun r h => (SourceSet.mem_chars h).1 rfl
    have hlines : ∀ r ∈ rest, ',' ∉ '\n' :: r.chars := by
      intro r _ h
      rcases List.mem_cons.mp h with h | h
      · cases h
      · exact hcomma r h
    have hfirst : pyStrip (String.ofList s.chars) = s.text := s.pyStrip_text
    have hrest : ∀ r ∈ rest, pyStrip (String.ofList ('\n' :: r.chars)) = r.text :=
      fun r _ => (pyStrip_cons rfl).trans r.pyStrip_text
    rw [executedText, splitOn, String.toList_ofList, splitChars_flatMap hlines (hcomma s),
      List.map_cons, List.map_cons, List.map_cons, List.map_map, List.map_map, hfirst]
    exact congrArg (s.text :: ·) (List.map_congr_left hrest)

theorem SourceSet.splitOn_text :
    splitOn ':' s.text =
      s.uuid :: s.intervals.map fun i => String.ofList (intervalChars i) := by
  have hcolon : ∀ i ∈ s.intervals, ':' ∉ intervalChars i :=
    fun i _ => not_mem_intervalChars rfl (by decide)
  have huuid : ':' ∉ s.uuid.toList := fun h => (s.plain ':' h).2.1 rfl
  rw [splitOn, text, String.toList_ofList, chars, splitChars_flatMap hcolon huuid, List.map_cons,
    List.map_map, String.ofList_toList]
  rfl

/-- Only a source with one interval reads as a gtid. -/
theorem SourceSet.isGtidOf_text (server : String) :
    isGtidOf .mysql server s.text = true ↔ s.uuid = server ∧ ∃ i, s.intervals = [i] := by
  rw [isGtidOf, s.splitOn_text]
  rcases hs : s.intervals with _ | ⟨i, _ | ⟨j, rest⟩⟩ <;> simp

theorem SourceSet.named_text {s : SourceSet} {i : ℕ × ℕ} (h : s.intervals = [i]) :
    named s.text = s.numbers := by
  have huuid : ':' ∉ s.uuid.toList := fun hmem => (s.plain ':' hmem).2.1 rfl
  have hnumbers : s.numbers = Set.Icc i.1 i.2 := by
    ext n
    simp [numbers, h, Set.mem_Icc]
  by_cases heq : i.1 = i.2
  · have htext : s.text = gtidText s.uuid i.1 := by
      apply String.toList_inj.mp
      simp [text, chars, h, intervalChars, heq, gtidText]
    rw [htext, named_gtidText huuid, hnumbers, ← heq, Set.Icc_self]
  · have htext : s.text = intervalText s.uuid i.1 i.2 := by
      apply String.toList_inj.mp
      simp [text, chars, h, intervalChars, heq, intervalText]
    rw [htext, named_intervalText huuid, hnumbers]

end Text

/-! ### The gtid that is found -/

section Found

variable {sources : List SourceSet}

/-- The text of a source with one interval names what is executed of it, and of no other source. -/
theorem namedTransactions_text (hdistinct : (sources.map SourceSet.uuid).Nodup) {s : SourceSet}
    (hs : s ∈ sources) {i : ℕ × ℕ} (hi : s.intervals = [i]) :
    namedTransactions s.text = {t | t ∈ executed sources ∧ t.1 = s.uuid} := by
  ext ⟨uuid, n⟩
  simp only [namedTransactions, executed, Set.mem_ofPred_eq, s.splitOn_text, hi, List.map_cons,
    List.map_nil, SourceSet.named_text hi]
  constructor
  · rintro ⟨⟨interval, heq⟩, hn⟩
    obtain rfl : s.uuid = uuid := (List.cons.inj heq).1
    exact ⟨⟨s, hs, rfl, hn⟩, rfl⟩
  · rintro ⟨⟨r, hr, huuid, hn⟩, rfl⟩
    obtain rfl : r = s := List.inj_on_of_nodup_map hdistinct hr hs huuid
    exact ⟨⟨_, rfl⟩, hn⟩

/-- From the text of all executed transactions a gtid is found just when those of the server are
one interval, and it is the text of this interval. -/
theorem fetchCurrentGtidPos_executed (hdistinct : (sources.map SourceSet.uuid).Nodup)
    (server : String) :
    (∃ s ∈ sources, s.uuid = server ∧ (∃ i, s.intervals = [i]) ∧
      fetchCurrentGtidPos .mysql (.ok server) (.ok (some (executedText sources))) = .ok s.text) ∨
    ((∀ s ∈ sources, s.uuid = server → ∀ i, s.intervals ≠ [i]) ∧
      fetchCurrentGtidPos .mysql (.ok server) (.ok (some (executedText sources))) =
        .error (noSuitableGtid server)) := by
  rcases eq_or_ne sources [] with rfl | hne
  · exact .inr ⟨by simp, rfl⟩
  have hfound : gtidToUse .mysql server (splitOn ',' (executedText sources)) none =
      ((sources.map SourceSet.text).filter (isGtidOf .mysql server)).getLast? := by
    rw [gtidToUse_eq, pyStrip_splitOn_executedText hne, Option.or_none]
  simp only [fetchCurrentGtidPos, hfound]
  cases hlast : ((sources.map SourceSet.text).filter (isGtidOf .mysql server)).getLast? with
  | none =>
    right
    refine ⟨fun s hs huuid i hi => ?_, rfl⟩
    have hmem : s.text ∈ (sources.map SourceSet.text).filter (isGtidOf .mysql server) :=
      List.mem_filter.mpr ⟨List.mem_map_of_mem hs, (s.isGtidOf_text server).mpr ⟨huuid, i, hi⟩⟩
    rw [List.getLast?_eq_none_iff.mp hlast] at hmem
    cases hmem
  | some gtid =>
    left
    obtain ⟨hmem, hown⟩ := List.mem_filter.mp (List.mem_of_getLast? hlast)
    obtain ⟨s, hs, rfl⟩ := List.mem_map.mp hmem
    obtain ⟨huuid, hone⟩ := (s.isGtidOf_text server).mp hown
    exact ⟨s, hs, huuid, hone, rfl⟩

end Found

end TapMysql.Binlog
