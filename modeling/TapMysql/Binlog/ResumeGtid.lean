import TapMysql.Binlog.Bookmark

/-!
# The resume gtid and the positions of the streams

The gtid that a sync resumes from is the earliest one among the gtids of the streams. A stream
that has a log position and no gtid is not looked at, as long as another stream has a gtid.
-/

namespace TapMysql.Binlog

/-- `gtid` is a gtid of the domain, or server UUID, `source`, and `n` is its last sequence
number: `domain-server-n` on MariaDB, `uuid:n` or `uuid:first-n` on MySQL. -/
def GtidOf (engine : Engine) (source gtid : String) (n : Int) : Prop :=
  match engine with
  | .mariadb => ∃ server seq, splitOn '-' gtid = [source, server, seq] ∧ pyInt seq = some n
  | .mysql => ∃ interval last, splitOn ':' gtid = [source, interval] ∧
      (splitOn '-' interval = [last] ∨ ∃ first, splitOn '-' interval = [first, last]) ∧
      pyInt last = some n

def HasGtid (st : State) (s : String) : Prop := (st.getBookmark s "gtid").truthy = true

def HasLogPosition (st : State) (s : String) : Prop :=
  (st.getBookmark s "log_file").truthy = true ∧ (st.getBookmark s "log_pos").truthy = true

/-- The gtids of the streams of the map are well formed and of one domain or server UUID. -/
def OneSource (engine : Engine) (source : String) (m : StreamsMap) (st : State) : Prop :=
  ∀ s ∈ m.keys, HasGtid st s →
    ∃ gtid n, st.getBookmark s "gtid" = .str gtid ∧ GtidOf engine source gtid n

/-- No stream of the map with a position of any kind is jumped over by a start at `gtid`. -/
def NotAfterStreams (engine : Engine) (source : String) (m : StreamsMap) (st : State)
    (gtid : String) : Prop :=
  ∀ s ∈ m.keys, HasGtid st s ∨ HasLogPosition st s →
    ∃ own n n', st.getBookmark s "gtid" = .str own ∧ GtidOf engine source own n ∧
      GtidOf engine source gtid n' ∧ n' ≤ n

/-! ### Sequence numbers -/

theorem splitChars_ne_nil (sep : Char) (cs : List Char) : splitChars sep cs ≠ [] := by
  cases cs with
  | nil => simp [splitChars]
  | cons c cs =>
    rw [splitChars]
    split_ifs
    · simp
    · split <;> simp

theorem splitChars_singleton {sep : Char} {cs w : List Char} (h : splitChars sep cs = [w]) :
    sep ∉ cs ∧ w = cs := by
  induction cs generalizing w with
  | nil =>
    simp only [splitChars, List.cons.injEq, and_true] at h
    simp [← h]
  | cons c cs ih =>
    rw [splitChars] at h
    split_ifs at h with hc
    · exact absurd (List.cons.inj h).2 (splitChars_ne_nil sep cs)
    · cases hs : splitChars sep cs with
      | nil => exact absurd hs (splitChars_ne_nil sep cs)
      | cons v vs =>
        simp only [hs, List.cons.injEq] at h
        obtain ⟨rfl, rfl⟩ := h
        obtain ⟨hnot, rfl⟩ := ih hs
        exact ⟨by simp [hnot, Ne.symm hc], rfl⟩

theorem splitChars_of_not_mem {sep : Char} {cs : List Char} (h : sep ∉ cs) :
    splitChars sep cs = [cs] := by
  induction cs with
  | nil => rfl
  | cons c cs ih =>
    simp only [List.mem_cons, not_or] at h
    simp [splitChars, Ne.symm h.1, ih h.2]

theorem splitOn_singleton {sep : Char} {s w : String} (h : splitOn sep s = [w]) :
    s.toList.contains sep = false ∧ w = s := by
  rw [splitOn] at h
  obtain ⟨cs, hcs, rfl⟩ := List.map_eq_singleton_iff.mp h
  obtain ⟨hnot, rfl⟩ := splitChars_singleton hcs
  exact ⟨by simpa using hnot, String.ofList_toList⟩

theorem splitOn_pair {sep : Char} {s v w : String} (h : splitOn sep s = [v, w]) :
    s.toList.contains sep = true := by
  by_contra hc
  have hnot : sep ∉ s.toList := by simpa using hc
  simp [splitOn, splitChars_of_not_mem hnot] at h

theorem GtidOf.ne {engine : Engine} {source gtid : String} {n : Int}
    (h : GtidOf engine source gtid n) : gtid ≠ "" := by
  rintro rfl
  cases engine with
  | mariadb =>
    obtain ⟨server, seq, hsplit, -⟩ := h
    simp [splitOn, splitChars] at hsplit
  | mysql =>
    obtain ⟨interval, last, hsplit, -⟩ := h
    simp [splitOn, splitChars] at hsplit

theorem intOfText_of_pyInt {s : String} {n : Int} (h : pyInt s = some n) :
    intOfText s = .ok n := by
  simp [intOfText, h]

/-- The code reads the last sequence number of a well-formed gtid. -/
theorem gtidSeqNo_of_gtidOf {engine : Engine} {source gtid : String} {n : Int}
    (h : GtidOf engine source gtid n) : gtidSeqNo engine gtid = .ok n := by
  cases engine with
  | mariadb =>
    obtain ⟨server, seq, hsplit, hn⟩ := h
    simp [gtidSeqNo, hsplit, intOfPart, intOfText_of_pyInt hn]
  | mysql =>
    obtain ⟨interval, last, hsplit, hlast | ⟨first, hlast⟩, hn⟩ := h
    · obtain ⟨hc, rfl⟩ := splitOn_singleton hlast
      simp only [gtidSeqNo, hsplit, List.getElem?_cons_succ, List.getElem?_cons_zero, hc,
        Bool.false_eq_true, if_false]
      exact intOfText_of_pyInt hn
    · simp only [gtidSeqNo, hsplit, List.getElem?_cons_succ, List.getElem?_cons_zero,
        splitOn_pair hlast, if_true, hlast, intOfPart]
      exact intOfText_of_pyInt hn

/-! ### The loop over the bookmarks -/

/-- Some stream of the map among the entries has the gtid, with the number the code reads. -/
def Bookmarked (engine : Engine) (m : StreamsMap) (entries : List (String × Bookmark))
    (gtid : String) (n : Int) : Prop :=
  ∃ e ∈ entries, m.contains e.1 = true ∧ (e.2.get? "gtid").getD .null = .str gtid ∧ gtid ≠ "" ∧
    gtidSeqNo engine gtid = .ok n

/-- `earliest` is the earliest of the gtids bookmarked and of `before`. -/
def IsEarliest (engine : Engine) (m : StreamsMap) (entries : List (String × Bookmark))
    (before earliest : Option (String × Int)) : Prop :=
  match earliest with
  | none => before = none ∧ ∀ gtid n, ¬ Bookmarked engine m entries gtid n
  | some (gtid, n) =>
    (before = some (gtid, n) ∨ Bookmarked engine m entries gtid n) ∧
      (∀ gtid' n', before = some (gtid', n') → n ≤ n') ∧
      ∀ gtid' n', Bookmarked engine m entries gtid' n' → n ≤ n'

section Earliest

variable {engine : Engine} {m : StreamsMap} {e : String × Bookmark}
  {rest : List (String × Bookmark)} {before earliest : Option (String × Int)}

theorem IsEarliest.skip (h : IsEarliest engine m rest before earliest)
    (he : ∀ gtid n, ¬ Bookmarked engine m [e] gtid n) :
    IsEarliest engine m (e :: rest) before earliest := by
  have hiff : ∀ gtid n, Bookmarked engine m (e :: rest) gtid n ↔
      Bookmarked engine m rest gtid n := by
    intro gtid n
    constructor
    · intro h
      obtain ⟨c, hc, hcond⟩ := h
      rcases List.mem_cons.mp hc with rfl | hc
      · exact absurd ⟨c, List.mem_singleton.mpr rfl, hcond⟩ (he gtid n)
      · exact ⟨c, hc, hcond⟩
    · intro h
      obtain ⟨c, hc, hcond⟩ := h
      exact ⟨c, List.mem_cons_of_mem _ hc, hcond⟩
  unfold IsEarliest at h ⊢
  cases earliest with
  | none => simpa only [hiff] using h
  | some p => simpa only [hiff] using h

theorem IsEarliest.take {gtid : String} {n : Int}
    (h : IsEarliest engine m rest (some (takeEarlier before gtid n)) earliest)
    (hc : m.contains e.1 = true) (hg : (e.2.get? "gtid").getD .null = .str gtid)
    (hne : gtid ≠ "") (hn : gtidSeqNo engine gtid = .ok n) :
    IsEarliest engine m (e :: rest) before earliest := by
  have hown : Bookmarked engine m (e :: rest) gtid n :=
    ⟨e, List.mem_cons_self, hc, hg, hne, hn⟩
  cases earliest with
  | none => exact absurd h.1 (by simp)
  | some p =>
    obtain ⟨g, k⟩ := p
    obtain ⟨hfrom, hbefore, hrest⟩ := h
    have htake := hbefore _ _ rfl
    have hown_le : k ≤ n ∧ ∀ g' n', before = some (g', n') → k ≤ n' := by
      cases before with
      | none => exact ⟨htake, by simp⟩
      | some q =>
        obtain ⟨g', n'⟩ := q
        simp only at htake
        refine ⟨?_, fun g'' n'' hq => ?_⟩
        · split_ifs at htake <;> simp only at htake <;> omega
        · simp only [Option.some.injEq, Prod.mk.injEq] at hq
          split_ifs at htake <;> simp only at htake <;> omega
    refine ⟨?_, hown_le.2, ?_⟩
    · rcases hfrom with hfrom | ⟨c, hcr, hcond⟩
      · unfold takeEarlier at hfrom
        cases before with
        | none =>
          simp only [Option.some.injEq, Prod.mk.injEq] at hfrom
          obtain ⟨rfl, rfl⟩ := hfrom
          exact Or.inr hown
        | some q =>
          simp only [Option.some.injEq] at hfrom
          split_ifs at hfrom
          · simp only [Prod.mk.injEq] at hfrom
            obtain ⟨rfl, rfl⟩ := hfrom
            exact Or.inr hown
          · exact Or.inl (congrArg some hfrom)
      · exact Or.inr ⟨c, List.mem_cons_of_mem _ hcr, hcond⟩
    · intro g' n' h
      obtain ⟨c, hcm, hcond⟩ := h
      rcases List.mem_cons.mp hcm with rfl | hcr
      · obtain ⟨-, hg', -, hn'⟩ := hcond
        rw [hg, Val.str.injEq] at hg'
        rw [← hg', hn, Except.ok.injEq] at hn'
        exact hn' ▸ hown_le.1
      · exact hrest g' n' ⟨c, hcr, hcond⟩

theorem earliestGtid_isEarliest (entries : List (String × Bookmark))
    (hok : ∀ e ∈ entries, m.contains e.1 = true → ((e.2.get? "gtid").getD .null).truthy = true →
      ∃ gtid n, (e.2.get? "gtid").getD .null = .str gtid ∧ gtidSeqNo engine gtid = .ok n)
    (before : Option (String × Int)) :
    ∃ earliest, earliestGtid engine m entries before = .ok earliest ∧
      IsEarliest engine m entries before earliest := by
  induction entries generalizing before with
  | nil =>
    refine ⟨before, rfl, ?_⟩
    unfold IsEarliest
    cases before with
    | none => exact ⟨rfl, by simp [Bookmarked]⟩
    | some p =>
      refine ⟨Or.inl rfl, fun g n hp => ?_, by simp [Bookmarked]⟩
      rw [Option.some.injEq] at hp
      exact hp ▸ le_rfl
  | cons e rest ih =>
    obtain ⟨s, bookmark⟩ := e
    have ih' := ih fun e he => hok e (List.mem_cons_of_mem _ he)
    by_cases hc : m.contains s = true
    · by_cases ht : ((bookmark.get? "gtid").getD .null).truthy = true
      · obtain ⟨gtid, n, hg, hn⟩ := hok (s, bookmark) List.mem_cons_self hc ht
        simp only at hg
        have hne : gtid ≠ "" := by simpa [hg, Val.truthy] using ht
        obtain ⟨earliest, hrun, he⟩ := ih' (some (takeEarlier before gtid n))
        refine ⟨earliest, ?_, he.take hc hg hne hn⟩
        simp only [earliestGtid, hc, if_true, hg, hne, if_false, hn]
        exact hrun
      · obtain ⟨earliest, hrun, he⟩ := ih' before
        refine ⟨earliest, ?_, he.skip ?_⟩
        · simp only [earliestGtid, hc, if_true]
          split
          · rename_i gtid hg
            have hempty : gtid = "" := by simpa [hg, Val.truthy] using ht
            simp only [hempty, if_true]
            exact hrun
          · simp only [ht, Bool.false_eq_true, if_false]
            exact hrun
        · intro gtid n h
          obtain ⟨c, hcm, -, hg, hne, -⟩ := h
          rw [List.mem_singleton] at hcm
          subst hcm
          simp [hg, Val.truthy, hne] at ht
    · obtain ⟨earliest, hrun, he⟩ := ih' before
      refine ⟨earliest, by simp only [earliestGtid, hc, Bool.false_eq_true, if_false]; exact hrun,
        he.skip ?_⟩
      intro gtid n h
      obtain ⟨c, hcm, hcc, -⟩ := h
      rw [List.mem_singleton] at hcm
      subst hcm
      exact hc hcc

end Earliest

/-! ### The gtid returned -/

theorem inferGtid_ne {server : Server} {engine : Engine} {m : StreamsMap} {st : State}
    {gtid : String} (h : inferGtid server engine m st = .ok gtid) : gtid ≠ "" := by
  unfold inferGtid at h
  cases engine with
  | mysql => cases h
  | mariadb =>
    simp only at h
    split at h
    · cases h
    · split_ifs at h
      split at h
      · split_ifs at h with hne
        cases h
        exact hne
      · cases h

section Resume

variable {server : Server} {engine : Engine} {source : String} {m : StreamsMap} {st : State}

theorem bookmark_entry {s key : String} (h : (st.getBookmark s key).truthy = true) :
    ∃ bookmark, (s, bookmark) ∈ st.bookmarks.entries ∧
      (bookmark.get? key).getD .null = st.getBookmark s key := by
  unfold State.getBookmark State.bookmark at h ⊢
  cases hs : st.bookmarks.get? s with
  | none => simp [hs] at h
  | some bookmark => exact ⟨bookmark, Dict.get?_eq_some.mp hs, rfl⟩

theorem entry_bookmark {s : String} {bookmark : Bookmark}
    (h : (s, bookmark) ∈ st.bookmarks.entries) (key : String) :
    (bookmark.get? key).getD .null = st.getBookmark s key := by
  rw [State.getBookmark, State.bookmark, Dict.get?_eq_some.mpr h]
  rfl

theorem earliestGtid_state (h : OneSource engine source m st) :
    ∃ earliest, earliestGtid engine m st.bookmarks.entries none = .ok earliest ∧
      IsEarliest engine m st.bookmarks.entries none earliest := by
  refine earliestGtid_isEarliest st.bookmarks.entries (fun e he hc ht => ?_) none
  rw [entry_bookmark he] at ht ⊢
  obtain ⟨gtid, n, hg, hof⟩ := h e.1 (Dict.contains_iff.mp hc) ht
  exact ⟨gtid, n, hg, gtidSeqNo_of_gtidOf hof⟩

theorem bookmarked_of_hasGtid (h : OneSource engine source m st) {s : String} (hs : s ∈ m.keys)
    (hg : HasGtid st s) : ∃ gtid n, st.getBookmark s "gtid" = .str gtid ∧
      GtidOf engine source gtid n ∧ Bookmarked engine m st.bookmarks.entries gtid n := by
  obtain ⟨gtid, n, hgtid, hof⟩ := h s hs hg
  obtain ⟨bookmark, hmem, hbm⟩ := bookmark_entry hg
  have hne : gtid ≠ "" := by simpa [HasGtid, hgtid, Val.truthy] using hg
  exact ⟨gtid, n, hgtid, hof, (s, bookmark), hmem, Dict.contains_iff.mpr hs, hbm.trans hgtid, hne,
    gtidSeqNo_of_gtidOf hof⟩

/-- The gtid found is the gtid of a stream of the map, and not after any other. -/
theorem bookmarked_stream (h : OneSource engine source m st) {gtid : String} {n : Int}
    (hb : Bookmarked engine m st.bookmarks.entries gtid n) :
    ∃ s ∈ m.keys, st.getBookmark s "gtid" = .str gtid ∧ HasGtid st s ∧
      GtidOf engine source gtid n := by
  obtain ⟨e, he, hc, hg, hne, hn⟩ := hb
  rw [entry_bookmark he] at hg
  have hkey := Dict.contains_iff.mp hc
  have hhas : HasGtid st e.1 := by simp [HasGtid, hg, Val.truthy, hne]
  obtain ⟨gtid', n', hg', hof⟩ := h e.1 hkey hhas
  rw [hg, Val.str.injEq] at hg'
  subst hg'
  have hnn := gtidSeqNo_of_gtidOf hof
  rw [hn, Except.ok.injEq] at hnn
  exact ⟨e.1, hkey, hg, hhas, hnn ▸ hof⟩

theorem calculateGtidBookmark_of_hasGtid (server : Server) (h : OneSource engine source m st)
    (hg : ∃ s ∈ m.keys, HasGtid st s) :
    ∃ gtid n, calculateGtidBookmark server engine m st = .ok gtid ∧
      Bookmarked engine m st.bookmarks.entries gtid n ∧
      ∀ gtid' n', Bookmarked engine m st.bookmarks.entries gtid' n' → n ≤ n' := by
  obtain ⟨earliest, hrun, he⟩ := earliestGtid_state h
  obtain ⟨s, hs, hhas⟩ := hg
  obtain ⟨own, k, -, -, hown⟩ := bookmarked_of_hasGtid h hs hhas
  cases earliest with
  | none => exact absurd hown (he.2 own k)
  | some p =>
    obtain ⟨gtid, n⟩ := p
    obtain ⟨hfrom, -, hall⟩ := he
    exact ⟨gtid, n, by simp [calculateGtidBookmark, hrun], hfrom.resolve_left (by simp), hall⟩

/-- Without one, a gtid that is returned is inferred from log positions. -/
theorem calculateGtidBookmark_of_not_hasGtid (server : Server) (h : OneSource engine source m st)
    (hg : ∀ s ∈ m.keys, ¬ HasGtid st s) :
    calculateGtidBookmark server engine m st = inferGtid server engine m st := by
  obtain ⟨earliest, hrun, he⟩ := earliestGtid_state h
  cases earliest with
  | none => simp [calculateGtidBookmark, hrun]
  | some p =>
    obtain ⟨s, hs, -, hhas, -⟩ := bookmarked_stream h (he.1.resolve_left (by simp))
    exact absurd hhas (hg s hs)

/-- A gtid taken from the bookmarks jumps over no stream exactly when no stream of the map is
known by its log position only, or no stream has a gtid. -/
theorem resume_gtid_not_after_iff (h : OneSource engine source m st) :
    (∀ gtid, calculateGtidBookmark server engine m st = .ok gtid →
      (∃ s ∈ m.keys, st.getBookmark s "gtid" = .str gtid) →
      NotAfterStreams engine source m st gtid) ↔
    ((∃ s ∈ m.keys, HasGtid st s) → ∀ s ∈ m.keys, HasLogPosition st s → HasGtid st s) := by
  constructor
  · intro hprop hg s hs hlog
    obtain ⟨gtid, n, hcalc, hb, -⟩ := calculateGtidBookmark_of_hasGtid server h hg
    obtain ⟨t, ht, hgt, hhas, -⟩ := bookmarked_stream h hb
    obtain ⟨own, k, k', hown, hof, -⟩ := hprop gtid hcalc ⟨t, ht, hgt⟩ s hs (Or.inr hlog)
    simp [HasGtid, hown, Val.truthy, hof.ne]
  · intro hcond gtid hcalc htaken s hs hpos
    by_cases hg : ∃ s ∈ m.keys, HasGtid st s
    · obtain ⟨gtid', n, hcalc', hb, hall⟩ :=
        calculateGtidBookmark_of_hasGtid server h hg
      rw [hcalc, Except.ok.injEq] at hcalc'
      subst hcalc'
      obtain ⟨-, -, -, -, hof⟩ := bookmarked_stream h hb
      have hhas : HasGtid st s := hpos.elim id (hcond hg s hs)
      obtain ⟨own, k, hown, hofk, hbk⟩ := bookmarked_of_hasGtid h hs hhas
      exact ⟨own, k, n, hown, hofk, hof, hall own k hbk⟩
    · have hnone : ∀ s ∈ m.keys, ¬ HasGtid st s := fun s hs hh => hg ⟨s, hs, hh⟩
      rw [calculateGtidBookmark_of_not_hasGtid server h hnone] at hcalc
      obtain ⟨t, ht, hgt⟩ := htaken
      refine absurd ?_ (hnone t ht)
      simp [HasGtid, hgt, Val.truthy, inferGtid_ne hcalc]

end Resume

/-! ### A stream known by its log position -/

def Sample.mixedMap : StreamsMap :=
  Dict.ofList [("db-t", ⟨Sample.entry, []⟩), ("db-u", ⟨Sample.entry, []⟩)]

def Sample.mixedState : State :=
  ((State.empty.writeBookmark "db-t" "gtid" (.str "0-1-100")).writeBookmark "db-u" "log_file"
    (.str "bin.1")).writeBookmark "db-u" "log_pos" (.int 4)

def Sample.server : Server := ⟨["bin.1"], fun _ _ => none, 1⟩

theorem Sample.mixedState_oneSource : OneSource .mariadb "0" Sample.mixedMap Sample.mixedState := by
  intro s hs hg
  have hkeys : Sample.mixedMap.keys = ["db-t", "db-u"] := by decide
  rw [hkeys] at hs
  simp only [List.mem_cons, List.not_mem_nil, or_false] at hs
  rcases hs with rfl | rfl
  · exact ⟨"0-1-100", 100, by decide, "1", "100", by decide, by decide⟩
  · exact absurd hg (by unfold HasGtid; decide)

/-- The gtid of `db-t` is returned, and `db-u` is jumped over. -/
theorem log_position_jumped_over :
    ¬ ∀ gtid, calculateGtidBookmark Sample.server .mariadb Sample.mixedMap Sample.mixedState =
        .ok gtid →
      (∃ s ∈ Sample.mixedMap.keys, Sample.mixedState.getBookmark s "gtid" = .str gtid) →
      NotAfterStreams .mariadb "0" Sample.mixedMap Sample.mixedState gtid := by
  intro h
  have hcalc : calculateGtidBookmark Sample.server .mariadb Sample.mixedMap Sample.mixedState =
      .ok "0-1-100" := rfl
  obtain ⟨own, n, n', hown, -⟩ := h "0-1-100" hcalc ⟨"db-t", by decide, by decide⟩ "db-u"
    (by decide) (Or.inr (by unfold HasLogPosition; decide))
  have hnull : Sample.mixedState.getBookmark "db-u" "gtid" = .null := by decide
  rw [hnull] at hown
  cases hown

theorem resume_gtid_not_after_iff_mixedState :
    (∀ gtid, calculateGtidBookmark Sample.server .mariadb Sample.mixedMap Sample.mixedState =
        .ok gtid →
      (∃ s ∈ Sample.mixedMap.keys, Sample.mixedState.getBookmark s "gtid" = .str gtid) →
      NotAfterStreams .mariadb "0" Sample.mixedMap Sample.mixedState gtid) ↔
    ((∃ s ∈ Sample.mixedMap.keys, HasGtid Sample.mixedState s) →
      ∀ s ∈ Sample.mixedMap.keys, HasLogPosition Sample.mixedState s →
        HasGtid Sample.mixedState s) :=
  resume_gtid_not_after_iff Sample.mixedState_oneSource

end TapMysql.Binlog
