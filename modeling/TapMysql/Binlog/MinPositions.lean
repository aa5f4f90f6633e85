import TapMysql.Binlog.Bookmark
import TapMysql.Lib.Minima

/-!
# The minimum position per file

`get_min_log_pos_per_log_file` takes the bookmarks in the order of the state. Its positions are the
minima per file of the bookmarks of the streams of the map.
-/

namespace TapMysql.Binlog

/-! ### Positions of bookmarks -/

/-- The bookmark names the file and the position. -/
structure NamesPosition (b : Bookmark) (file : String) (pos : ℤ) : Prop where
  file : b.get? "log_file" = some (.str file)
  pos : b.get? "log_pos" = some (.int pos)

/-- The stream of the map has its bookmark at the position of the file. -/
def BookmarkedAt (m : StreamsMap) (st : State) (s file : String) (pos : ℤ) : Prop :=
  s ∈ m.keys ∧ ∃ b, st.bookmarks.get? s = some b ∧ NamesPosition b file pos

/-- Every bookmark of a stream of the map names a file and a position. -/
def BookmarksNamePositions (m : StreamsMap) (st : State) : Prop :=
  ∀ s b, s ∈ m.keys → st.bookmarks.get? s = some b → ∃ file pos, NamesPosition b file pos

abbrev PositionItem := Minima.Item String Val ℤ

/-- The position of a bookmark as an item of its file. -/
def positionItem (s : String) (b : Bookmark) : Option PositionItem :=
  match b.get? "log_file", b.get? "log_pos" with
  | some (.str file), some (.int pos) => some ⟨s, .str file, pos⟩
  | _, _ => none

def positionItems (m : StreamsMap) (entries : List (String × Bookmark)) : List PositionItem :=
  (entries.filter fun e => m.contains e.1).filterMap fun e => positionItem e.1 e.2

theorem positionItem_eq_some_iff {s : String} {b : Bookmark} {x : PositionItem} :
    positionItem s b = some x ↔
      ∃ file pos, NamesPosition b file pos ∧ x = ⟨s, .str file, pos⟩ := by
  constructor
  · intro h
    rw [positionItem] at h
    split at h
    · rename_i file pos hfile hpos
      exact ⟨file, pos, ⟨hfile, hpos⟩, (Option.some.inj h).symm⟩
    · cases h
  · intro h
    obtain ⟨file, pos, hb, rfl⟩ := h
    rw [positionItem, hb.file, hb.pos]

theorem mem_positionItems {m : StreamsMap} {st : State} {x : PositionItem} :
    x ∈ positionItems m st.bookmarks.entries ↔
      ∃ s file pos, BookmarkedAt m st s file pos ∧ x = ⟨s, .str file, pos⟩ := by
  simp only [positionItems, List.mem_filterMap, List.mem_filter, positionItem_eq_some_iff,
    Prod.exists, Dict.contains_iff, ← Dict.get?_eq_some]
  constructor
  · intro h
    obtain ⟨s, b, ⟨hget, hs⟩, file, pos, hb, rfl⟩ := h
    exact ⟨s, file, pos, ⟨hs, b, hget, hb⟩, rfl⟩
  · intro h
    obtain ⟨s, file, pos, ⟨hs, b, hget, hb⟩, rfl⟩ := h
    exact ⟨s, b, ⟨hget, hs⟩, file, pos, hb, rfl⟩

theorem names_positionItems_sublist (m : StreamsMap) (entries : List (String × Bookmark)) :
    ((positionItems m entries).map Minima.Item.name).Sublist (entries.map Prod.fst) := by
  induction entries with
  | nil => exact List.Sublist.refl _
  | cons e entries ih =>
    rw [List.map_cons]
    by_cases hs : m.contains e.1 = true
    · cases hx : positionItem e.1 e.2 with
      | none =>
        have hitems : positionItems m (e :: entries) = positionItems m entries := by
          simp [positionItems, hs, hx]
        rw [hitems]
        exact ih.cons _
      | some x =>
        have hitems : positionItems m (e :: entries) = x :: positionItems m entries := by
          simp [positionItems, hs, hx]
        obtain ⟨file, pos, -, rfl⟩ := positionItem_eq_some_iff.mp hx
        rw [hitems, List.map_cons]
        exact ih.cons_cons _
    · have hitems : positionItems m (e :: entries) = positionItems m entries := by
        simp [positionItems, hs]
      rw [hitems]
      exact ih.cons _

/-! ### The loop -/

/-- The minima as the loop stores them. -/
def storedMinima (least : Dict Val (ℤ × List String)) : Dict Val MinLogPos :=
  least.map fun _ found => ⟨.int found.1, found.2⟩

theorem addLogPos_storedMinima (least : Dict Val (ℤ × List String)) {s : String} {b : Bookmark}
    {x : PositionItem} (hx : positionItem s b = some x) :
    addLogPos (storedMinima least) s b = .ok (storedMinima (Minima.add least x)) := by
  obtain ⟨file, pos, hb, rfl⟩ := positionItem_eq_some_iff.mp hx
  rw [addLogPos, hb.file, hb.pos, Minima.add, storedMinima, Dict.get?_map]
  cases hfound : least.get? (.str file) with
  | none => simp [hfound, storedMinima, Dict.map_set]
  | some found =>
    obtain ⟨q, names⟩ := found
    by_cases hlt : pos < q
    · simp [hfound, gtVal, hlt, storedMinima, Dict.map_set, min_eq_right (le_of_lt hlt)]
    · simp [hfound, gtVal, hlt, storedMinima, Dict.map_set, min_eq_left (not_lt.mp hlt)]

/-- The loop skips the bookmarks of streams that the map does not have. -/
theorem minLogPosLoop_filter (m : StreamsMap) (entries : List (String × Bookmark))
    (minPerFile : Dict Val MinLogPos) :
    minLogPosLoop m (entries.filter fun e => m.contains e.1) minPerFile =
      minLogPosLoop m entries minPerFile := by
  induction entries generalizing minPerFile with
  | nil => rfl
  | cons e entries ih =>
    obtain ⟨s, b⟩ := e
    by_cases hs : m.contains s = true
    · simp only [List.filter_cons, hs, if_true, minLogPosLoop]
      cases addLogPos minPerFile s b with
      | error e => rfl
      | ok minPerFile' => exact ih minPerFile'
    · simp only [List.filter_cons, hs, if_false, minLogPosLoop, Bool.false_eq_true]
      exact ih minPerFile

theorem minLogPosLoop_minima {m : StreamsMap} {entries : List (String × Bookmark)}
    (hentries : ∀ e ∈ entries, m.contains e.1 = true → ∃ x, positionItem e.1 e.2 = some x)
    (least : Dict Val (ℤ × List String)) :
    minLogPosLoop m entries (storedMinima least) =
      .ok (storedMinima ((positionItems m entries).foldl Minima.add least)) := by
  induction entries generalizing least with
  | nil => rfl
  | cons e entries ih =>
    obtain ⟨s, b⟩ := e
    obtain ⟨hhead, hrest⟩ := List.forall_mem_cons.mp hentries
    rw [minLogPosLoop]
    by_cases hs : m.contains s = true
    · obtain ⟨x, hx⟩ := hhead hs
      have hitems : positionItems m ((s, b) :: entries) = x :: positionItems m entries := by
        simp [positionItems, hs, hx]
      rw [if_pos hs, addLogPos_storedMinima least hx, hitems]
      exact ih hrest (Minima.add least x)
    · have hitems : positionItems m ((s, b) :: entries) = positionItems m entries := by
        simp [positionItems, hs]
      rw [if_neg hs, hitems]
      exact ih hrest least

theorem getMinLogPosPerLogFile_eq {m : StreamsMap} {st : State}
    (h : BookmarksNamePositions m st) :
    getMinLogPosPerLogFile m st =
      .ok (storedMinima (Minima.perKey (positionItems m st.bookmarks.entries))) := by
  refine minLogPosLoop_minima (fun e he hs => ?_) Dict.empty
  obtain ⟨file, pos, hb⟩ :=
    h e.1 e.2 (Dict.contains_iff.mp hs) (Dict.get?_eq_some.mpr he)
  exact ⟨_, positionItem_eq_some_iff.mpr ⟨file, pos, hb, rfl⟩⟩

/-! ### The map -/

/-- The map has the files of the bookmarks of the streams of the map, each with the least position
in it and with its streams. -/
structure MinimaOfBookmarks (m : StreamsMap) (st : State) (minPerFile : Dict Val MinLogPos) :
    Prop where
  files : ∀ f, f ∈ minPerFile.keys ↔ ∃ s file pos, BookmarkedAt m st s file pos ∧ f = .str file
  least : ∀ file found, minPerFile.get? (.str file) = some found →
    ∃ pos, found.logPos = .int pos ∧ IsLeast {q | ∃ s, BookmarkedAt m st s file q} pos
  nodup : ∀ file found, minPerFile.get? (.str file) = some found → found.streams.Nodup
  streams : ∀ file found, minPerFile.get? (.str file) = some found →
    ∀ s, s ∈ found.streams ↔ ∃ pos, BookmarkedAt m st s file pos

theorem valuesOf_positionItems {m : StreamsMap} {st : State} (file : String) :
    Minima.valuesOf (positionItems m st.bookmarks.entries) (.str file) =
      {q | ∃ s, BookmarkedAt m st s file q} := by
  ext q
  simp only [Minima.valuesOf, mem_positionItems, Set.mem_ofPred_eq]
  constructor
  · intro h
    obtain ⟨x, ⟨s, file', pos, hat, rfl⟩, hfile, rfl⟩ := h
    rw [← Val.str.inj hfile]
    exact ⟨s, hat⟩
  · intro h
    obtain ⟨s, hat⟩ := h
    exact ⟨_, ⟨s, file, q, hat, rfl⟩, rfl, rfl⟩

theorem mem_names_ofKey {m : StreamsMap} {st : State} {file s : String} :
    s ∈ (Minima.ofKey (positionItems m st.bookmarks.entries) (.str file)).map Minima.Item.name ↔
      ∃ pos, BookmarkedAt m st s file pos := by
  simp only [List.mem_map, Minima.mem_ofKey, mem_positionItems]
  constructor
  · intro h
    obtain ⟨x, ⟨⟨s', file', pos, hat, rfl⟩, hfile⟩, rfl⟩ := h
    rw [← Val.str.inj hfile]
    exact ⟨pos, hat⟩
  · intro h
    obtain ⟨pos, hat⟩ := h
    exact ⟨_, ⟨⟨s, file, pos, hat, rfl⟩, rfl⟩, rfl⟩

theorem minimaOfBookmarks (m : StreamsMap) (st : State) :
    MinimaOfBookmarks m st
      (storedMinima (Minima.perKey (positionItems m st.bookmarks.entries))) := by
  have hget : ∀ file found, (storedMinima (Minima.perKey
      (positionItems m st.bookmarks.entries))).get? (.str file) = some found →
      ∃ pos, found.logPos = .int pos ∧
        IsLeast (Minima.valuesOf (positionItems m st.bookmarks.entries) (.str file)) pos ∧
        found.streams =
          (Minima.ofKey (positionItems m st.bookmarks.entries) (.str file)).map
            Minima.Item.name := by
    intro file found h
    rw [storedMinima, Dict.get?_map] at h
    obtain ⟨⟨pos, names⟩, hmin, rfl⟩ := Option.map_eq_some_iff.mp h
    obtain ⟨hleast, hnames⟩ := Minima.isLeast_of_get? hmin
    exact ⟨pos, rfl, hleast, hnames⟩
  refine ⟨fun f => ?_, fun file found h => ?_, fun file found h => ?_, fun file found h s => ?_⟩
  · rw [storedMinima, Dict.keys_map, Minima.mem_keys_perKey]
    simp only [mem_positionItems]
    constructor
    · intro h
      obtain ⟨x, ⟨s, file, pos, hat, rfl⟩, rfl⟩ := h
      exact ⟨s, file, pos, hat, rfl⟩
    · intro h
      obtain ⟨s, file, pos, hat, rfl⟩ := h
      exact ⟨_, ⟨s, file, pos, hat, rfl⟩, rfl⟩
  · obtain ⟨pos, hpos, hleast, -⟩ := hget file found h
    exact ⟨pos, hpos, valuesOf_positionItems file ▸ hleast⟩
  · obtain ⟨-, -, -, hstreams⟩ := hget file found h
    rw [hstreams]
    have hsub : ((Minima.ofKey (positionItems m st.bookmarks.entries) (.str file)).map
        Minima.Item.name).Sublist ((positionItems m st.bookmarks.entries).map
          Minima.Item.name) := List.filter_sublist.map _
    exact (hsub.trans (names_positionItems_sublist m _)).nodup st.bookmarks.nodup
  · obtain ⟨-, -, -, hstreams⟩ := hget file found h
    rw [hstreams, mem_names_ofKey]

/-- The two maps have the same files with the same positions, and the same streams in each. -/
structure SamePositions (minPerFile minPerFile' : Dict Val MinLogPos) : Prop where
  files : ∀ f, f ∈ minPerFile.keys ↔ f ∈ minPerFile'.keys
  position : ∀ f found found', minPerFile.get? f = some found → minPerFile'.get? f = some found' →
    found.logPos = found'.logPos ∧ found.streams.Perm found'.streams

/-- Only the bookmarks of the streams of the map count, whatever their order. -/
theorem MinimaOfBookmarks.samePositions {m : StreamsMap} {st st' : State}
    {minPerFile minPerFile' : Dict Val MinLogPos} (h : MinimaOfBookmarks m st minPerFile)
    (h' : MinimaOfBookmarks m st' minPerFile')
    (hsame : ∀ s file pos, BookmarkedAt m st s file pos ↔ BookmarkedAt m st' s file pos) :
    SamePositions minPerFile minPerFile' := by
  refine ⟨fun f => ?_, fun f found found' hget hget' => ?_⟩
  · rw [h.files, h'.files]
    simp only [hsame]
  · obtain ⟨-, file, -, -, rfl⟩ := (h.files f).mp (Dict.mem_keys_iff.mpr ⟨found, hget⟩)
    constructor
    · obtain ⟨pos, hpos, hleast⟩ := h.least file found hget
      obtain ⟨pos', hpos', hleast'⟩ := h'.least file found' hget'
      simp only [hsame] at hleast
      rw [hpos, hpos', hleast.unique hleast']
    · apply (List.perm_ext_iff_of_nodup (h.nodup file found hget) (h'.nodup file found' hget')).mpr
      intro s
      rw [h.streams file found hget, h'.streams file found' hget']
      simp only [hsame]

theorem bookmarkedAt_congr {m : StreamsMap} {st st' : State}
    (h : ∀ s ∈ m.keys, st'.bookmarks.get? s = st.bookmarks.get? s) (s file : String) (pos : ℤ) :
    BookmarkedAt m st s file pos ↔ BookmarkedAt m st' s file pos := by
  constructor
  · intro hat
    obtain ⟨hs, b, hb, hnames⟩ := hat
    exact ⟨hs, b, (h s hs).trans hb, hnames⟩
  · intro hat
    obtain ⟨hs, b, hb, hnames⟩ := hat
    exact ⟨hs, b, (h s hs).symm.trans hb, hnames⟩

theorem getMinLogPosPerLogFile_filterKeys {m : StreamsMap} {st st' : State}
    (h : st'.bookmarks.filterKeys m.contains = st.bookmarks.filterKeys m.contains) :
    getMinLogPosPerLogFile m st' = getMinLogPosPerLogFile m st := by
  have hentries : st'.bookmarks.entries.filter (fun e => m.contains e.1) =
      st.bookmarks.entries.filter fun e => m.contains e.1 := congrArg Dict.entries h
  rw [getMinLogPosPerLogFile, getMinLogPosPerLogFile, ← minLogPosLoop_filter, hentries,
    minLogPosLoop_filter]

/-- The map holds the minimum of each file over the streams of the map. A state with the same
bookmarks of these streams has the same positions, in any order and with any other bookmarks. -/
theorem getMinLogPosPerLogFile_minima {m : StreamsMap} {st : State}
    (h : BookmarksNamePositions m st) :
    ∃ minPerFile, getMinLogPosPerLogFile m st = .ok minPerFile ∧
      MinimaOfBookmarks m st minPerFile ∧
      ∀ st', (∀ s ∈ m.keys, st'.bookmarks.get? s = st.bookmarks.get? s) →
        ∃ minPerFile', getMinLogPosPerLogFile m st' = .ok minPerFile' ∧
          SamePositions minPerFile minPerFile' ∧
          (st'.bookmarks.filterKeys m.contains = st.bookmarks.filterKeys m.contains →
            minPerFile' = minPerFile) := by
  have hminima := minimaOfBookmarks m st
  refine ⟨_, getMinLogPosPerLogFile_eq h, hminima, fun st' hsame => ?_⟩
  have h' : BookmarksNamePositions m st' := by
    intro s b hs hb
    exact h s b hs ((hsame s hs).symm.trans hb)
  refine ⟨_, getMinLogPosPerLogFile_eq h', ?_, fun hfilter => ?_⟩
  · exact hminima.samePositions (minimaOfBookmarks m st') (bookmarkedAt_congr hsame)
  · have heq := getMinLogPosPerLogFile_filterKeys hfilter
    rw [getMinLogPosPerLogFile_eq h, getMinLogPosPerLogFile_eq h'] at heq
    exact Except.ok.inj heq

namespace Sample

def twoTables : StreamsMap :=
  generateStreamsMap [entry, { entry with tapStreamId := "db-u", stream := "db-u", table := "u" }]

def bookmarkAt (file : String) (pos : ℤ) : Bookmark :=
  Dict.ofList [("log_file", .str file), ("log_pos", .int pos)]

/-- Two streams in one file, and a stream that is not selected. -/
def threeBookmarks : State :=
  ⟨none, Dict.ofList [("db-t", bookmarkAt "bin.1" 7), ("db-x", Dict.empty),
    ("db-u", bookmarkAt "bin.1" 4)]⟩

end Sample

theorem getMinLogPosPerLogFile_minima_three :
    ∃ minPerFile, getMinLogPosPerLogFile Sample.twoTables Sample.threeBookmarks = .ok minPerFile ∧
      MinimaOfBookmarks Sample.twoTables Sample.threeBookmarks minPerFile ∧
      minPerFile.get? (.str "bin.1") = some ⟨.int 4, ["db-t", "db-u"]⟩ := by
  have hnames : BookmarksNamePositions Sample.twoTables Sample.threeBookmarks := by
    intro s b hs hb
    have hkeys : Sample.twoTables.keys = ["db-t", "db-u"] := by decide
    rw [hkeys] at hs
    rcases List.mem_cons.mp hs with rfl | hs
    · cases hb
      exact ⟨"bin.1", 7, rfl, rfl⟩
    · obtain rfl := List.mem_singleton.mp hs
      cases hb
      exact ⟨"bin.1", 4, rfl, rfl⟩
  obtain ⟨minPerFile, hmin, hminima, -⟩ := getMinLogPosPerLogFile_minima hnames
  refine ⟨minPerFile, hmin, hminima, ?_⟩
  cases hmin
  rfl

end TapMysql.Binlog
