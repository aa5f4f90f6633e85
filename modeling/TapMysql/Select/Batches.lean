import TapMysql.Select.KeyPages

/-!
# The files of a query in BATCH mode

A query with a batch writer writes its messages in pairs, a BATCH message and the STATE behind it:
the files are the packs of a buffer that is emptied at the batch size, and each bookmark is that
of the last record of its file. Rows that arrive one by one fill every file but the last exactly;
record batches do so when they meet every multiple of the batch size.
-/

namespace TapMysql

/-! ### Files and their messages -/

def Message.file? : Message → Option (List Record)
  | .batch _ _ rows => some rows
  | _ => none

def Message.isState : Message → Bool
  | .state _ => true
  | _ => false

/-- The files that the BATCH messages name, in order. -/
def batchFiles (messages : List Message) : List (List Record) := messages.filterMap Message.file?

def stateCount (messages : List Message) : ℕ := messages.countP Message.isState

/-- Every STATE message stands directly after a BATCH message and carries the bookmark of the last
record of its file. -/
def StatesFollowFiles (update : State → Record → State × Option Err) (st₀ : State)
    (messages : List Message) : Prop :=
  ∀ pre v post, messages = pre ++ .state v :: post → ∃ pre' stream format rows last,
    pre = pre' ++ [.batch stream format rows] ∧ rows.getLast? = some last ∧
      update st₀ last = (v, none)

/-- A file with the state that is written behind it. -/
abbrev WrittenFile := List Record × State

def fileMessages (stream : String) (format : BatchFormat) (f : WrittenFile) : List Message :=
  [.batch stream format f.1, .state f.2]

section Messages

variable {stream : String} {format : BatchFormat} {files : List WrittenFile}
  {update : State → Record → State × Option Err} {st₀ : State}

theorem batchFiles_fileMessages :
    batchFiles (files.flatMap (fileMessages stream format)) = files.map Prod.fst := by
  induction files with
  | nil => rfl
  | cons f files ih =>
    rw [List.flatMap_cons, batchFiles, List.filterMap_append, ← batchFiles, ← batchFiles, ih]
    rfl

theorem stateCount_fileMessages :
    stateCount (files.flatMap (fileMessages stream format)) = files.length := by
  induction files with
  | nil => rfl
  | cons f files ih =>
    rw [List.flatMap_cons, stateCount, List.countP_append, ← stateCount, ← stateCount, ih,
      List.length_cons, Nat.add_comm]
    rfl

theorem statesFollowFiles_fileMessages
    (h : ∀ f ∈ files, ∃ last, f.1.getLast? = some last ∧ update st₀ last = (f.2, none)) :
    StatesFollowFiles update st₀ (files.flatMap (fileMessages stream format)) := by
  induction files with
  | nil =>
    intro pre v post hout
    simp at hout
  | cons f files ih =>
    obtain ⟨⟨last, hlast, hupdate⟩, hrest⟩ := List.forall_mem_cons.mp h
    intro pre v post hout
    rw [List.flatMap_cons, fileMessages] at hout
    cases pre with
    | nil => simp at hout
    | cons m pre =>
      simp only [List.cons_append, List.nil_append, List.cons.injEq] at hout
      obtain ⟨rfl, hout⟩ := hout
      cases pre with
      | nil =>
        simp only [List.nil_append, List.cons.injEq, Message.state.injEq] at hout
        exact ⟨[], stream, format, f.1, last, rfl, hlast, hout.1 ▸ hupdate⟩
      | cons m' pre =>
        simp only [List.cons_append, List.cons.injEq] at hout
        obtain ⟨rfl, hout⟩ := hout
        obtain ⟨pre', s, fmt, rows, last', rfl, hrows, hup⟩ := ih hrest pre v post hout
        exact ⟨_ :: _ :: pre', s, fmt, rows, last', rfl, hrows, hup⟩

end Messages

/-! ### The loop -/

theorem BatchWriter.write_eq (w : BatchWriter) {records : List Record} (hne : records ≠ []) :
    w.write records =
      if w.config.batchSize ≤ (w.rows ++ records).length then
        ([.batch w.stream w.config.format (w.rows ++ records)], ⟨w.stream, w.config, []⟩, true)
      else ([], ⟨w.stream, w.config, w.rows ++ records⟩, false) := by
  have hempty : (w.rows ++ records).isEmpty = false := by simp [hne]
  rw [BatchWriter.write]
  split_ifs with h
  · simp [BatchWriter.flush, hempty]
  · rfl

section Loop

variable {e : CatalogEntry} {version : Val} {time : String}
  {render : List Row → Except Err (List Record)} {update : State → Record → State × Option Err}
  {record : Row → Except Err Record} {c : BatchConfig} {st₀ : State}
  {units : List (List Row)} {out em : List Message} {s s' : QueryState} {unit : List Row}
  {files : List WrittenFile}

/-- The loop head after `units`: the files written so far with their states, and the writer. -/
structure Filed (e : CatalogEntry) (update : State → Record → State × Option Err)
    (record : Row → Except Err Record) (c : BatchConfig) (st₀ : State) (units : List (List Row))
    (out : List Message) (s : QueryState) (files : List WrittenFile) : Prop where
  messages : out = files.flatMap (fileMessages e.stream c.format)
  packed : (files.map fun f => f.1.map Except.ok, (heldRows s).map Except.ok) =
    ((Buffer.pack c.batchSize units).1.map (List.map record),
      (Buffer.pack c.batchSize units).2.map record)
  writer : s.writer = some ⟨e.stream, c, heldRows s⟩
  checkpoint : s.checkpoint = ((heldRows s).isEmpty && !files.isEmpty)
  after : After update record st₀ units.flatten s.st
  states : ∀ f ∈ files, ∃ last, f.1.getLast? = some last ∧ update st₀ last = (f.2, none)

theorem filed_start :
    Filed e update record c st₀ [] [] ⟨st₀, some (.new e.stream c), 0, false⟩ [] :=
  ⟨rfl, rfl, rfl, rfl, rfl, by simp⟩

theorem update_of_after {rows : List Row} {row : Row} {r : Record} {st : State}
    (h : After update record st₀ rows st) (hlast : rows.getLast? = some row)
    (hr : record row = .ok r) : update st₀ r = (st, none) := by
  rw [After, hlast] at h
  obtain ⟨r', hr', hupdate⟩ := h
  obtain rfl : r' = r := Except.ok.inj (hr'.symm.trans hr)
  exact hupdate

theorem getLast_of_map {records : List Record} {rows : List Row} {last : Record}
    (h : records.map Except.ok = rows.map record) (hlast : records.getLast? = some last) :
    ∃ row, rows.getLast? = some row ∧ record row = .ok last := by
  have hmap := congrArg List.getLast? h
  rw [List.getLast?_map, List.getLast?_map, hlast] at hmap
  cases hrows : rows.getLast? with
  | none => simp [hrows] at hmap
  | some row => exact ⟨row, rfl, by simpa [hrows, eq_comm] using hmap⟩

/-- A unit without rows changes nothing, and any other is packed. -/
theorem filed_step (hq : LawfulQuery render update record)
    (hfiled : Filed e update record c st₀ units out s files)
    (h : queryStep e version time render update s unit = .next em s') :
    ∃ files', Filed e update record c st₀ (units ++ [unit]) (out ++ em) s' files' := by
  rcases queryStep_next h with ⟨hr, rfl, rfl⟩ | ⟨records, last, st, hr, hl, hu, rfl, rfl⟩
  · have hunit : unit = [] := by simpa using hq.render unit [] hr
    subst hunit
    have hheld := Buffer.pack_held_lt c.batchSize_pos units
    have hpack : Buffer.pack c.batchSize (units ++ [[]]) = Buffer.pack c.batchSize units := by
      rw [Buffer.pack_append, Buffer.packStep, List.append_nil, if_neg (Nat.not_le.mpr hheld)]
    exact ⟨files, by rw [List.append_nil]; exact hfiled.messages,
      by rw [hpack]; exact hfiled.packed, hfiled.writer, hfiled.checkpoint,
      by simpa using hfiled.after, hfiled.states⟩
  · have hne : records ≠ [] := by
      rintro rfl
      simp at hl
    have hrecords := hq.render unit records hr
    have hafter := after_append hq.overwrites hfiled.after hrecords hl hu
    have hflatten : (units ++ [unit]).flatten = units.flatten ++ unit := by simp
    rw [← hflatten] at hafter
    have hlast : update st₀ last = (st, none) := by
      obtain ⟨row, hrow, hrec⟩ := getLast_of_map hrecords hl
      exact update_of_after hafter (by rw [hflatten, List.getLast?_append, hrow]; rfl) hrec
    have hpack : Buffer.packStep c.batchSize
        (files.map fun f => f.1.map Except.ok, (heldRows s).map Except.ok)
        (records.map Except.ok) =
        ((Buffer.pack c.batchSize (units ++ [unit])).1.map (List.map record),
          (Buffer.pack c.batchSize (units ++ [unit])).2.map record) := by
      rw [hfiled.packed, hrecords, Buffer.map_packStep, Buffer.pack_append]
    have hlen : ((heldRows s).map Except.ok ++ records.map (Except.ok (ε := Err))).length =
        (heldRows s ++ records).length := by simp
    rw [Buffer.packStep, hlen] at hpack
    have hwrite := BatchWriter.write_eq ⟨e.stream, c, heldRows s⟩ hne
    simp only [writeRecords, hfiled.writer, hwrite]
    split_ifs at hpack ⊢ with hfull
    · refine ⟨files ++ [(heldRows s ++ records, st)], ?_, ?_, rfl, ?_, hafter, ?_⟩
      · rw [List.flatMap_append, ← hfiled.messages]
        rfl
      · rw [← hpack]
        simp [heldRows]
      · simp [heldRows]
      · intro f hf
        rcases List.mem_append.mp hf with hf | hf
        · exact hfiled.states f hf
        · rw [List.mem_singleton.mp hf]
          exact ⟨last, by simp [List.getLast?_append, hl], hlast⟩
    · refine ⟨files, ?_, ?_, rfl, ?_, hafter, hfiled.states⟩
      · simpa [stateIf] using hfiled.messages
      · rw [← hpack]
        simp [heldRows]
      · simp [heldRows, hne]

theorem reaches_filed (hq : LawfulQuery render update record)
    (h : Loop.Reaches (queryStep e version time render update)
      ⟨st₀, some (.new e.stream c), 0, false⟩ units out s) :
    ∃ files, Filed e update record c st₀ units out s files := by
  induction h with
  | start => exact ⟨[], filed_start⟩
  | step _ hstep ih =>
    obtain ⟨files, hfiled⟩ := ih
    exact filed_step hq hfiled hstep

/-- The messages of a query: a single STATE when there are no rows, else the files and states. -/
def queryMessages (stream : String) (format : BatchFormat) (st₀ : State)
    (files : List WrittenFile) : List Message :=
  if files.isEmpty then [.state st₀] else files.flatMap (fileMessages stream format)

theorem Filed.close (hfiled : Filed e update record c st₀ units out s files) :
    ∃ files', out ++ (queryEnd none s).1 = queryMessages e.stream c.format st₀ files' ∧
      (files'.map fun f => f.1.map Except.ok) =
        (Buffer.packs c.batchSize units).map (List.map record) ∧
      ∀ f ∈ files', ∃ last, f.1.getLast? = some last ∧ update st₀ last = (f.2, none) := by
  obtain ⟨hfiles, hheld⟩ := Prod.mk.inj hfiled.packed
  have hpacks := Buffer.flatten_packs c.batchSize units
  rw [Buffer.packs, Buffer.flatten_closePacks] at hpacks
  rw [queryEnd, hfiled.writer, hfiled.checkpoint, lastFlush, BatchWriter.flush]
  rcases List.eq_nil_or_concat (heldRows s) with hnil | ⟨init, last, hrows⟩
  · -- nothing is held
    have hpack : (Buffer.pack c.batchSize units).2 = [] := by
      rw [hnil, List.map_nil] at hheld
      exact List.map_eq_nil_iff.mp hheld.symm
    refine ⟨files, ?_, by rw [hfiles, Buffer.packs, Buffer.closePacks, hpack]; rfl, hfiled.states⟩
    cases hempty : files with
    | nil =>
      rw [hempty, List.map_nil] at hfiles
      rw [hpack, List.map_eq_nil_iff.mp hfiles.symm] at hpacks
      have hst : s.st = st₀ := by
        have hafter := hfiled.after
        rw [← hpacks] at hafter
        exact hafter
      rw [hfiled.messages, hempty, hnil, hst]
      rfl
    | cons f rest =>
      rw [hfiled.messages, hempty, hnil]
      simp [queryMessages, stateIf]
  · -- the held rows are the last file
    have hne : (heldRows s).isEmpty = false := by simp [hrows]
    rw [List.concat_eq_append] at hrows
    have hpack : (Buffer.pack c.batchSize units).2.isEmpty = false := by
      rw [← List.isEmpty_map (f := record), ← hheld]
      simp [hrows]
    have hlast : (heldRows s).getLast? = some last := by simp [hrows]
    have hupdate : update st₀ last = (s.st, none) := by
      obtain ⟨row, hrow, hrec⟩ := getLast_of_map hheld hlast
      refine update_of_after hfiled.after ?_ hrec
      rw [← hpacks, List.getLast?_append, hrow]
      rfl
    refine ⟨files ++ [(heldRows s, s.st)], ?_, ?_, ?_⟩
    · rw [hfiled.messages, hne]
      simp [queryMessages, stateIf, fileMessages]
    · rw [List.map_append, hfiles, Buffer.packs, Buffer.closePacks, hpack]
      simp [hheld]
    · intro f hf
      rcases List.mem_append.mp hf with hf | hf
      · exact hfiled.states f hf
      · rw [List.mem_singleton.mp hf]
        exact ⟨last, hlast, hupdate⟩

theorem query_files (hq : LawfulQuery render update record) {error : Option Err}
    (h : (Loop.run (queryStep e version time render update) (queryEnd error) units
      ⟨st₀, some (.new e.stream c), 0, false⟩).2.2 = none) :
    ∃ files, (Loop.run (queryStep e version time render update) (queryEnd error) units
        ⟨st₀, some (.new e.stream c), 0, false⟩).1 =
        queryMessages e.stream c.format st₀ files ∧
      (files.map fun f => f.1.map Except.ok) =
        (Buffer.packs c.batchSize units).map (List.map record) ∧
      ∀ f ∈ files, ∃ last, f.1.getLast? = some last ∧ update st₀ last = (f.2, none) := by
  rcases Loop.run_cases (queryStep e version time render update) (queryEnd error) units
    ⟨st₀, some (.new e.stream c), 0, false⟩ with
    ⟨out, s, hr, ho⟩ | ⟨a, unit, b, out, s, em, t, -, -, hstep, ho⟩
  · obtain ⟨files, hfiled⟩ := reaches_filed hq hr
    rw [ho] at h ⊢
    cases error with
    | some err => simp [queryEnd] at h
    | none => exact hfiled.close
  · obtain ⟨err, herr, -⟩ := queryStep_halt hstep
    rw [ho, herr] at h
    cases h

end Loop

/-! ### The two loops of the source -/

section Source

variable {e : CatalogEntry} {columns : List String} {version : Val} {time : String}
  {c : BatchConfig} {f : Fetch} {st : State}

/-- The bookmark update of a query that starts in the state `st`. -/
def queryUpdate (e : CatalogEntry) (c : BatchConfig) (st : State) :
    State → Record → State × Option Err :=
  bookmarkUpdate e (some c) (st.getBookmark e.tapStreamId "replication_key")

/-- What the messages of a query say of its files. -/
structure FilesOf (stream : String) (format : BatchFormat)
    (update : State → Record → State × Option Err) (st : State) (units : List (List Row))
    (record : Row → Except Err Record) (size : ℕ) (messages : List Message) : Prop where
  rows : (batchFiles messages).map (List.map Except.ok) =
    (Buffer.packs size units).map (List.map record)
  states : stateCount messages = max 1 (batchFiles messages).length
  follow : units.flatten ≠ [] → StatesFollowFiles update st messages

theorem filesOf_queryMessages {stream : String} {format : BatchFormat}
    {update : State → Record → State × Option Err} {units : List (List Row)}
    {record : Row → Except Err Record} {size : ℕ} {files : List WrittenFile}
    (hrows : (files.map fun f => f.1.map Except.ok) =
      (Buffer.packs size units).map (List.map record))
    (hstates : ∀ f ∈ files, ∃ last, f.1.getLast? = some last ∧ update st last = (f.2, none)) :
    FilesOf stream format update st units record size (queryMessages stream format st files) := by
  cases hfiles : files with
  | nil =>
    rw [hfiles] at hrows
    have hpacks : Buffer.packs size units = [] := List.map_eq_nil_iff.mp hrows.symm
    refine ⟨by rw [hpacks]; rfl, rfl, fun hne => ?_⟩
    rw [← Buffer.flatten_packs size, hpacks] at hne
    exact absurd rfl hne
  | cons f rest =>
    rw [← hfiles]
    have hmessages : queryMessages stream format st files =
        files.flatMap (fileMessages stream format) := by rw [queryMessages, hfiles]; rfl
    rw [hmessages]
    refine ⟨?_, ?_, fun _ => statesFollowFiles_fileMessages hstates⟩
    · rw [batchFiles_fileMessages, ← hrows, List.map_map]
      rfl
    · rw [stateCount_fileMessages, batchFiles_fileMessages, List.length_map, hfiles,
        List.length_cons, Nat.max_eq_right (Nat.le_add_left _ _)]

theorem syncQuery_files (h : (syncQuery e st columns version time (some c) f).2.2 = none) :
    FilesOf e.stream c.format (queryUpdate e c st) st (fetchUnits (some c) f.chunks)
      (rowRecord e columns (some c) f.names) c.batchSize
      (syncQuery e st columns version time (some c) f).1 := by
  rw [syncQuery_eq] at h ⊢
  obtain ⟨files, hout, hrows, hstates⟩ := query_files (query_source f.names _) h
  have hout' : (Loop.run (queryStep e version time (renderUnit e columns (some c) f.names)
      (bookmarkUpdate e (some c) (st.getBookmark e.tapStreamId "replication_key")))
      (queryEnd f.error) (fetchUnits (some c) f.chunks)
      ⟨st, (some c).map (.new e.stream), 0, false⟩).1 =
        queryMessages e.stream c.format st files := hout
  rw [hout']
  exact filesOf_queryMessages hrows hstates

theorem mem_dropLast_packs {size : ℕ} {units : List (List Row)} {p : List Row}
    (h : p ∈ (Buffer.packs size units).dropLast) : p ∈ (Buffer.pack size units).1 := by
  rw [Buffer.packs, Buffer.closePacks] at h
  split_ifs at h
  · exact (List.dropLast_sublist _).subset h
  · rwa [List.dropLast_concat] at h

/-- A JSONL query that returns has written files that concatenate to its records, all but the last
of exactly the batch size and none empty, and a STATE with the bookmark of its last record behind
each of them. -/
theorem jsonl_batches_partition (hc : c.format = .jsonl)
    (hret : (syncQuery e st columns version time (some c) f).2.2 = none) :
    let o := (syncQuery e st columns version time (some c) f).1
    (batchFiles o).flatten.map Except.ok =
        f.rows.map (fun row => rowToSingerRecord e row columns) ∧
      (∀ file ∈ (batchFiles o).dropLast, file.length = c.batchSize) ∧
      (∀ file ∈ batchFiles o, file ≠ [] ∧ file.length ≤ c.batchSize) ∧
      stateCount o = max 1 ((f.rows.length + c.batchSize - 1) / c.batchSize) ∧
      (f.rows ≠ [] → StatesFollowFiles (queryUpdate e c st) st o) := by
  intro o
  have hfiles := syncQuery_files hret
  have harrow : isArrow (some c) = false := by simp [isArrow, Option.filter, hc]
  have hunits : fetchUnits (some c) f.chunks = f.rows.map fun row => [row] := by
    simp [fetchUnits, harrow, Fetch.rows]
  have hrecord : rowRecord e columns (some c) f.names =
      fun row => rowToSingerRecord e row columns := by
    funext row
    simp [rowRecord, harrow]
  rw [hunits, hrecord] at hfiles
  have hflatten : (f.rows.map fun row => [row]).flatten = f.rows := by
    rw [← List.flatMap_def]
    simp
  have hexact := Buffer.length_pack_singletons c.batchSize_pos f.rows
  have hlengths : (batchFiles o).map List.length =
      (Buffer.packs c.batchSize (f.rows.map fun row => [row])).map List.length := by
    have h := congrArg (List.map List.length) hfiles.rows
    simpa [Function.comp_def] using h
  have hmem : ∀ file ∈ batchFiles o, ∃ p ∈ Buffer.packs c.batchSize (f.rows.map fun row => [row]),
      p.length = file.length := by
    intro file hfile
    have hin := List.mem_map_of_mem (f := List.length) hfile
    rw [hlengths] at hin
    exact List.mem_map.mp hin
  refine ⟨?_, ?_, ?_, ?_, fun hne => hfiles.follow (by rwa [hflatten])⟩
  · rw [List.map_flatten, hfiles.rows, ← List.map_flatten, Buffer.flatten_packs, hflatten]
  · intro file hfile
    have hin := List.mem_map_of_mem (f := List.length) hfile
    rw [List.map_dropLast, hlengths, ← List.map_dropLast] at hin
    obtain ⟨p, hp, hlen⟩ := List.mem_map.mp hin
    rw [← hlen]
    exact hexact p (mem_dropLast_packs hp)
  · intro file hfile
    obtain ⟨p, hp, hlen⟩ := hmem file hfile
    have hne := Buffer.packs_ne_nil c.batchSize_pos _ p hp
    have hle := (Buffer.packs_le_iff c.batchSize_pos _).mpr
      (Buffer.meets_of_length_pack hexact) p hp
    refine ⟨fun hnil => hne ?_, hlen ▸ hle⟩
    rw [hnil] at hlen
    exact List.length_eq_zero_iff.mp hlen
  · rw [hfiles.states, ← @List.length_map _ _ (batchFiles o) List.length, hlengths,
      List.length_map, Buffer.length_packs c.batchSize_pos hexact, hflatten]

/-- The files of an Arrow query that returns concatenate to the rows received and none is empty,
and the STATE messages follow them; and none is larger than the batch size exactly when the
record batches meet every multiple of it. -/
theorem arrow_batches_within_iff (hc : c.format = .arrow)
    (hret : (syncQueryArrow e st version time c f).2.2 = none) :
    let o := (syncQueryArrow e st version time c f).1
    ((batchFiles o).flatten = f.rows.map (castBooleanColumns e f.names) ∧
        (∀ file ∈ batchFiles o, file ≠ [] ∧ file.length ≤ c.batchSize) ∧
        (f.rows ≠ [] → StatesFollowFiles (queryUpdate e c st) st o)) ↔
      Buffer.MeetsMultiples c.batchSize f.chunks := by
  have harrow : syncQueryArrow e st version time c f =
      syncQuery e st [] version time (some c) f := by simp [syncQuery, Option.filter, hc]
  rw [harrow] at hret ⊢
  intro o
  have hfiles := syncQuery_files hret
  have hisArrow : isArrow (some c) = true := by simp [isArrow, Option.filter, hc]
  have hunits : fetchUnits (some c) f.chunks = f.chunks := by simp [fetchUnits, hisArrow]
  have hrecord : rowRecord e [] (some c) f.names =
      fun row => .ok (castBooleanColumns e f.names row) := by
    funext row
    simp [rowRecord, hisArrow]
  rw [hunits, hrecord] at hfiles
  have hrows : batchFiles o = (Buffer.packs c.batchSize f.chunks).map
      (List.map (castBooleanColumns e f.names)) := by
    have hinj : Function.Injective (List.map (Except.ok (ε := Err) (α := Record))) :=
      List.map_injective_iff.mpr fun _ _ h => Except.ok.inj h
    apply List.map_injective_iff.mpr hinj
    rw [hfiles.rows]
    simp [Function.comp_def]
  rw [← Buffer.packs_le_iff c.batchSize_pos]
  constructor
  · rintro ⟨-, hle, -⟩ p hp
    have hin : p.map (castBooleanColumns e f.names) ∈ batchFiles o := by
      rw [hrows]
      exact List.mem_map_of_mem hp
    simpa using (hle _ hin).2
  · intro hle
    refine ⟨?_, ?_, hfiles.follow⟩
    · rw [hrows, ← List.map_flatten, Buffer.flatten_packs]
      rfl
    · intro file hfile
      rw [hrows] at hfile
      obtain ⟨p, hp, rfl⟩ := List.mem_map.mp hfile
      refine ⟨?_, by simpa using hle p hp⟩
      simpa using Buffer.packs_ne_nil c.batchSize_pos _ p hp

end Source

namespace Sample

def filesOfTwo (format : BatchFormat) : BatchConfig := ⟨2, format, Nat.two_pos⟩

/-- The rows with these keys, in chunks. -/
def fetchOf (chunks : List (List Int)) : Fetch :=
  ⟨["id"], chunks.map fun keys => keys.map fun n => [.int n], none⟩

def keyedById : State := State.empty.writeBookmark "db-t" "replication_key" (.str "id")

end Sample

open Sample

/-- Four rows in files of two: the last row completes a file and no STATE is repeated. -/
theorem jsonl_batches_partition_four :
    let o := (syncQuery (streamOf "INCREMENTAL") keyedById ["id"] .null ""
      (some (filesOfTwo .jsonl)) (fetchOf [[1, 2, 3], [4]])).1
    (batchFiles o).map List.length = [2, 2] ∧ stateCount o = 2 := by
  intro o
  have h := @jsonl_batches_partition (streamOf "INCREMENTAL") ["id"] .null ""
    (filesOfTwo .jsonl) (fetchOf [[1, 2, 3], [4]]) keyedById rfl (by decide)
  exact ⟨by decide, h.2.2.2.1.trans (by decide)⟩

theorem arrow_batches_within_iff_four :
    let o := syncQueryArrow (streamOf "INCREMENTAL") keyedById .null "" (filesOfTwo .arrow)
      (fetchOf [[1], [2], [], [3, 4]])
    o.2.2 = none ∧ ∀ file ∈ batchFiles o.1, file.length ≤ 2 := by
  intro o
  have hmeets : Buffer.MeetsMultiples 2 (fetchOf [[1], [2], [], [3, 4]]).chunks :=
    (Buffer.packs_le_iff (by decide) _).mp (by decide)
  have h := (@arrow_batches_within_iff (streamOf "INCREMENTAL") .null "" (filesOfTwo .arrow)
    (fetchOf [[1], [2], [], [3, 4]]) keyedById rfl (by decide)).mpr hmeets
  exact ⟨by decide, fun file hfile => (h.2.1 file hfile).2⟩

/-- A record batch of three rows is one file, although a file is to hold two rows at most. -/
theorem arrow_file_over_batch_size :
    (syncQueryArrow (streamOf "INCREMENTAL") keyedById .null "" (filesOfTwo .arrow)
      (fetchOf [[1, 2, 3]])).2.2 = none ∧
    ∃ file ∈ batchFiles (syncQueryArrow (streamOf "INCREMENTAL") keyedById .null ""
      (filesOfTwo .arrow) (fetchOf [[1, 2, 3]])).1, (filesOfTwo .arrow).batchSize < file.length :=
  ⟨by decide, [row 1, row 2, row 3], by decide, by decide⟩

end TapMysql
