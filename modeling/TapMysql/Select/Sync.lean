import Mathlib.Data.Finset.Max
import TapMysql.Select.KeyPages

/-!
# The syncs of both strategies as loops of page reads

`sync_table` writes ACTIVATE_VERSION before or after its retry loop, which publishes nothing. Its
loop starts at the place that the bookmark names, or its first attempt fails for good.
-/

namespace TapMysql

variable {κ : Type*} [LinearOrder κ] {db : Mysql κ} {e : CatalogEntry} {k : String}
  {table : List TableRow} {args : SyncArgs} {st : State}

theorem heldBack_of_empty {sql : SelectSql} {f : Fetch} (hd : db.Delivers [] sql f)
    (config : Option BatchConfig) : heldBack config f.chunks = [] := by
  obtain ⟨got, rest, hanswer, hrows, -⟩ := hd.rows
  have hnil : got ++ rest = [] := List.perm_nil.mp hanswer.perm
  rw [(List.append_eq_nil_iff.mp hnil).1, List.map_nil, Fetch.rows,
    ← announcedRows_append_heldBack config] at hrows
  exact (List.append_eq_nil_iff.mp hrows).2

theorem dueRecords_of_empty (config : Option BatchConfig) (o : Outcome) :
    dueRecords db e config [] o = 0 := by
  rw [dueRecords]
  split <;> rfl

/-! ### FULL_TABLE and LOG_BASED snapshots -/

namespace FullTable

variable {autoIncrement : String → Bool} {server : Nat → Attempt}

/-- The outcomes of the attempts of a sync. -/
def retryOutcomes (e : CatalogEntry) (autoIncrement : String → Bool) (server : Nat → Attempt)
    (args : SyncArgs) (st : State) : List Outcome :=
  attemptOutcomes args.config
    (fun n st => attempt e (pksAreAutoIncrementing autoIncrement e) args (server n) st)
    maxSyncRetries 0 (whitelistBookmarkKeys (generateBookmarkKeys e) e.tapStreamId st)

/-- The retry loop of a sync, from the bookmark keys that it keeps. -/
def loop (e : CatalogEntry) (autoIncrement : String → Bool) (server : Nat → Attempt)
    (args : SyncArgs) (st : State) : Outcome :=
  retryLoop e autoIncrement server args
    (whitelistBookmarkKeys (generateBookmarkKeys e) e.tapStreamId st)

theorem syncTable_loop (e : CatalogEntry) (autoIncrement : String → Bool)
    (server : Nat → Attempt) (args : SyncArgs) (st : State) :
    (syncTable e autoIncrement server args st).error =
        (loop e autoIncrement server args st).error ∧
      (syncTable e autoIncrement server args st).executed =
        (loop e autoIncrement server args st).executed ∧
      ∃ closing, (closing = [] ∨ closing = [activateVersion e args]) ∧
        (syncTable e autoIncrement server args st).messages =
          firstActivation e args
              (whitelistBookmarkKeys (generateBookmarkKeys e) e.tapStreamId st) ++
            (loop e autoIncrement server args st).messages ++ closing := by
  unfold loop syncTable
  simp only
  split
  · rename_i err herr
    exact ⟨herr.symm, rfl, [], Or.inl rfl, by simp⟩
  · rename_i herr
    exact ⟨herr.symm, rfl, _, Or.inr rfl, rfl⟩

theorem publishedRecords_firstActivation :
    publishedRecords (firstActivation e args st) = 0 := by
  rw [firstActivation]
  split_ifs <;> simp [publishedRecords, activateVersion, published, Message.rows]

theorem publishedRecords_activateVersion : publishedRecords [activateVersion e args] = 0 := by
  simp [publishedRecords, activateVersion, published, Message.rows]

theorem publishedRecords_syncTable (e : CatalogEntry) (autoIncrement : String → Bool)
    (server : Nat → Attempt) (args : SyncArgs) (st : State) :
    publishedRecords (syncTable e autoIncrement server args st).messages =
      publishedRecords (loop e autoIncrement server args st).messages := by
  obtain ⟨-, -, closing, hclosing, hmsgs⟩ := syncTable_loop e autoIncrement server args st
  rw [hmsgs, publishedRecords_append, publishedRecords_append, publishedRecords_firstActivation,
    zero_add]
  rcases hclosing with rfl | rfl
  · rw [publishedRecords_nil, add_zero]
  · rw [publishedRecords_activateVersion, add_zero]

theorem attempt_executed (a : Attempt) (autoIncrementing : Bool) :
    ∀ x ∈ (attempt e autoIncrementing args a st).executed, x.2 = a.select x.1 := by
  intro x hx
  rw [attempt] at hx
  split at hx
  · simp [Outcome.failed] at hx
  · split_ifs at hx
    · split at hx
      · simp [Outcome.failed] at hx
      · split_ifs at hx
        · simp only at hx
          split at hx
          · simp [Outcome.failed] at hx
          · rw [List.mem_singleton.mp hx]
        · rw [List.mem_singleton.mp hx]
    · rw [List.mem_singleton.mp hx]

/-- Before its first statement a pass over a table that is not empty is at its beginning. -/
theorem At.start (db : Mysql κ) (hk : AutoKeyed e k table) (hne : table ≠ [])
    (ht : (st.getBookmark e.tapStreamId "max_pk_values").truthy = false) :
    ∃ top, At db e k table top st (pkFloor db e k st) := by
  have hne' : (↑table : Multiset TableRow) ≠ 0 := by simpa using hne
  obtain ⟨r, hr, hmax⟩ := Multiset.exists_max_image (fun r => db.place (r.cell k)) hne'
  obtain ⟨n, hn⟩ := hk.cells r (by simpa using hr)
  have hplace : db.place (r.cell k) = ↑(db.bound (.int n)) := by rw [hn, db.place_int]
  refine ⟨db.bound (.int n), rfl, Or.inr ⟨ht, ⟨r, by simpa using hr, hplace⟩, fun s hs => ?_⟩⟩
  rw [← hplace]
  exact hmax s (by simpa using hs)

theorem attempt_starts (db : Mysql κ) (hk : AutoKeyed e k table) (hne : table ≠ [])
    (args : SyncArgs) (a : Attempt) (st : State) :
    FailsForGood (attempt e true args a st) ∨
      ((∃ sql, generateSelectSql e args.columns = .ok sql) ∧
        ∃ top, At db e k table top st (pkFloor db e k st)) := by
  cases hs : generateSelectSql e args.columns with
  | error err =>
    refine Or.inl ?_
    rw [attempt, hs]
    exact ⟨rfl, rfl, err, rfl, generateSelectSql_error hs⟩
  | ok sql =>
    cases ht : (st.getBookmark e.tapStreamId "max_pk_values").truthy with
    | false => exact Or.inr ⟨⟨sql, rfl⟩, At.start db hk hne ht⟩
    | true =>
      cases hp : pkValue (st.getBookmark e.tapStreamId "max_pk_values") k with
      | ok max => exact Or.inr ⟨⟨sql, rfl⟩, db.bound max, rfl, Or.inl ⟨ht, max, hp, rfl⟩⟩
      | error err =>
        -- without a key in `max_pk_values` the attempt gets no statement
        have hpass : passMaximum e a st =
            .ok (st.getBookmark e.tapStreamId "max_pk_values") := by simp [passMaximum, ht]
        refine Or.inl ?_
        rcases attempt_cases e args a st with ⟨err', ho, hno | hf⟩ | ⟨_, _, -, hm, hf, -⟩ |
          ⟨_, _, -, hm, -, ⟨err', ho, hno⟩ | ⟨sql', hclause, -⟩⟩
        · rw [ho]
          exact ⟨rfl, rfl, err', rfl, hno⟩
        · rw [hpass] at hf
          cases hf
        · rw [hpass, Except.ok.injEq] at hm
          simp [← hm, ht] at hf
        · rw [ho]
          exact ⟨rfl, rfl, err', rfl, hno⟩
        · rw [hpass, Except.ok.injEq] at hm
          subst hm
          obtain ⟨-, -, max, hmax, -⟩ := generatePkClause_ok db hk.keys hclause
          simp [hp] at hmax

theorem mem_generateBookmarkKeys {key : String}
    (hkey : key ∈ ["last_pk_fetched", "max_pk_values", "version", "initial_full_table_complete"]) :
    key ∈ generateBookmarkKeys e := by
  rw [generateBookmarkKeys]
  split_ifs
  · exact hkey
  · exact List.mem_append_left _ hkey

theorem getBookmark_whitelist {key : String} (hkey : key ∈ generateBookmarkKeys e) :
    (whitelistBookmarkKeys (generateBookmarkKeys e) e.tapStreamId st).getBookmark e.tapStreamId
      key = st.getBookmark e.tapStreamId key := by
  rw [getBookmark_whitelistBookmarkKeys]
  simp [hkey]

theorem pkFloor_whitelist :
    pkFloor db e k (whitelistBookmarkKeys (generateBookmarkKeys e) e.tapStreamId st) =
      pkFloor db e k st := by
  rw [pkFloor, pkFloor, getBookmark_whitelist (mem_generateBookmarkKeys (by simp))]

/-- A STATE of a pass, read back by a new process, names the same place. -/
theorem At.whitelist {top : κ} {b : WithBot κ} (hat : At db e k table top st b) :
    At db e k table top
      (whitelistBookmarkKeys (generateBookmarkKeys e) e.tapStreamId st) b := by
  refine ⟨by rw [pkFloor_whitelist]; exact hat.floor, ?_⟩
  rw [getBookmark_whitelist (mem_generateBookmarkKeys (by simp))]
  exact hat.top

theorem loop_eq (hkeys : e.getKeyProperties = [k]) (hauto : autoIncrement k = true) :
    loop e autoIncrement server args st = attempts args.config
      (fun n st => attempt e true args (server n) st) maxSyncRetries 0
      (whitelistBookmarkKeys (generateBookmarkKeys e) e.tapStreamId st) := by
  simp [loop, retryLoop, pksAreAutoIncrementing, hkeys, hauto]

theorem retryOutcomes_eq (hkeys : e.getKeyProperties = [k]) (hauto : autoIncrement k = true) :
    retryOutcomes e autoIncrement server args st = attemptOutcomes args.config
      (fun n st => attempt e true args (server n) st) maxSyncRetries 0
      (whitelistBookmarkKeys (generateBookmarkKeys e) e.tapStreamId st) := by
  simp [retryOutcomes, pksAreAutoIncrementing, hkeys, hauto]

/-- The records of the pass whose maximum key stands at `top`. -/
def passRecords (db : Mysql κ) (e : CatalogEntry) (k : String) (table : List TableRow)
    (config : Option BatchConfig) (cs : List SelectColumn) (top : κ) :
    Multiset (Except Err Record) :=
  ↑((rowsUpTo db k top table).map (tableRecord db e config cs))

/-- The loop of a sync over a table that is not empty ends with its first attempt, which fails
for good, or begins at the place that its bookmark names. -/
theorem loop_at (db : Mysql κ) (hk : AutoKeyed e k table) (hne : table ≠ [])
    (hargs : args.columns = e.schema.keys) (hauto : autoIncrement k = true)
    (server : Nat → Attempt) (st : State) :
    ((loop e autoIncrement server args st).error.isSome ∧
      (loop e autoIncrement server args st).executed = [] ∧
      (loop e autoIncrement server args st).messages = []) ∨
    ∃ cs top, selectColumns e.schema e.schema.keys = .ok cs ∧
      At db e k table top (whitelistBookmarkKeys (generateBookmarkKeys e) e.tapStreamId st)
        (pkFloor db e k st) := by
  set st₀ := whitelistBookmarkKeys (generateBookmarkKeys e) e.tapStreamId st with hst₀
  rcases attempt_starts db hk hne args (server 0) st₀ with hfail | ⟨⟨sql, hsql⟩, top, hat⟩
  · refine Or.inl ?_
    have hloop : loop e autoIncrement server args st = attempt e true args (server 0) st₀ := by
      rw [loop_eq hk.keys hauto]
      exact (attempts_failsForGood hfail).1
    obtain ⟨err, herr, -⟩ := hfail.error
    rw [hloop, herr, hfail.executed, hfail.messages]
    exact ⟨rfl, rfl, rfl⟩
  · obtain ⟨hcs, -, -⟩ := generateSelectSql_eq hsql
    rw [hargs] at hcs
    rw [hst₀, pkFloor_whitelist] at hat
    exact Or.inr ⟨sql.columns, top, hcs, hat⟩

/-- A loop that does not fail for good reads pages from there on. -/
theorem loop_starts (db : Mysql κ) (hk : IntegerKeyed e k table) (hne : table ≠ [])
    (hargs : args.columns = e.schema.keys) (hauto : autoIncrement k = true)
    (hserver : ∀ n, Answers db e table (server n)) (st : State) :
    ((loop e autoIncrement server args st).error.isSome ∧
      (loop e autoIncrement server args st).executed = [] ∧
      (loop e autoIncrement server args st).messages = []) ∨
    ∃ cs top, selectColumns e.schema e.schema.keys = .ok cs ∧
      At db e k table top (whitelistBookmarkKeys (generateBookmarkKeys e) e.tapStreamId st)
        (pkFloor db e k st) ∧
      PageReader db e args.config table (fun n st => attempt e true args (server n) st)
        (passRecords db e k table args.config cs top) (recordPlace db k)
        (fun b x => b < recordPlace db k x) (At db e k table top)
        (fun a => ∀ x ∈ a.received, ¬a.bookmark < recordPlace db k x) := by
  refine (loop_at db hk.autoKeyed hne hargs hauto server st).imp_right ?_
  rintro ⟨cs, top, hcs, hat⟩
  exact ⟨cs, top, hcs, hat, pageReader hk hargs hcs hserver⟩

end FullTable

/-! ### INCREMENTAL syncs -/

namespace Incremental

variable {server : Nat → Attempt} {now : Int}

/-- The places that the first statement of a sync asks for. -/
def startFloor (db : Mysql κ) (e : CatalogEntry) (k : String) (st : State) : WithBot κ :=
  paramPlace db e k (startState e st).2

/-- The state of a sync when its loop begins. -/
def versioned (e : CatalogEntry) (now : Int) (st : State) : State :=
  (startState e st).1.writeBookmark e.tapStreamId "version"
    (getStreamVersion e.tapStreamId (startState e st).1 now)

/-- The arguments with the version that a sync carries. -/
def versionedArgs (e : CatalogEntry) (args : SyncArgs) (now : Int) (st : State) : SyncArgs :=
  { args with streamVersion := getStreamVersion e.tapStreamId (startState e st).1 now }

/-- The outcomes of the attempts of a sync. -/
def retryOutcomes (e : CatalogEntry) (server : Nat → Attempt) (args : SyncArgs) (now : Int)
    (st : State) : List Outcome :=
  attemptOutcomes args.config
    (fun n st' => attempt e (versionedArgs e args now st) (server n)
      (if n = 0 then (startState e st).2 else
        st'.getBookmark e.tapStreamId "replication_key_value") st')
    maxSyncRetries 0 (versioned e now st)

/-- The body of the loop, with the bookmark value taken from the state in every attempt. -/
def body (e : CatalogEntry) (args : SyncArgs) (server : Nat → Attempt) (n : Nat) (st : State) :
    Outcome :=
  attempt e args (server n) (st.getBookmark e.tapStreamId "replication_key_value") st

theorem versioned_at (db : Mysql κ) (st : State) (now : Int)
    (hkey : e.streamMetadata "replication-key" = .str k) :
    At db e k (versioned e now st) (startFloor db e k st) ∧
      (versioned e now st).getBookmark e.tapStreamId "replication_key_value" =
        (startState e st).2 := by
  have hvalue : (versioned e now st).getBookmark e.tapStreamId "replication_key_value" =
      (startState e st).2 := by
    unfold versioned startState
    simp only [hkey]
    split_ifs <;> simp [State.getBookmark_writeBookmark]
  refine ⟨⟨?_, by rw [keyFloor, hvalue, startFloor]⟩, hvalue⟩
  unfold versioned startState
  simp only [hkey]
  split_ifs with h
  · simp [State.getBookmark_writeBookmark, ← h]
  · simp [State.getBookmark_writeBookmark, State.getBookmark_clearBookmark]

/-- The first attempt, too, starts from the bookmark of the state. -/
theorem syncTable_loop (server : Nat → Attempt) (args : SyncArgs) (now : Int) (st : State)
    (hkey : e.streamMetadata "replication-key" = .str k) :
    syncTable e server args now st =
      { attempts args.config (body e (versionedArgs e args now st) server) maxSyncRetries 0
          (versioned e now st) with
        messages := .activateVersion e.stream (versionedArgs e args now st).streamVersion ::
          (attempts args.config (body e (versionedArgs e args now st) server) maxSyncRetries 0
            (versioned e now st)).messages } ∧
    retryOutcomes e server args now st =
      attemptOutcomes args.config (body e (versionedArgs e args now st) server) maxSyncRetries 0
        (versioned e now st) := by
  obtain ⟨-, hvalue⟩ := versioned_at intServer st now hkey
  obtain ⟨hloop, houts⟩ : attempts args.config (fun n st' =>
      attempt e (versionedArgs e args now st) (server n)
        (if n = 0 then (startState e st).2 else
          st'.getBookmark e.tapStreamId "replication_key_value") st') maxSyncRetries 0
        (versioned e now st) =
      attempts args.config (body e (versionedArgs e args now st) server) maxSyncRetries 0
        (versioned e now st) ∧ _ :=
    attempts_congr (by rw [if_pos rfl, body, hvalue])
      fun m st' hm => by rw [if_neg (Nat.ne_of_gt hm), body]
  refine ⟨?_, houts⟩
  rw [← hloop]
  rfl

theorem At.startFloor {b : WithBot κ} (hkey : e.streamMetadata "replication-key" = .str k)
    (hat : At db e k st b) : startFloor db e k st = b := by
  rw [← hat.floor, Incremental.startFloor, keyFloor, startState]
  simp only [hkey, getBookmark_whitelistBookmarkKeys]
  simp [bookmarkKeys, hat.key]

/-- The first attempt of a sync fails for good, or its columns can be selected. -/
theorem body_starts (hargs : args.columns = e.schema.keys) (server : Nat → Attempt) (now : Int)
    (st : State) :
    FailsForGood (body e (versionedArgs e args now st) server 0 (versioned e now st)) ∨
    ∃ cs, selectColumns e.schema e.schema.keys = .ok cs := by
  cases hs : generateSelectSql e args.columns with
  | error err =>
    refine Or.inl ?_
    have hs' : generateSelectSql e (versionedArgs e args now st).columns = .error err := hs
    rw [body, attempt, hs']
    exact ⟨rfl, rfl, err, rfl, generateSelectSql_error hs⟩
  | ok sql =>
    obtain ⟨hcs, -, -⟩ := generateSelectSql_eq hs
    rw [hargs] at hcs
    exact Or.inr ⟨sql.columns, hcs⟩

/-- A sync whose first attempt does not fail for good reads pages from the place that its bookmark
names. -/
theorem loop_starts (hk : ReplicationKeyed db e k args.config table)
    (hargs : args.columns = e.schema.keys) (hserver : ∀ n, Answers db e table (server n))
    (now : Int) (st : State) :
    FailsForGood (body e (versionedArgs e args now st) server 0 (versioned e now st)) ∨
    ∃ cs, selectColumns e.schema e.schema.keys = .ok cs ∧
      PageReader db e args.config table (body e (versionedArgs e args now st) server)
        ↑(table.map (tableRecord db e args.config cs)) (recordPlace db e k)
        (fun b x => b ≤ recordPlace db e k x) (At db e k) (fun _ => True) := by
  refine (body_starts hargs server now st).imp_right ?_
  rintro ⟨cs, hcs⟩
  have hk' : ReplicationKeyed db e k (versionedArgs e args now st).config table := hk
  have hargs' : (versionedArgs e args now st).columns = e.schema.keys := hargs
  exact ⟨cs, hcs, pageReader hk' hargs' hcs hserver⟩

end Incremental

end TapMysql
