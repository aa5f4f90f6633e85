import TapMysql.Select.KeyKinds
import TapMysql.Select.Sync

/-!
# What a retry in the same process loses

A failed attempt leaves a bookmark that is ahead of what it published, by the rows that were
still in its batch writer. The next attempt starts from that bookmark with a new writer. So a
sync that returns has published every row its query had to return exactly when the failed
attempts published every row that the bookmark they left steps over. Where the server finds the
key of a record again, these are the rows of their fetches that no later statement asks for.
-/

namespace TapMysql

variable {κ : Type*} [LinearOrder κ] {db : Mysql κ} {e : CatalogEntry} {k : String}
  {table : List TableRow} {args : SyncArgs} {st : State} {server : Nat → Attempt}

/-! ### What a bookmark steps over -/

section SteppedOver

variable {config : Option BatchConfig} {cs : List SelectColumn} {sql : SelectSql}
  {asked : WithBot κ → TableRow → Prop} [∀ b, DecidablePred (asked b)]
  {key : Except Err Record → WithBot κ} {At : State → WithBot κ → Prop} {b : WithBot κ}
  {body : Nat → State → Outcome} {a : Attempt} {n : Nat} {o : Outcome}

/-- The records of the rows that `asked` asks for. -/
def askedRecords (db : Mysql κ) (e : CatalogEntry) (config : Option BatchConfig)
    (table : List TableRow) (cs : List SelectColumn) (asked : TableRow → Prop)
    [DecidablePred asked] : Multiset (Except Err Record) :=
  ((table : Multiset TableRow).filter asked).map (tableRecord db e config cs)

/-- The records of the rows that the first statement asks for and `asked` does not. -/
def steppedOver (db : Mysql κ) (e : CatalogEntry) (config : Option BatchConfig)
    (table : List TableRow) (asked : TableRow → Prop) [DecidablePred asked] (o : Outcome) :
    Multiset (Except Err Record) :=
  match o.executed with
  | [] => 0
  | (sql, _) :: _ => ((db.matching sql table : Multiset TableRow).filter fun r => ¬asked r).map
      (tableRecord db e config sql.columns)

/-- The records that the cut-off fetches published. -/
def cutOffRecords (e : CatalogEntry) (config : Option BatchConfig) (o : Outcome) :
    Multiset (Except Err Record) :=
  ↑((failedPages e config o.executed).flatMap Prod.fst)

/-- The place that the bookmark names after the cut-off fetches, if it named `b` before them. -/
def placeLeft (key : Except Err Record → WithBot κ) (b : WithBot κ) (e : CatalogEntry)
    (config : Option BatchConfig) (o : Outcome) : WithBot κ :=
  Paging.bookmarkAfter key b ((failedPages e config o.executed).flatMap fun p => p.1 ++ p.2)

/-- The attempt executed one statement, for the rows asked for at `b`. If it was cut off, it
published what had left the writer, and its state names the key of the last row received. -/
structure Asks (db : Mysql κ) (e : CatalogEntry) (config : Option BatchConfig)
    (table : List TableRow) (cs : List SelectColumn) (asked : WithBot κ → TableRow → Prop)
    [∀ b, DecidablePred (asked b)] (key : Except Err Record → WithBot κ)
    (At : State → WithBot κ → Prop) (b : WithBot κ) (o : Outcome) : Prop where
  statement : ∃ sql f, o.executed = [(sql, f)] ∧ sql.columns = cs ∧
    db.matching sql table = table.filter fun r => asked b r
  returns : o.error = none → failedPages e config o.executed = [] ∧
    publishedRecords o.messages = askedRecords db e config table cs (asked b)
  raises : ∀ err, o.error = some err → retryable config err = true → ∃ sent held,
    failedPages e config o.executed = [(sent, held)] ∧ publishedRecords o.messages = ↑sent ∧
      At o.state (Paging.bookmarkAfter key b (sent ++ held))

theorem runSelect_asks (hconfig : args.config = config) (hargs : args.columns = e.schema.keys)
    (hd : db.Delivers table sql (a.select sql))
    (hcols : selectColumns e.schema e.schema.keys = .ok sql.columns)
    (hpage : db.matching sql table = table.filter fun r => asked b r)
    (hat : ∀ st', BookmarkOf e e.schema.keys config (a.select sql).names st (a.select sql).rows
        st' → At st' (Paging.bookmarkAfter key b ((a.select sql).rows.map
          (rowRecord e e.schema.keys config (a.select sql).names)))) :
    Asks db e config table sql.columns asked key At b (runSelect e args a st sql) where
  statement := ⟨sql, a.select sql, rfl, rfl, hpage⟩
  returns := by
    intro herr
    obtain ⟨hf, hmsgs, -⟩ := runSelect_returns hconfig hargs herr
    obtain ⟨got, rest, hanswer, hrecords, hend⟩ := delivers_records config hd hcols
    refine ⟨by simp [runSelect, failedPages, hf], ?_⟩
    have hperm := hanswer.perm
    rw [hend hf, List.append_nil, hpage] at hperm
    rw [publishedRecords, Multiset.map_coe, hmsgs, hrecords, askedRecords, Multiset.filter_coe,
      Multiset.map_coe]
    exact Multiset.coe_eq_coe.mpr (hperm.map _)
  raises := by
    intro err herr hretry
    obtain ⟨hf, hmsgs, hbookmark⟩ :=
      runSelect_raises hconfig hargs herr (retryable_isOperational hretry)
    refine ⟨_, _, by simp [runSelect, failedPages, hf]; exact ⟨rfl, rfl⟩, ?_, ?_⟩
    · rw [publishedRecords, Multiset.map_coe, hmsgs]
    · rw [← List.map_append, announcedRows_append_heldBack]
      exact hat _ hbookmark

/-- A loop that returns has published what its cut-off fetches passed on and everything that the
bookmark left by them asks for. -/
theorem Tried.asks (hreader : ∀ n st b, At st b → Fails config At b (body n st) ∨
      Asks db e config table cs asked key At b (body n st))
    (h : Tried config body n st o) (hat : At st b) :
    (∃ sql f rest, o.executed = (sql, f) :: rest ∧ sql.columns = cs ∧
      db.matching sql table = table.filter fun r => asked b r) ∧
    publishedRecords o.messages = cutOffRecords e config o +
      askedRecords db e config table cs (asked (placeLeft key b e config o)) := by
  induction h generalizing b with
  | @returned n st hret =>
    rcases hreader n st b hat with hfail | hasks
    · obtain ⟨err, herr, -⟩ := hfail.error
      simp [hret] at herr
    · obtain ⟨sql, f, hexec, hstatement⟩ := hasks.statement
      obtain ⟨hpages, hpub⟩ := hasks.returns hret
      refine ⟨⟨sql, f, [], hexec, hstatement⟩, ?_⟩
      rw [hpub, cutOffRecords, placeLeft, hpages]
      exact (zero_add _).symm
  | @retried n st err o herr hretry _ ih =>
    have hexec : ((body n st).andThen o).executed = (body n st).executed ++ o.executed := rfl
    have hmsgs : ((body n st).andThen o).messages = (body n st).messages ++ o.messages := rfl
    rw [cutOffRecords, placeLeft, hexec, hmsgs, publishedRecords_append, failedPages_append]
    rcases hreader n st b hat with hfail | hasks
    · -- the attempt failed before it executed its statement
      obtain ⟨err', herr', hat'⟩ := hfail.error
      rw [herr, Option.some.injEq] at herr'
      rw [hfail.messages, hfail.executed, publishedRecords_nil, zero_add]
      exact ih (hat' (herr' ▸ hretry))
    · obtain ⟨sql, f, hfirst, hstatement⟩ := hasks.statement
      obtain ⟨sent, held, hpages, hpub, hat'⟩ := hasks.raises err herr hretry
      obtain ⟨-, hlater⟩ := ih hat'
      have hplace : placeLeft key (Paging.bookmarkAfter key b (sent ++ held)) e config o =
          Paging.bookmarkAfter key b (sent ++ held ++
            (failedPages e config o.executed).flatMap fun p => p.1 ++ p.2) :=
        (Paging.bookmarkAfter_append b (sent ++ held) _).symm
      refine ⟨⟨sql, f, o.executed, by rw [hfirst]; rfl, hstatement⟩, ?_⟩
      rw [hpages, hpub, hlater, hplace, List.singleton_append, List.flatMap_cons,
        List.flatMap_cons, ← Multiset.coe_add, add_assoc]
      rfl

/-- A loop that returns has published what its first statement asked for exactly when the cut-off
fetches published what the bookmark left by them steps over. -/
theorem Tried.publishes_iff (hreader : ∀ n st b, At st b → Fails config At b (body n st) ∨
      Asks db e config table cs asked key At b (body n st))
    (h : Tried config body n st o) (hat : At st b)
    (hmono : ∀ b b', (∀ r, asked b r → asked b' r) ∨ ∀ r, asked b' r → asked b r)
    {next : TableRow → Prop} [DecidablePred next]
    (hnext : ∀ r, asked b r → (asked (placeLeft key b e config o) r ↔ next r)) :
    dueRecords db e config table o ≤ publishedRecords o.messages ↔
      steppedOver db e config table next o ≤ cutOffRecords e config o := by
  obtain ⟨⟨sql, f, rest, hexec, hcols, hmatching⟩, hpub⟩ := h.asks hreader hat
  have hdue : dueRecords db e config table o = askedRecords db e config table cs (asked b) := by
    rw [dueRecords, hexec]
    simp only
    rw [hmatching, hcols, askedRecords, Multiset.filter_coe, Multiset.map_coe]
  have hstepped : steppedOver db e config table next o =
      (((table : Multiset TableRow).filter (asked b)).filter
        fun r => ¬asked (placeLeft key b e config o) r).map (tableRecord db e config cs) := by
    rw [steppedOver, hexec]
    simp only
    rw [hmatching, hcols, ← Multiset.filter_coe]
    congr 1
    exact Multiset.filter_congr fun r hr =>
      (not_congr (hnext r (Multiset.mem_filter.mp hr).2)).symm
  rw [hdue, hpub, hstepped]
  exact Paging.le_add_filter_iff _ (hmono b _) _

end SteppedOver

namespace FullTable

variable {autoIncrement : String → Bool}

/-- The window of a pass above `b`. -/
def AskedPk (db : Mysql κ) (k : String) (top : κ) (b : WithBot κ) (r : TableRow) : Prop :=
  b < db.place (r.cell k) ∧ db.place (r.cell k) ≤ ↑top

instance (top : κ) (b : WithBot κ) : DecidablePred (AskedPk db k top b) :=
  fun _ => inferInstanceAs (Decidable (_ ∧ _))

theorem attempt_asks (hk : AutoKeyed e k table) (hargs : args.columns = e.schema.keys)
    {cs : List SelectColumn} (hcs : selectColumns e.schema e.schema.keys = .ok cs) {top : κ}
    (hserver : ∀ n, Answers db e table (server n)) (n : Nat) (st : State) (b : WithBot κ)
    (hat : At db e k table top st b) :
    Fails args.config (At db e k table top) b (attempt e true args (server n) st) ∨
      Asks db e args.config table cs (AskedPk db k top) (recordPlace db k)
        (At db e k table top) b (attempt e true args (server n) st) := by
  rcases attempt_runs hk hargs hcs (hserver n) hat with
    hfail | ⟨st', sql, sql', rfl, hat', ht, htop, hclause, ho⟩
  · exact Or.inl hfail
  · obtain ⟨hcols, -, max, hmax, hsel⟩ := generatePkClause_ok db hk.keys hclause
    obtain ⟨max', hmax', hbound⟩ := htop
    rw [hmax, Except.ok.injEq] at hmax'
    subst hmax'
    rw [ho, ← hcols]
    rw [← hcols] at hcs
    refine Or.inr (runSelect_asks rfl hargs ((hserver n).select sql') hcs ?_ fun st'' h =>
      at_of_bookmarkOf hk ((hserver n).select sql') hcs hat' ht ⟨max, hmax, hbound⟩
        (fun row hrow => hrow) h)
    refine List.filter_congr fun r _ => ?_
    rw [Bool.eq_iff_iff, hsel r, hat'.floor, inWindow, hbound, decide_eq_true_eq]
    rfl

/-- A sync over an auto-incrementing key that returns has published every row its query had to
return exactly when its cut-off fetches published every row at or below the key they left. -/
theorem syncTable_publishes_iff (hk : AutoKeyed e k table) (hargs : args.columns = e.schema.keys)
    (hauto : autoIncrement k = true) (hserver : ∀ n, Answers db e table (server n))
    (hret : (syncTable e autoIncrement server args st).error = none) :
    dueRecords db e args.config table (syncTable e autoIncrement server args st) ≤
        publishedRecords (syncTable e autoIncrement server args st).messages ↔
      steppedOver db e args.config table
          (fun r => placeLeft (recordPlace db k) (pkFloor db e k st) e args.config
            (syncTable e autoIncrement server args st) < db.place (r.cell k))
          (syncTable e autoIncrement server args st) ≤
        cutOffRecords e args.config (syncTable e autoIncrement server args st) := by
  obtain ⟨herr, hexec, -⟩ := syncTable_loop e autoIncrement server args st
  have hpub := publishedRecords_syncTable e autoIncrement server args st
  rw [hret] at herr
  rcases eq_or_ne table [] with rfl | hne
  · refine iff_of_true (by rw [dueRecords_of_empty]; exact Multiset.zero_le _) ?_
    rw [steppedOver]
    split <;> exact Multiset.zero_le _
  · rcases loop_at db hk hne hargs hauto server st with ⟨hsome, -⟩ | ⟨cs, top, hcs, hat⟩
    · simp [← herr] at hsome
    · rw [hpub, dueRecords, steppedOver, cutOffRecords, placeLeft, hexec, ← dueRecords,
        ← cutOffRecords, loop_eq hk.keys hauto]
      rw [loop_eq hk.keys hauto] at herr
      refine (attempts_returns (by decide) herr.symm).publishes_iff
        (attempt_asks hk hargs hcs hserver) hat (fun b b' => ?_) fun r hr => ?_
      · exact (le_total b' b).imp (fun hle r hr => ⟨hle.trans_lt hr.1, hr.2⟩)
          fun hle r hr => ⟨hle.trans_lt hr.1, hr.2⟩
      · exact and_iff_left hr.2

/-- Over a column that is not described as boolean this is when no fetch that was cut off left a
row in the writer. -/
theorem syncTable_publishes_iff_held (hk : IntegerKeyed e k table)
    (hargs : args.columns = e.schema.keys) (hauto : autoIncrement k = true)
    (hserver : ∀ n, Answers db e table (server n))
    (hret : (syncTable e autoIncrement server args st).error = none) :
    dueRecords db e args.config table (syncTable e autoIncrement server args st) ≤
        publishedRecords (syncTable e autoIncrement server args st).messages ↔
      ∀ x ∈ (syncTable e autoIncrement server args st).executed, x.2.error.isSome →
        heldBack args.config x.2.chunks = [] := by
  obtain ⟨herr, hexec, -⟩ := syncTable_loop e autoIncrement server args st
  rw [hret] at herr
  have hpub := publishedRecords_syncTable e autoIncrement server args st
  rcases eq_or_ne table [] with rfl | hne
  · refine iff_of_true (by rw [dueRecords_of_empty]; exact Multiset.zero_le _) fun x hx _ => ?_
    rw [hexec, loop, retryLoop, (attempts_outcomes _ _ _).2] at hx
    obtain ⟨o, ho, hx⟩ := List.mem_flatMap.mp hx
    obtain ⟨n, hn⟩ := attemptOutcomes_executed (P := fun x => ∃ n, x.2 = (server n).select x.1)
      (fun n st x hx => ⟨n, attempt_executed (server n) _ x hx⟩) o ho x hx
    exact heldBack_of_empty (hn ▸ (hserver n).select x.1) args.config
  · rcases loop_starts db hk hne hargs hauto hserver st with ⟨hsome, -⟩ |
      ⟨cs, top, hcs, hat, hreader⟩
    · simp [← herr] at hsome
    · rw [hexec, hpub, dueRecords, hexec, ← dueRecords, loop_eq hk.keys hauto]
      rw [loop_eq hk.keys hauto] at herr
      have htried := attempts_returns (by decide) herr.symm
      obtain ⟨hex, hextra, b', hsession, hsent⟩ := session_of_tried hreader htried hat
      have hcovers := hsession.covers_iff 0
      rw [zero_add] at hcovers
      rw [due_of_executed hreader hat hex, hsent, hcovers, hsession.recovered_iff hextra (by simp),
        Paging.attempts_held_eq_zero, failedPages_held]

end FullTable

/-- The server finds the integer and time stamp keys of a stream again. -/
theorem KeyedStream.replicationKeyed {kind : KeyKind} (hk : KeyedStream kind k e)
    (hdb : db.OrdersDateTimes) (htyped : TypedSchema e)
    (hcells : ∀ r ∈ table, kind.Cell (r.cell k)) (config : Option BatchConfig) :
    ReplicationKeyed db e k config table where
  method := hk.method
  key := hk.key
  typed := htyped
  readBack := by
    intro cs hcs
    obtain ⟨p, hp, hcolumn⟩ := hk.column
    exact keyReadBack_kind hdb htyped hcs hp hcolumn hcells

namespace Incremental

theorem body_asks (hmethod : e.replicationMethod = .incremental)
    (hkey : e.streamMetadata "replication-key" = .str k) (hargs : args.columns = e.schema.keys)
    {cs : List SelectColumn} (hcs : selectColumns e.schema e.schema.keys = .ok cs)
    (hserver : ∀ n, Answers db e table (server n)) (n : Nat) (st : State) (b : WithBot κ)
    (hat : At db e k st b) :
    Fails args.config (At db e k) b (body e args server n st) ∨
      Asks db e args.config table cs (fun b r => b ≤ db.place (r.cell k)) (recordPlace db e k)
        (At db e k) b (body e args server n st) := by
  rcases attempt_runs hargs hcs (server n) hat with
    hfail | ⟨sql, sql', rfl, hconds, hclause, ho⟩
  · exact Or.inl hfail
  · rw [hkey] at hclause
    obtain ⟨hcols, -, hsel⟩ := whereClause_ok db hconds hclause
    rw [body, ho, ← hcols]
    rw [← hcols] at hcs
    refine Or.inr (runSelect_asks rfl hargs ((hserver n).select sql') hcs ?_
      fun st' h => at_of_bookmarkOf hmethod hat h)
    refine List.filter_congr fun r _ => ?_
    rw [Bool.eq_iff_iff, hsel r, ← hat.floor, decide_eq_true_eq]
    rfl

/-- The loop of a sync that returns, as a run of attempts. -/
theorem tried_of_returns (hkey : e.streamMetadata "replication-key" = .str k)
    (server : Nat → Attempt) (args : SyncArgs) (now : Int) (st : State)
    (hret : (syncTable e server args now st).error = none) :
    ∃ o, Tried args.config (body e (versionedArgs e args now st) server) 0 (versioned e now st) o ∧
      publishedRecords (syncTable e server args now st).messages = publishedRecords o.messages ∧
      (syncTable e server args now st).executed = o.executed ∧
      o = attempts args.config (body e (versionedArgs e args now st) server) maxSyncRetries 0
        (versioned e now st) := by
  obtain ⟨hsync, -⟩ := syncTable_loop server args now st hkey
  refine ⟨_, attempts_returns (by decide) ?_, ?_, by rw [hsync], rfl⟩
  · rw [hsync] at hret
    exact hret
  · rw [hsync]
    simp [publishedRecords, published, Message.rows]

/-- An incremental sync that returns has published every row its query had to return exactly
when its cut-off fetches published every row below the key they left. -/
theorem syncTable_publishes_iff (hmethod : e.replicationMethod = .incremental)
    (hkey : e.streamMetadata "replication-key" = .str k) (hargs : args.columns = e.schema.keys)
    (hserver : ∀ n, Answers db e table (server n)) {now : Int}
    (hret : (syncTable e server args now st).error = none) :
    dueRecords db e args.config table (syncTable e server args now st) ≤
        publishedRecords (syncTable e server args now st).messages ↔
      steppedOver db e args.config table
          (fun r => placeLeft (recordPlace db e k) (startFloor db e k st) e args.config
            (syncTable e server args now st) ≤ db.place (r.cell k))
          (syncTable e server args now st) ≤
        cutOffRecords e args.config (syncTable e server args now st) := by
  obtain ⟨hat, -⟩ := versioned_at db st now hkey
  obtain ⟨o, htried, hpub, hexec, -⟩ := tried_of_returns hkey server args now st hret
  rcases body_starts hargs server now st with hfail | ⟨cs, hcs⟩
  · exact absurd hfail htried.not_failsForGood
  · have hargs' : (versionedArgs e args now st).columns = e.schema.keys := hargs
    rw [hpub, dueRecords, steppedOver, cutOffRecords, placeLeft, hexec, ← dueRecords,
      ← cutOffRecords]
    exact htried.publishes_iff (body_asks hmethod hkey hargs' hcs hserver) hat
      (fun b b' => (le_total b' b).imp (fun hle r hr => hle.trans hr)
        fun hle r hr => hle.trans hr) fun r _ => Iff.rfl

/-- Where the server finds the key of a record again this is when every row that a cut-off fetch
left in the writer is asked for again, or was published by an earlier attempt. -/
theorem syncTable_publishes_iff_recovered (hk : ReplicationKeyed db e k args.config table)
    (hargs : args.columns = e.schema.keys) (hserver : ∀ n, Answers db e table (server n))
    {now : Int} (hret : (syncTable e server args now st).error = none) :
    dueRecords db e args.config table (syncTable e server args now st) ≤
        publishedRecords (syncTable e server args now st).messages ↔
      Paging.Recovered (fun b x => b ≤ recordPlace db e k x) 0
        (Paging.attempts (recordPlace db e k) (startFloor db e k st)
          (failedPages e args.config (syncTable e server args now st).executed)) := by
  obtain ⟨hat, -⟩ := versioned_at db st now hk.key
  obtain ⟨o, htried, hpub, hexec, hloop⟩ := tried_of_returns hk.key server args now st hret
  rw [dueRecords, hexec, ← dueRecords, hpub]
  rcases loop_starts hk hargs hserver now st with hfail | ⟨cs, hcs, hreader⟩
  · exact absurd hfail htried.not_failsForGood
  · obtain ⟨hex, -, b', hsession, hsent⟩ := session_of_tried hreader htried hat
    have hcovers := hsession.covers_iff 0
    rw [zero_add] at hcovers
    rw [hloop] at hex hsent ⊢
    rw [due_of_executed hreader hat hex, hsent, ← hloop, hcovers]

end Incremental

/-! ### Both strategies -/

namespace Sample

def batchesOfTwo : SyncArgs := ⟨["id"], .int 7, "2024-01-01T00:00:00Z", some ⟨2, .jsonl, by decide⟩⟩

/-- The first fetch is lost after `n` rows. -/
def lostAfter (n : Nat) : Nat → Option (Nat × Err)
  | 0 => some (n, connectionLost)
  | _ + 1 => none

def fullSync (cut : Nat → Option (Nat × Err)) : Outcome :=
  FullTable.syncTable (streamOf "FULL_TABLE") (fun _ => true) (serverOf ([1, 2, 3].map row) cut)
    batchesOfTwo State.empty

def incrementalSync (cut : Nat → Option (Nat × Err)) : Outcome :=
  Incremental.syncTable (streamOf "INCREMENTAL") (serverOf ([1, 2, 3].map row) cut) batchesOfTwo
    7 State.empty

theorem integerReplicationKeyed (ids : List Int) :
    IntegerReplicationKeyed (streamOf "INCREMENTAL") "id" (ids.map row) where
  method := by decide
  key := by decide
  typed := typedSchema _
  column := ⟨_, integerColumn_id⟩
  cells := by
    intro r hr
    obtain ⟨n, -, rfl⟩ := List.mem_map.mp hr
    exact Or.inr ⟨n, rfl⟩

/-- A server that reads TRUE as 1, as MySQL does. -/
def flagServer : Mysql Int where
  place := intServer.place
  bound v := match v with
    | .int n => n
    | .bool true => 1
    | _ => 0
  hex := intServer.hex
  asGeoJson := intServer.asGeoJson
  place_eq_bot := intServer.place_eq_bot
  place_int _ := rfl
  bound_int_lt _ _ := Iff.rfl

/-- A FULL_TABLE stream whose key is a TINYINT(1) column. -/
def flagStream : CatalogEntry :=
  { streamOf "FULL_TABLE" with
    schema := Dict.ofList [("id", { PropSchema.blank with
      type := some ["null", "boolean"], inclusion := some .automatic })] }

def flagArgs : SyncArgs := ⟨["id"], .int 7, "2024-01-01T00:00:00Z", none⟩

def flagAttempt (cut : Nat → Option (Nat × Err)) (n : Nat) : Attempt where
  maxPk := .ok (flagServer.maxPk ([-2, -1, 1].map row) ["id"])
  select := flagServer.deliver ([-2, -1, 1].map row) (cut n)

def flagSync (cut : Nat → Option (Nat × Err)) : Outcome :=
  FullTable.syncTable flagStream (fun _ => true) (flagAttempt cut) flagArgs State.empty

theorem flagStream_keyed : AutoKeyed flagStream "id" ([-2, -1, 1].map row) where
  keys := by decide
  method := by decide
  typed := by
    have h : ∀ p ∈ flagStream.schema.entries, p.2.type.isSome := by decide
    exact h
  column := ⟨{ PropSchema.blank with
    type := some ["null", "boolean"], inclusion := some .automatic }, by decide, Or.inr ⟨rfl, rfl⟩⟩
  cells := by
    intro r hr
    obtain ⟨n, -, rfl⟩ := List.mem_map.mp hr
    exact ⟨n, rfl⟩
  nodup := by decide

/-- Two rows with time stamps, and one without. -/
def stampTable : List TableRow :=
  [stampRow .null, stampRow (.datetime (second 1)), stampRow (.datetime (second 2))]

def stampSync (cut : Nat → Option (Nat × Err)) : Outcome :=
  Incremental.syncTable stampStream
    (fun n => ⟨.error connectionLost, keyServer.deliver stampTable (cut n)⟩)
    ⟨["at"], .null, "2024-03-01T00:00:00Z", none⟩ 7 State.empty

end Sample

open Sample

end TapMysql
