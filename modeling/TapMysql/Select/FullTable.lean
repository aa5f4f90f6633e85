import TapMysql.Select.SyncQuery

/-!
# FULL_TABLE replication

`sync_table` of `sync_strategies/full_table.py`: the bookmark keys it keeps, the window of an
auto-incrementing key, and the retry loop, which `sync_strategies/incremental.py` shares. What
the server says is an input: which columns auto-increment, the row of the maximum key, and the
fetch of each statement.
-/

namespace TapMysql

/-! ### Retries -/

/-- What a sync has done so far: its messages, the shared state, the exception it ended with,
and the statements it executed with what their cursors delivered. -/
structure Outcome where
  messages : List Message
  state : State
  error : Option Err
  executed : List (SelectSql × Fetch)
  deriving DecidableEq

namespace Outcome

def failed (st : State) (err : Err) : Outcome := ⟨[], st, some err, []⟩

/-- The outcome of going on after `o`. -/
def andThen (o next : Outcome) : Outcome :=
  ⟨o.messages ++ next.messages, next.state, next.error, o.executed ++ next.executed⟩

end Outcome

def maxSyncRetries : Nat := 5

/-- `retryable_exceptions`. -/
def retryable (config : Option BatchConfig) (err : Err) : Bool :=
  decide (err.cls = .operationalError) ||
    (isArrow config && decide (err.cls = .adbcOperationalError))

/-- `for attempt in range(MAX_SYNC_RETRIES)`, with `left` attempts left. -/
def attempts (config : Option BatchConfig) (body : Nat → State → Outcome) :
    Nat → Nat → State → Outcome
  | 0, _, st => ⟨[], st, none, []⟩
  | left + 1, attempt, st =>
    match (body attempt st).error with
    | none => body attempt st
    | some err =>
      if retryable config err && left ≠ 0 then
        (body attempt st).andThen (attempts config body left (attempt + 1) (body attempt st).state)
      else body attempt st

/-! ### The server's part -/

/-- What the server answers during one attempt. -/
structure Attempt where
  maxPk : Except Err (Option Row)
  select : SelectSql → Fetch

/-- The arguments that a sync of one stream takes from its caller and from the clock. -/
structure SyncArgs where
  columns : List String
  streamVersion : Val
  timeExtracted : String
  config : Option BatchConfig

/-- `sync_query` on the fetch that the statement gets. -/
def runSelect (e : CatalogEntry) (args : SyncArgs) (a : Attempt) (st : State) (sql : SelectSql) :
    Outcome :=
  let r := syncQuery e st args.columns args.streamVersion args.timeExtracted args.config
    (a.select sql)
  ⟨r.1, r.2.1, r.2.2, [(sql, a.select sql)]⟩

/-! ### The statement -/

namespace FullTable

def generateBookmarkKeys (e : CatalogEntry) : List String :=
  let base := ["last_pk_fetched", "max_pk_values", "version", "initial_full_table_complete"]
  if e.replicationMethod = .fullTable then base
  else base ++ ["log_file", "log_pos", "version", "gtid"]

def pksAreAutoIncrementing (autoIncrement : String → Bool) (e : CatalogEntry) : Bool :=
  !e.getKeyProperties.isEmpty && e.getKeyProperties.all autoIncrement

/-- `dict(zip(key_properties, result))`, or an empty dictionary for an empty table. -/
def maxPkValues (e : CatalogEntry) (result : Option Row) : Val :=
  match result with
  | none => .dict []
  | some row => .dict (Dict.ofList ((e.getKeyProperties.map Val.str).zip row)).entries

/-- `values[pk]`, for the dictionary of a bookmark. -/
def pkValue (values : Val) (pk : String) : Except Err Val :=
  match values with
  | .dict items =>
    match Dict.assocGet (.str pk) items with
    | none => .error (.keyError pk)
    | some v => .ok v
  | _ => .error ⟨.typeError, "object is not subscriptable"⟩

/-- The comparisons of one key; its values stand as literals in the text of the statement. -/
def pkComparisons (lastPkFetched maxPkValues : Val) (pk : String) :
    Except Err (List Condition) :=
  if lastPkFetched.truthy then
    match pkValue lastPkFetched pk with
    | .error err => .error err
    | .ok last =>
      match pkValue maxPkValues pk with
      | .error err => .error err
      | .ok max => .ok [⟨pk, .gt, last⟩, ⟨pk, .le, max⟩]
  else
    match pkValue maxPkValues pk with
    | .error err => .error err
    | .ok max => .ok [⟨pk, .le, max⟩]

def pkConditions (lastPkFetched maxPkValues : Val) : List String → Except Err (List Condition)
  | [] => .ok []
  | pk :: rest =>
    match pkComparisons lastPkFetched maxPkValues pk with
    | .error err => .error err
    | .ok cs =>
      match pkConditions lastPkFetched maxPkValues rest with
      | .error err => .error err
      | .ok more => .ok (cs ++ more)

/-- `generate_pk_clause`, appended to a statement. -/
def generatePkClause (e : CatalogEntry) (st : State) (sql : SelectSql) : Except Err SelectSql :=
  match escapeAll e.getKeyProperties with
  | .error err => .error err
  | .ok _ =>
    match pkConditions (st.getBookmark e.tapStreamId "last_pk_fetched")
        (st.getBookmark e.tapStreamId "max_pk_values") e.getKeyProperties with
    | .error err => .error err
    | .ok conditions => .ok { sql with conditions := conditions, orderBy := e.getKeyProperties }

/-! ### `sync_table` -/

/-- The maximum key of the pass: the one in the bookmark, or the one of the table now. -/
def passMaximum (e : CatalogEntry) (a : Attempt) (st : State) : Except Err Val :=
  if (st.getBookmark e.tapStreamId "max_pk_values").truthy then
    .ok (st.getBookmark e.tapStreamId "max_pk_values")
  else match a.maxPk with
    | .error err => .error err
    | .ok result => .ok (maxPkValues e result)

/-- The body of the retry loop. -/
def attempt (e : CatalogEntry) (autoIncrementing : Bool) (args : SyncArgs) (a : Attempt)
    (st : State) : Outcome :=
  match generateSelectSql e args.columns with
  | .error err => .failed st err
  | .ok sql =>
    if autoIncrementing then
      match passMaximum e a st with
      | .error err => .failed st err
      | .ok maximum =>
        if maximum.truthy then
          let st := st.writeBookmark e.tapStreamId "max_pk_values" maximum
          match generatePkClause e st sql with
          | .error err => .failed st err
          | .ok sql => runSelect e args a st sql
        else runSelect e args a st sql
    else runSelect e args a st sql

def activateVersion (e : CatalogEntry) (args : SyncArgs) : Message :=
  .activateVersion e.stream args.streamVersion

/-- Is ACTIVATE_VERSION written at the beginning, so that the records show up right away? -/
def activatesFirst (e : CatalogEntry) (st : State) : Bool :=
  !(st.getBookmark e.tapStreamId "initial_full_table_complete").truthy &&
    !((st.bookmark e.tapStreamId).contains "version" &&
      decide (st.getBookmark e.tapStreamId "version" = .null))

def clearPass (e : CatalogEntry) (st : State) : State :=
  (st.clearBookmark e.tapStreamId "max_pk_values").clearBookmark e.tapStreamId "last_pk_fetched"

def firstActivation (e : CatalogEntry) (args : SyncArgs) (st : State) : List Message :=
  if activatesFirst e st then [activateVersion e args] else []

def retryLoop (e : CatalogEntry) (autoIncrement : String → Bool) (server : Nat → Attempt)
    (args : SyncArgs) (st : State) : Outcome :=
  attempts args.config
    (fun n st => attempt e (pksAreAutoIncrementing autoIncrement e) args (server n) st)
    maxSyncRetries 0 st

def syncTable (e : CatalogEntry) (autoIncrement : String → Bool) (server : Nat → Attempt)
    (args : SyncArgs) (st : State) : Outcome :=
  let st := whitelistBookmarkKeys (generateBookmarkKeys e) e.tapStreamId st
  let o := retryLoop e autoIncrement server args st
  match o.error with
  | some err => ⟨firstActivation e args st ++ o.messages, o.state, some err, o.executed⟩
  | none => ⟨firstActivation e args st ++ o.messages ++ [activateVersion e args],
      clearPass e o.state, none, o.executed⟩

end FullTable

end TapMysql
