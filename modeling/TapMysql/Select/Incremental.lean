import TapMysql.Select.FullTable

/-!
# INCREMENTAL replication

`sync_table` of `sync_strategies/incremental.py`. The first attempt starts at the bookmark of
the caller, a later one at the bookmark that the attempt before it left in the shared state.
-/

namespace TapMysql

/-! ### Time stamps as text -/

/-- A number of exactly `width` digits at the head of a text. -/
def takeDigits : Nat → List Char → Option (Nat × List Char)
  | 0, cs => some (0, cs)
  | _ + 1, [] => none
  | width + 1, c :: cs =>
    if c.isDigit then
      (takeDigits width cs).map fun r => (digitValue c * 10 ^ width + r.1, r.2)
    else none

/-- `:NN` or `-NN`, the mark and two digits. -/
def takeMarked (mark : Char) : List Char → Option (Nat × List Char)
  | [] => none
  | c :: cs => if c = mark then takeDigits 2 cs else none

/-- A UTC offset `+HH:MM[:SS[.ffffff]]` or its negative, which ends the text. -/
def isOffset : List Char → Bool
  | [] => true
  | sign :: cs =>
    (sign = '+' || sign = '-') &&
      match takeDigits 2 cs with
      | none => false
      | some (_, cs) =>
        match takeMarked ':' cs with
        | none => false
        | some (_, []) => true
        | some (_, cs) =>
          match takeMarked ':' cs with
          | some (_, []) => true
          | some (_, '.' :: cs) => cs.length = 6 && cs.all Char.isDigit
          | _ => false

/-- The fraction of a second, of three or six digits, in microseconds. -/
def takeFraction : List Char → Option (Nat × List Char)
  | '.' :: cs =>
    match takeDigits 6 cs with
    | some r => some r
    | none => (takeDigits 3 cs).map fun r => (r.1 * 1000, r.2)
  | cs => some (0, cs)

/-- `datetime.datetime.fromisoformat` on the texts that the tap writes,
`YYYY-MM-DD[*HH[:MM[:SS[.fff[fff]]]][+HH:MM…]]`: other forms of a date and dates that the calendar
does not have are not covered. The offset is read and dropped, as the client drops it when it binds
the parameter. -/
def fromisoformat (s : String) : Option DateTime :=
  match takeDigits 4 s.toList with
  | none => none
  | some (year, cs) =>
    match takeMarked '-' cs with
    | none => none
    | some (month, cs) =>
      match takeMarked '-' cs with
      | none => none
      | some (day, []) => some ⟨⟨year, month, day⟩, 0, 0, 0, 0⟩
      | some (day, _ :: cs) =>
        match takeDigits 2 cs with
        | none => none
        | some (hour, cs) =>
          match takeMarked ':' cs with
          | none => if isOffset cs then some ⟨⟨year, month, day⟩, hour, 0, 0, 0⟩ else none
          | some (minute, cs) =>
            match takeMarked ':' cs with
            | none => if isOffset cs then some ⟨⟨year, month, day⟩, hour, minute, 0, 0⟩ else none
            | some (second, cs) =>
              match takeFraction cs with
              | none => none
              | some (micro, cs) =>
                if isOffset cs then some ⟨⟨year, month, day⟩, hour, minute, second, micro⟩
                else none

example : fromisoformat "2024-02-29T23:59:58.000123+00:00" =
    some ⟨⟨2024, 2, 29⟩, 23, 59, 58, 123⟩ := by decide

namespace Incremental

def bookmarkKeys : List String := ["replication_key", "replication_key_value", "version"]

/-- The bound parameter: a text in a `date-time` column is read as a time stamp. -/
def boundValue (e : CatalogEntry) (key : String) (v : Val) : Except Err Val :=
  match e.schema.get? key with
  | none => .error (.keyError key)
  | some p =>
    match v with
    | .str s =>
      if p.format = some "date-time" then
        match fromisoformat s with
        | none => .error ⟨.valueError, "Invalid isoformat string: '" ++ s ++ "'"⟩
        | some d => .ok (.datetime d)
      else .ok v
    | v => .ok v

/-- The text of a replication key between backticks; it is not escaped. -/
def keyName : Val → String
  | .str key => key
  | _ => ""

/-- WHERE and ORDER BY for the value of the replication key from the bookmark. -/
def whereClause (e : CatalogEntry) (replicationKey value : Val) (sql : SelectSql) :
    Except Err SelectSql :=
  match value with
  | .null =>
    match replicationKey with
    | .null => .ok sql
    | key => .ok { sql with orderBy := [keyName key] }
  | value =>
    match boundValue e (keyName replicationKey) value with
    | .error err => .error err
    | .ok v => .ok { sql with
        conditions := [⟨keyName replicationKey, .ge, v⟩]
        orderBy := [keyName replicationKey] }

/-- The body of the retry loop, for the bookmark value it starts from. -/
def attempt (e : CatalogEntry) (args : SyncArgs) (a : Attempt) (value : Val) (st : State) :
    Outcome :=
  match generateSelectSql e args.columns with
  | .error err => .failed st err
  | .ok sql =>
    match whereClause e (e.streamMetadata "replication-key") value sql with
    | .error err => .failed st err
    | .ok sql => runSelect e args a st sql

/-- The state and the bookmark value that the first attempt starts from. -/
def startState (e : CatalogEntry) (st : State) : State × Val :=
  let st := whitelistBookmarkKeys bookmarkKeys e.tapStreamId st
  let key := e.streamMetadata "replication-key"
  if key = st.getBookmark e.tapStreamId "replication_key" then
    (st, st.getBookmark e.tapStreamId "replication_key_value")
  else
    ((st.writeBookmark e.tapStreamId "replication_key" key).clearBookmark e.tapStreamId
      "replication_key_value", .null)

/-- `sync_table`, at a moment when the clock shows `now`; the version of `args` is not read. -/
def syncTable (e : CatalogEntry) (server : Nat → Attempt) (args : SyncArgs) (now : Int)
    (st : State) : Outcome :=
  let start := startState e st
  let version := getStreamVersion e.tapStreamId start.1 now
  let args := { args with streamVersion := version }
  let body := fun n st => attempt e args (server n)
    (if n = 0 then start.2 else st.getBookmark e.tapStreamId "replication_key_value") st
  let o := attempts args.config body maxSyncRetries 0
    (start.1.writeBookmark e.tapStreamId "version" version)
  { o with messages := .activateVersion e.stream version :: o.messages }

end Incremental

end TapMysql
