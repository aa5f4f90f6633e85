import TapMysql.Binlog.Run
import Mathlib.Data.List.Sort
import Mathlib.Data.String.Basic

/-!
# Where a binlog sync resumes

`calculate_bookmark` and `calculate_gtid_bookmark`: the earliest log position, and the earliest
gtid, among the bookmarks of the streams of the map. What the server answers is a parameter.
-/

namespace TapMysql.Binlog

inductive Engine where
  | mysql
  | mariadb
  deriving DecidableEq

/-- The answers of the server. -/
structure Server where
  /-- `SHOW BINARY LOGS` -/
  binaryLogs : List String
  /-- `select BINLOG_GTID_POS(...)` -/
  binlogGtidPos : String → Val → Option String
  /-- `SELECT @@server_id` -/
  serverId : Nat

/-! ### Log positions -/

structure MinLogPos where
  logPos : Val
  streams : List String
  deriving DecidableEq

/-- `left > right`. -/
def gtVal : Val → Val → Except Err Bool
  | .int a, .int b => .ok (decide (b < a))
  | .str a, .str b => .ok (decide (b < a))
  | _, _ => .error ⟨.typeError, "'>' not supported between these instances"⟩

/-- The bookmark of one stream enters the minimum of its file. -/
def addLogPos (minPerFile : Dict Val MinLogPos) (tapStreamId : String) (bookmark : Bookmark) :
    Except Err (Dict Val MinLogPos) :=
  let logFile := (bookmark.get? "log_file").getD .null
  let logPos := (bookmark.get? "log_pos").getD .null
  match minPerFile.get? logFile with
  | none => .ok (minPerFile.set logFile ⟨logPos, [tapStreamId]⟩)
  | some found =>
    match gtVal found.logPos logPos with
    | .error e => .error e
    | .ok true => .ok (minPerFile.set logFile ⟨logPos, found.streams ++ [tapStreamId]⟩)
    | .ok false => .ok (minPerFile.set logFile ⟨found.logPos, found.streams ++ [tapStreamId]⟩)

def minLogPosLoop (m : StreamsMap) :
    List (String × Bookmark) → Dict Val MinLogPos → Except Err (Dict Val MinLogPos)
  | [], minPerFile => .ok minPerFile
  | (tapStreamId, bookmark) :: rest, minPerFile =>
    if m.contains tapStreamId then
      match addLogPos minPerFile tapStreamId bookmark with
      | .error e => .error e
      | .ok minPerFile => minLogPosLoop m rest minPerFile
    else minLogPosLoop m rest minPerFile

def getMinLogPosPerLogFile (m : StreamsMap) (st : State) : Except Err (Dict Val MinLogPos) :=
  minLogPosLoop m st.bookmarks.entries Dict.empty

/-- `', '.join(names)`. -/
def joinNames : List Val → Except Err String
  | [] => .ok ""
  | [.str s] => .ok s
  | .str s :: rest =>
    match joinNames rest with
    | .ok text => .ok (s ++ ", " ++ text)
    | .error e => .error e
  | _ => .error ⟨.typeError, "sequence item: expected str instance"⟩

def noBinaryLogs : Err :=
  ⟨.exception, "Unable to replicate binlog stream because no binary logs exist on the server."⟩

/-- The first file, in the order of the names, that some stream has a position in. -/
def firstLogFile (minPerFile : Dict Val MinLogPos) : List String → Except Err (String × Val)
  | [] => .error noBinaryLogs
  | f :: files =>
    match minPerFile.get? (.str f) with
    | some found => .ok (f, found.logPos)
    | none => firstLogFile minPerFile files

def calculateBookmark (server : Server) (m : StreamsMap) (st : State) :
    Except Err (String × Val) :=
  match getMinLogPosPerLogFile m st with
  | .error e => .error e
  | .ok minPerFile =>
    if server.binaryLogs.isEmpty then .error noBinaryLogs
    else
      let expired := minPerFile.keys.filter fun f => !(server.binaryLogs.map Val.str).contains f
      if expired.isEmpty then
        firstLogFile minPerFile (server.binaryLogs.dedup.insertionSort (· ≤ ·))
      else
        match joinNames expired with
        | .error e => .error e
        | .ok names => .error ⟨.exception, "Unable to replicate binlog stream because the " ++
            "following binary log(s) no longer exist: " ++ names⟩

/-! ### Gtids -/

def intOfText (s : String) : Except Err Int :=
  match pyInt s with
  | some n => .ok n
  | none => .error ⟨.valueError, "invalid literal for int() with base 10: '" ++ s ++ "'"⟩

def indexOutOfRange : Err := ⟨.indexError, "list index out of range"⟩

/-- `int(parts[i])`. -/
def intOfPart (parts : List String) (i : Nat) : Except Err Int :=
  match parts[i]? with
  | some part => intOfText part
  | none => .error indexOutOfRange

/-- `gtid_seq_no`: the third part of a MariaDB gtid, the last number of the interval of a
MySQL gtid. -/
def gtidSeqNo (engine : Engine) (gtid : String) : Except Err Int :=
  match engine with
  | .mariadb => intOfPart (splitOn '-' gtid) 2
  | .mysql =>
    match (splitOn ':' gtid)[1]? with
    | none => .error indexOutOfRange
    | some interval =>
      if interval.toList.contains '-' then intOfPart (splitOn '-' interval) 1
      else intOfText interval

/-- `if min_seq_no is None or gtid_seq_no < min_seq_no`. -/
def takeEarlier (earliest : Option (String × Int)) (gtid : String) (seqNo : Int) :
    String × Int :=
  match earliest with
  | none => (gtid, seqNo)
  | some (minGtid, minSeqNo) => if seqNo < minSeqNo then (gtid, seqNo) else (minGtid, minSeqNo)

/-- The loop over the bookmarks of the state, `min_gtid` with `min_seq_no` in the second
argument. -/
def earliestGtid (engine : Engine) (m : StreamsMap) :
    List (String × Bookmark) → Option (String × Int) → Except Err (Option (String × Int))
  | [], earliest => .ok earliest
  | (tapStreamId, bookmark) :: rest, earliest =>
    if m.contains tapStreamId then
      match (bookmark.get? "gtid").getD .null with
      | .str gtid =>
        if gtid = "" then earliestGtid engine m rest earliest
        else
          match gtidSeqNo engine gtid with
          | .error e => .error e
          | .ok seqNo => earliestGtid engine m rest (some (takeEarlier earliest gtid seqNo))
      | v =>
        if v.truthy then .error ⟨.attributeError, "object has no attribute 'split'"⟩
        else earliestGtid engine m rest earliest
    else earliestGtid engine m rest earliest

def gtidOfServer (serverId : String) : List String → Option String → Option String
  | [], found => found
  | gtid :: rest, found =>
    match splitOn '-' gtid with
    | [_, server, _] => gtidOfServer serverId rest (if server = serverId then some gtid else found)
    | _ => gtidOfServer serverId rest found

def findGtidByBinlogCoordinates (server : Server) (logFile : String) (logPos : Val) :
    Option String :=
  match server.binlogGtidPos logFile logPos with
  | none => none
  | some gtids =>
    if gtids = "" then none
    else gtidOfServer (toString server.serverId) (splitOn ',' gtids) none

/-- The gtid that is inferred when no stream has one. -/
def inferGtid (server : Server) (engine : Engine) (m : StreamsMap) (st : State) :
    Except Err String :=
  match engine with
  | .mysql => .error ⟨.exception,
      "Couldn't find any gtid in state bookmarks to resume logical replication"⟩
  | .mariadb =>
    match calculateBookmark server m st with
    | .error e => .error e
    | .ok (logFile, logPos) =>
      if logFile = "" ∨ logPos.truthy = false then .error ⟨.exception,
        "No binlog coordinates in state to infer gtid position! Cannot resume logical replication"⟩
      else
        match findGtidByBinlogCoordinates server logFile logPos with
        | some gtid =>
          if gtid = "" then .error ⟨.exception,
            "Couldn't infer any gtid from binlog coordinates to resume logical replication"⟩
          else .ok gtid
        | none => .error ⟨.exception,
          "Couldn't infer any gtid from binlog coordinates to resume logical replication"⟩

def calculateGtidBookmark (server : Server) (engine : Engine) (m : StreamsMap) (st : State) :
    Except Err String :=
  match earliestGtid engine m st.bookmarks.entries none with
  | .error e => .error e
  | .ok (some (gtid, _)) => .ok gtid
  | .ok none => inferGtid server engine m st

end TapMysql.Binlog
