import TapMysql.Lib.Dict
import TapMysql.Binlog.Record

/-!
# Connections with custom SSL keys

`connect` writes the keys to temp files and records their paths, `close` removes the files it finds
recorded. The record is replaced by each `connect`, so a file is lost when a `connect` finds a
record, as the second try of `connect_with_backoff` does. Temp files get paths that did not exist;
what the client raises is an input of each call.
-/

namespace TapMysql

structure Config where
  user : String
  password : String
  host : String
  port : Val
  database : Option String
  sslCa : Option String
  sslCert : Option String
  sslKey : Option String
  ssl : Option String

namespace Config

/-- The keys of `ssl_ca`, `ssl_cert` and `ssl_key`, when all three are given. -/
def selfSignedSsl (config : Config) : Option (String × String × String) :=
  match config.sslCa, config.sslCert, config.sslKey with
  | some ca, some cert, some key =>
    if ca = "" ∨ cert = "" ∨ key = "" then none else some (ca, cert, key)
  | _, _, _ => none

end Config

inductive SslArgs
  | default
  | selfSigned (ca cert key : String)
  | unverified
  deriving DecidableEq, Repr

/-- The keyword arguments of `mysql.connector.connect`. -/
structure ConnectArgs where
  user : String
  password : String
  host : String
  port : Int
  charset : String
  connectionTimeout : ℕ
  autocommit : Bool
  compress : Bool
  database : Option String
  ssl : SslArgs

/-- `tempfile.mkstemp`, which takes a path that does not exist. -/
structure TempDir where
  mkstemp : List String → String
  fresh : ∀ paths, mkstemp paths ∉ paths

/-- A `MySQLConnection` on a disk of files with their contents; `conn` says whether `_conn` is
set. -/
structure MySQLConnection where
  conn : Bool
  sslTempFiles : List String
  disk : Dict String String

namespace MySQLConnection

def new (disk : Dict String String) : MySQLConnection := ⟨false, [], disk⟩

def writeSslTempfile (t : TempDir) (disk : Dict String String) (pemData : String) :
    String × Dict String String :=
  (t.mkstemp disk.keys, disk.set (t.mkstemp disk.keys) pemData)

/-- The SSL arguments, after the temp files are written. -/
def sslArgs (t : TempDir) (config : Config) (s : MySQLConnection) : SslArgs × MySQLConnection :=
  match config.selfSignedSsl with
  | some (ca, cert, key) =>
    let ca := writeSslTempfile t s.disk ca
    let cert := writeSslTempfile t ca.2 cert
    let key := writeSslTempfile t cert.2 key
    (.selfSigned ca.1 cert.1 key.1,
      { s with sslTempFiles := [ca.1, cert.1, key.1], disk := key.2 })
  | none => (if config.ssl = some "true" then .unverified else .default, s)

/-- `connect`; what an old connection raises when it is closed is dropped. -/
def connect (t : TempDir) (config : Config) (server : ConnectArgs → Option Err)
    (s : MySQLConnection) : MySQLConnection × Except Err Unit :=
  match Binlog.intOfVal config.port with
  | .error err => (s, .error err)
  | .ok port =>
    let r := sslArgs t config s
    match server ⟨config.user, config.password, config.host, port, "utf8", 30, true, true,
      config.database.filter fun d => decide (d ≠ ""), r.1⟩ with
    | some err => (r.2, .error err)
    | none => ({ r.2 with conn := true }, .ok ())

/-- `close`, for what the client raises when it closes a connection. -/
def close (raised : Option Err) (s : MySQLConnection) : MySQLConnection × Except Err Unit :=
  match if s.conn then raised else none with
  | some err => ({ s with conn := false }, .error err)
  | none => (⟨false, [], s.sslTempFiles.foldl Dict.erase s.disk⟩, .ok ())

end MySQLConnection

/-- What the client raises in one try: in `connect` and, behind it, in `run_session_sqls`. -/
structure ConnectTry where
  server : ConnectArgs → Option Err
  session : Option Err

namespace ConnectTry

def run (t : TempDir) (config : Config) (a : ConnectTry) (s : MySQLConnection) :
    MySQLConnection × Except Err Unit :=
  match s.connect t config a.server, a.session with
  | (s, .ok ()), some err => (s, .error err)
  | r, _ => r

/-- The tries from number `n` on, when so many retries are left. -/
def tries (t : TempDir) (config : Config) (attempt : ℕ → ConnectTry) :
    ℕ → ℕ → MySQLConnection → MySQLConnection × Except Err Unit
  | 0, n, s => (attempt n).run t config s
  | retries + 1, n, s =>
    match (attempt n).run t config s with
    | (s, .error err) =>
      if err.cls = .operationalError then tries t config attempt retries (n + 1) s
      else (s, .error err)
    | r => r

end ConnectTry

/-- `connect_with_backoff`: at most five tries, as long as they end in operational errors. -/
def connectWithBackoff (t : TempDir) (config : Config) (attempt : ℕ → ConnectTry)
    (s : MySQLConnection) : MySQLConnection × Except Err Unit :=
  ConnectTry.tries t config attempt 4 0 s

/-! ### Calls on one object -/

inductive Call
  | connect (server : ConnectArgs → Option Err)
  | close (raised : Option Err)

def Call.run (t : TempDir) (config : Config) (s : MySQLConnection) : Call → MySQLConnection
  | .connect server => (s.connect t config server).1
  | .close raised => (s.close raised).1

/-- The object with all the temp files that its calls have written. -/
structure History where
  conn : MySQLConnection
  written : List String

namespace History

variable (t : TempDir) (config : Config)

/-- One more call; the files that it writes were not there before. -/
def call (h : History) (c : Call) : History :=
  let s := c.run t config h.conn
  ⟨s, h.written ++ s.disk.keys.filter fun f => !h.conn.disk.contains f⟩

/-- The calls on a new object. -/
def run (disk : Dict String String) (calls : List Call) : History :=
  calls.foldl (call t config) ⟨.new disk, []⟩

theorem run_concat (disk : Dict String String) (calls : List Call) (c : Call) :
    run t config disk (calls ++ [c]) = (run t config disk calls).call t config c := by
  rw [run, List.foldl_append]
  rfl

end History

theorem ConnectTry.run_state (t : TempDir) (config : Config) (a : ConnectTry)
    (s : MySQLConnection) : (a.run t config s).1 = (s.connect t config a.server).1 := by
  rw [ConnectTry.run]
  split
  · rename_i hconnect _
    rw [hconnect]
  · rfl

theorem ConnectTry.tries_calls (t : TempDir) (config : Config) (attempt : ℕ → ConnectTry)
    (retries n : ℕ) (s : MySQLConnection) : ∃ servers : List (ConnectArgs → Option Err),
      servers.length ≤ retries + 1 ∧ (ConnectTry.tries t config attempt retries n s).1 =
        (servers.map Call.connect).foldl (Call.run t config) s := by
  induction retries generalizing n s with
  | zero => exact ⟨[(attempt n).server], Nat.le_refl 1, run_state t config _ s⟩
  | succ retries ih =>
    have hone : [(attempt n).server].length ≤ retries + 1 + 1 := Nat.succ_le_succ (Nat.zero_le _)
    have hs := run_state t config (attempt n) s
    rw [ConnectTry.tries]
    split
    · rename_i s' err hattempt
      rw [hattempt] at hs
      split_ifs with hretry
      · obtain ⟨servers, hlength, hservers⟩ := ih (n + 1) s'
        refine ⟨(attempt n).server :: servers, Nat.succ_le_succ hlength, ?_⟩
        rw [hservers, List.map_cons, List.foldl_cons, Call.run, ← hs]
      · exact ⟨[(attempt n).server], hone, hs⟩
    · exact ⟨[(attempt n).server], hone, hs⟩

/-- The tries of `connect_with_backoff` are calls of `connect`, five at most. -/
theorem connectWithBackoff_calls (t : TempDir) (config : Config) (attempt : ℕ → ConnectTry)
    (s : MySQLConnection) : ∃ servers : List (ConnectArgs → Option Err), servers.length ≤ 5 ∧
      (connectWithBackoff t config attempt s).1 =
        (servers.map Call.connect).foldl (Call.run t config) s :=
  ConnectTry.tries_calls t config attempt 4 0 s

/-! ### What a call does to the files -/

section Files

variable {t : TempDir} {config : Config}

theorem writeSslTempfile_keys (t : TempDir) (disk : Dict String String) (pem : String) :
    let r := MySQLConnection.writeSslTempfile t disk pem
    r.1 ∉ disk.keys ∧ r.2.keys = disk.keys ++ [r.1] :=
  ⟨t.fresh disk.keys, by rw [MySQLConnection.writeSslTempfile, Dict.keys_set,
    if_neg (t.fresh disk.keys)]⟩

theorem sslArgs_files (hssl : config.selfSignedSsl ≠ none) (s : MySQLConnection) :
    ∃ files, files ≠ [] ∧ (∀ f ∈ files, f ∉ s.disk.keys) ∧
      (s.sslArgs t config).2.sslTempFiles = files ∧
      (s.sslArgs t config).2.disk.keys = s.disk.keys ++ files := by
  obtain ⟨⟨ca, cert, key⟩, hkeys⟩ := Option.ne_none_iff_exists'.mp hssl
  obtain ⟨hca, hcaKeys⟩ := writeSslTempfile_keys t s.disk ca
  obtain ⟨hcert, hcertKeys⟩ :=
    writeSslTempfile_keys t (MySQLConnection.writeSslTempfile t s.disk ca).2 cert
  obtain ⟨hkey, hkeyKeys⟩ := writeSslTempfile_keys t (MySQLConnection.writeSslTempfile t
    (MySQLConnection.writeSslTempfile t s.disk ca).2 cert).2 key
  rw [hcaKeys] at hcert hcertKeys
  rw [hcertKeys] at hkey hkeyKeys
  refine ⟨_, List.cons_ne_nil _ _, ?_, by simp only [MySQLConnection.sslArgs, hkeys]; rfl, ?_⟩
  · simp only [List.mem_append, List.mem_singleton, not_or] at hcert hkey
    simpa using ⟨hca, hcert.1, hkey.1.1⟩
  · simp only [MySQLConnection.sslArgs, hkeys]
    simpa using hkeyKeys

theorem connect_state {port : Int} (hport : Binlog.intOfVal config.port = .ok port)
    (server : ConnectArgs → Option Err) (s : MySQLConnection) :
    ∃ conn, (s.connect t config server).1 = { (s.sslArgs t config).2 with conn := conn } := by
  simp only [MySQLConnection.connect, hport]
  split
  · exact ⟨_, rfl⟩
  · exact ⟨true, rfl⟩

theorem filter_known {files : List String} {disk : Dict String String}
    (h : ∀ f ∈ files, f ∈ disk.keys) : files.filter (fun f => !disk.contains f) = [] := by
  refine List.filter_eq_nil_iff.mpr fun f hf => ?_
  rw [Bool.not_eq_true, Bool.not_eq_false']
  exact Dict.contains_iff.mpr (h f hf)

/-- A `connect` with custom keys records exactly the files that it writes. -/
theorem connect_files {port : Int} (hport : Binlog.intOfVal config.port = .ok port)
    (hssl : config.selfSignedSsl ≠ none) (server : ConnectArgs → Option Err) (h : History) :
    ∃ files, files ≠ [] ∧ (∀ f ∈ files, f ∉ h.conn.disk.keys) ∧
      (h.call t config (.connect server)).conn.sslTempFiles = files ∧
      (h.call t config (.connect server)).conn.disk.keys = h.conn.disk.keys ++ files ∧
      (h.call t config (.connect server)).written = h.written ++ files := by
  obtain ⟨files, hne, hfresh, hrecorded, hdisk⟩ := sslArgs_files (t := t) hssl h.conn
  obtain ⟨conn, hstate⟩ := connect_state (t := t) hport server h.conn
  have hold : h.conn.disk.keys.filter (fun f => !h.conn.disk.contains f) = [] :=
    filter_known fun f hf => hf
  have hnew : files.filter (fun f => !h.conn.disk.contains f) = files := by
    refine List.filter_eq_self.mpr fun f hf => ?_
    rw [Bool.not_eq_true', ← Bool.not_eq_true, Dict.contains_iff]
    exact hfresh f hf
  refine ⟨files, hne, hfresh, ?_, ?_, ?_⟩
  · rw [History.call, Call.run, hstate]
    exact hrecorded
  · rw [History.call, Call.run, hstate]
    exact hdisk
  · simp only [History.call, Call.run, hstate, hdisk, List.filter_append, hold, hnew,
      List.nil_append]

theorem keys_foldl_erase (files : List String) (disk : Dict String String) (f : String) :
    f ∈ (files.foldl Dict.erase disk).keys ↔ f ∈ disk.keys ∧ f ∉ files := by
  induction files generalizing disk with
  | nil => simp
  | cons g files ih =>
    rw [List.foldl_cons, ih, Dict.erase, Dict.mem_keys_filterKeys, List.mem_cons, not_or,
      and_assoc]
    simp

theorem written_of_subset {h : History} {c : Call}
    (hsub : ∀ f ∈ (h.call t config c).conn.disk.keys, f ∈ h.conn.disk.keys) :
    (h.call t config c).written = h.written := by
  have hnone : (c.run t config h.conn).disk.keys.filter (fun f => !h.conn.disk.contains f) = [] :=
    filter_known hsub
  simp only [History.call, hnone, List.append_nil]

/-- A `close` in which the client raises keeps the files and their record. -/
theorem close_raised {h : History} (hconn : h.conn.conn = true) (err : Err) :
    h.call t config (.close (some err)) = ⟨{ h.conn with conn := false }, h.written⟩ := by
  have hstate : (h.conn.close (some err)).1 = { h.conn with conn := false } := by
    rw [MySQLConnection.close, hconn]
    rfl
  have hcall : (h.call t config (.close (some err))).conn = { h.conn with conn := false } := hstate
  have hwritten : (h.call t config (.close (some err))).written = h.written :=
    written_of_subset (by rw [hcall]; exact fun f hf => hf)
  rw [← hwritten, ← hcall]

variable (t config) in
/-- Any other `close` removes the recorded files and writes none. -/
theorem close_done {h : History} {raised : Option Err}
    (hdone : h.conn.conn = true → raised = none) :
    (h.call t config (.close raised)).written = h.written ∧
      (h.call t config (.close raised)).conn.conn = false ∧
      (h.call t config (.close raised)).conn.sslTempFiles = [] ∧
      ∀ f, f ∈ (h.call t config (.close raised)).conn.disk.keys ↔
        f ∈ h.conn.disk.keys ∧ f ∉ h.conn.sslTempFiles := by
  have hstate : (h.call t config (.close raised)).conn =
      ⟨false, [], h.conn.sslTempFiles.foldl Dict.erase h.conn.disk⟩ := by
    have hnone : (if h.conn.conn then raised else none) = none := by
      split_ifs with hconn
      · exact hdone hconn
      · rfl
    rw [History.call, Call.run, MySQLConnection.close, hnone]
  have hfiles : ∀ f, f ∈ (h.call t config (.close raised)).conn.disk.keys ↔
      f ∈ h.conn.disk.keys ∧ f ∉ h.conn.sslTempFiles := by
    rw [hstate]
    exact keys_foldl_erase _ _
  exact ⟨written_of_subset fun f hf => ((hfiles f).mp hf).1, by rw [hstate], by rw [hstate], hfiles⟩

end Files

/-! ### Lost files -/

/-- What every call keeps: recorded files were written and exist, and an open connection has
some. -/
structure History.Recorded (h : History) : Prop where
  written : ∀ f ∈ h.conn.sslTempFiles, f ∈ h.written
  exist : ∀ f ∈ h.conn.sslTempFiles, f ∈ h.conn.disk.keys
  connected : h.conn.conn = true → h.conn.sslTempFiles ≠ []

/-- A file that was written exists and is not recorded. -/
def History.Lost (h : History) : Prop :=
  ∃ f ∈ h.written, f ∈ h.conn.disk.keys ∧ f ∉ h.conn.sslTempFiles

section Lost

variable {t : TempDir} {config : Config} {port : Int} {h : History}

theorem recorded_call (hport : Binlog.intOfVal config.port = .ok port)
    (hssl : config.selfSignedSsl ≠ none) (hrec : h.Recorded) (c : Call) :
    (h.call t config c).Recorded := by
  cases c with
  | connect server =>
    obtain ⟨files, hne, -, hfiles, hdisk, hwritten⟩ := connect_files (t := t) hport hssl server h
    refine ⟨?_, ?_, ?_⟩
    · rw [hfiles, hwritten]
      exact fun f hf => List.mem_append_right _ hf
    · rw [hfiles, hdisk]
      exact fun f hf => List.mem_append_right _ hf
    · rw [hfiles]
      exact fun _ => hne
  | close raised =>
    by_cases hdone : h.conn.conn = true → raised = none
    · obtain ⟨-, hconn, hfiles, -⟩ := close_done t config hdone
      refine ⟨?_, ?_, ?_⟩
      · rw [hfiles]
        simp
      · rw [hfiles]
        simp
      · rw [hconn]
        simp
    · obtain ⟨hconn, hraised⟩ := Classical.not_imp.mp hdone
      obtain ⟨err, rfl⟩ := Option.ne_none_iff_exists'.mp hraised
      rw [close_raised hconn]
      exact ⟨hrec.written, hrec.exist, fun h => absurd h Bool.false_ne_true⟩

/-- A `connect` loses the files that it finds recorded. -/
theorem lost_connect (hport : Binlog.intOfVal config.port = .ok port)
    (hssl : config.selfSignedSsl ≠ none) (hrec : h.Recorded) (server : ConnectArgs → Option Err) :
    (h.call t config (.connect server)).Lost ↔ h.Lost ∨ h.conn.sslTempFiles ≠ [] := by
  obtain ⟨files, -, hfresh, hfiles, hdisk, hwritten⟩ := connect_files (t := t) hport hssl server h
  rw [History.Lost, hfiles, hdisk, hwritten]
  constructor
  · intro hlost
    obtain ⟨f, hmem, hexists, hfile⟩ := hlost
    have hmem := (List.mem_append.mp hmem).resolve_right hfile
    have hexists := (List.mem_append.mp hexists).resolve_right hfile
    by_cases hrecorded : f ∈ h.conn.sslTempFiles
    · exact Or.inr (List.ne_nil_of_mem hrecorded)
    · exact Or.inl ⟨f, hmem, hexists, hrecorded⟩
  · have hold : ∀ f ∈ h.written, f ∈ h.conn.disk.keys → ∃ f ∈ h.written ++ files,
        f ∈ h.conn.disk.keys ++ files ∧ f ∉ files := fun f hf hexists =>
      ⟨f, List.mem_append_left _ hf, List.mem_append_left _ hexists, fun hfile =>
        hfresh f hfile hexists⟩
    intro hlost
    rcases hlost with hlost | hne
    · obtain ⟨f, hmem, hexists, -⟩ := hlost
      exact hold f hmem hexists
    · obtain ⟨f, hf⟩ := List.exists_mem_of_ne_nil _ hne
      exact hold f (hrec.written f hf) (hrec.exist f hf)

/-- A `close` neither loses a file nor finds a lost one. -/
theorem lost_close (raised : Option Err) :
    (h.call t config (.close raised)).Lost ↔ h.Lost := by
  by_cases hdone : h.conn.conn = true → raised = none
  · obtain ⟨hwritten, -, hfiles, hdisk⟩ := close_done t config hdone
    rw [History.Lost, hwritten, hfiles]
    simp only [hdisk, List.not_mem_nil, not_false_eq_true, and_true]
    rfl
  · obtain ⟨hconn, hraised⟩ := Classical.not_imp.mp hdone
    obtain ⟨err, rfl⟩ := Option.ne_none_iff_exists'.mp hraised
    rw [close_raised hconn]
    rfl

variable {disk : Dict String String}

variable (t disk) in
theorem recorded_run (hport : Binlog.intOfVal config.port = .ok port)
    (hssl : config.selfSignedSsl ≠ none) (calls : List Call) :
    (History.run t config disk calls).Recorded := by
  induction calls using List.reverseRecOn with
  | nil => exact ⟨by simp [History.run, MySQLConnection.new],
      by simp [History.run, MySQLConnection.new], by simp [History.run, MySQLConnection.new]⟩
  | append_singleton calls c ih =>
    rw [History.run_concat]
    exact recorded_call hport hssl ih c

/-- Every `connect` of the calls finds no file recorded. -/
def ConnectsClean (t : TempDir) (config : Config) (disk : Dict String String)
    (calls : List Call) : Prop :=
  ∀ a server b, calls = a ++ .connect server :: b →
    (History.run t config disk a).conn.sslTempFiles = []

theorem connectsClean_concat {calls : List Call} {c : Call} :
    ConnectsClean t config disk (calls ++ [c]) ↔ ConnectsClean t config disk calls ∧
      ∀ server, c = .connect server →
        (History.run t config disk calls).conn.sslTempFiles = [] := by
  constructor
  · intro h
    refine ⟨fun a server b hcalls => h a server (b ++ [c]) ?_, fun server hc => ?_⟩
    · rw [hcalls, List.append_assoc, List.cons_append]
    · exact h calls server [] (by rw [hc])
  · intro h a server b hcalls
    rcases List.eq_nil_or_concat b with rfl | ⟨b, d, rfl⟩
    · obtain ⟨rfl, hc⟩ := List.append_inj' hcalls rfl
      exact h.2 server (List.cons.inj hc).1
    · rw [List.concat_eq_append, ← List.cons_append, ← List.append_assoc] at hcalls
      exact h.1 a server b (List.append_inj' hcalls rfl).1

variable (t disk) in
/-- A file is lost exactly when some `connect` found a record. -/
theorem lost_run_iff (hport : Binlog.intOfVal config.port = .ok port)
    (hssl : config.selfSignedSsl ≠ none) (calls : List Call) :
    (History.run t config disk calls).Lost ↔ ¬ConnectsClean t config disk calls := by
  induction calls using List.reverseRecOn with
  | nil =>
    refine iff_of_false (fun h => ?_) (not_not_intro fun a server b h => by simp at h)
    obtain ⟨f, hf, -⟩ := h
    exact absurd hf List.not_mem_nil
  | append_singleton calls c ih =>
    rw [History.run_concat, connectsClean_concat, not_and_or, ← ih]
    cases c with
    | connect server =>
      rw [lost_connect hport hssl (recorded_run t disk hport hssl calls)]
      refine or_congr_right (not_congr ?_)
      exact ⟨fun h _ _ => h, fun h => h server rfl⟩
    | close raised =>
      rw [lost_close]
      exact (or_iff_left (not_not_intro fun server hc => by cases hc)).symm

/-- After a `close` no temp file of an earlier `connect` exists exactly when every `connect` found
no record and the client does not raise in the `close` of an open connection. -/
theorem files_removed_iff (hport : Binlog.intOfVal config.port = .ok port)
    (hssl : config.selfSignedSsl ≠ none) (calls : List Call) (raised : Option Err) :
    (∀ f ∈ (History.run t config disk (calls ++ [.close raised])).written,
      f ∉ (History.run t config disk (calls ++ [.close raised])).conn.disk.keys) ↔
    ConnectsClean t config disk calls ∧
      ((History.run t config disk calls).conn.conn = true → raised = none) := by
  have hrec := recorded_run t disk hport hssl calls
  have hlost := lost_run_iff t disk hport hssl calls
  rw [History.run_concat]
  set h := History.run t config disk calls
  by_cases hdone : h.conn.conn = true → raised = none
  · obtain ⟨hwritten, -, -, hdisk⟩ := close_done t config hdone
    rw [and_iff_left hdone, ← not_iff_not, ← hlost, hwritten]
    simp only [hdisk, not_forall, not_and, not_not, History.Lost, exists_prop]
  · obtain ⟨hconn, hraised⟩ := Classical.not_imp.mp hdone
    obtain ⟨err, rfl⟩ := Option.ne_none_iff_exists'.mp hraised
    obtain ⟨f, hf⟩ := List.exists_mem_of_ne_nil _ (hrec.connected hconn)
    rw [close_raised hconn]
    exact iff_of_false (fun h => h f (hrec.written f hf) (hrec.exist f hf)) (fun h => hdone h.2)

end Lost

namespace Sample

/-- A temp directory with names longer than all that exist. -/
def tempDir : TempDir where
  mkstemp paths := String.ofList ('p' :: (paths.map String.toList).flatten)
  fresh paths hmem := by
    have hsublist := List.sublist_flatten_of_mem (List.mem_map_of_mem (f := String.toList) hmem)
    have hle := hsublist.length_le
    rw [String.toList_ofList, List.length_cons] at hle
    omega

def sslConfig : Config := ⟨"u", "p", "h", .int 3306, none, some "ca", some "cert", some "key", none⟩

def accepts : ConnectArgs → Option Err := fun _ => none

def refuses : ConnectArgs → Option Err := fun _ => some ⟨.operationalError, "connection refused"⟩

/-- The first try is refused. -/
def secondTry (n : ℕ) : ConnectTry := ⟨if n = 0 then refuses else accepts, none⟩

end Sample

open Sample

/-- A `close` between two tries removes the three files of each. -/
theorem files_removed_iff_twice :
    let h := History.run tempDir sslConfig Dict.empty
      [.connect refuses, .close none, .connect accepts, .close none]
    h.written.length = 6 ∧ ∀ f ∈ h.written, f ∉ h.conn.disk.keys := by
  intro h
  have hnone : ConnectsClean tempDir sslConfig Dict.empty [] := fun a server b h => by simp at h
  have hfirst := connectsClean_concat.mpr ⟨hnone, fun server (_ : Call.connect refuses = _) => rfl⟩
  have hclose := connectsClean_concat.mpr ⟨hfirst, fun server (h : Call.close none = _) => by
    cases h⟩
  have hsecond := connectsClean_concat.mpr
    ⟨hclose, fun server (_ : Call.connect accepts = _) => rfl⟩
  have hremoved := (@files_removed_iff tempDir sslConfig 3306 Dict.empty rfl (by decide)
    [.connect refuses, .close none, .connect accepts] none).mpr ⟨hsecond, fun _ => rfl⟩
  exact ⟨rfl, hremoved⟩

/-- The second try of `connect_with_backoff` loses the files of the first. -/
theorem second_try_loses_files :
    (connectWithBackoff tempDir sslConfig secondTry (.new Dict.empty)).2 = .ok () ∧
      (let h := History.run tempDir sslConfig Dict.empty
        [.connect refuses, .connect accepts, .close none]
      h.conn = ((connectWithBackoff tempDir sslConfig secondTry (.new Dict.empty)).1.close none).1 ∧
        ¬∀ f ∈ h.written, f ∉ h.conn.disk.keys) := by
  refine ⟨rfl, rfl, ?_⟩
  decide

end TapMysql
