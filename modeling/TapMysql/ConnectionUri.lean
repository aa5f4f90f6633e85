import Mathlib.Data.Option.Basic
import TapMysql.Lib.Uri

/-!
# The URI of an ADBC connection

`_build_uri` puts the parts of the configuration into one URI and encodes the password alone, with
`quote_plus`, which writes a blank as a plus sign. A reader of URIs splits at delimiters before it
decodes, and a plus sign stands for itself.
-/

namespace TapMysql

/-! ### Writing -/

/-- One octet in `quote_plus`. -/
def quoteOctet (b : UInt8) : List Char :=
  if Uri.isUnreserved b then [Char.ofNat b.toNat]
  else if b = 0x20 then ['+']
  else Uri.encodeOctet b

def quotePlus (s : String) : String :=
  String.ofList ((Utf8.encode s.toList).flatMap quoteOctet)

/-- `f'/{database}' if database else '/'`. -/
def databasePart : Option String → String
  | none => "/"
  | some d => if d = "" then "/" else "/" ++ d

def buildUri (host : String) (port : ℕ) (user password : String) (database : Option String) :
    String :=
  "mysql://" ++ user ++ ":" ++ quotePlus password ++ "@" ++ host ++ ":" ++ toString port ++
    databasePart database

example : buildUri "h" 3306 "u" "p@ss/word" (some "db") = "mysql://u:p%40ss%2Fword@h:3306/db" := by
  decide

/-! ### Reading -/

structure Address where
  user : String
  password : String
  host : String
  port : ℕ
  database : Option String
  deriving DecidableEq, Repr

def readPort (ds : List Char) : Option ℕ :=
  if !ds.isEmpty && ds.all Char.isDigit then some (Digits.value ds) else none

/-- The database behind the first slash of the path; the root names none. -/
def readDatabase : List Char → Option (Option String)
  | [] => some none
  | [_] => some none
  | _ :: cs => (Uri.decode cs).map some

def readUri (uri : String) : Option Address := do
  let parts ← Uri.split uri.toList
  let user ← parts.user.bind Uri.decode
  let password ← parts.password.bind Uri.decode
  let host ← Uri.decode parts.host
  let port ← parts.port.bind readPort
  let database ← readDatabase parts.path
  return ⟨user, password, host, port, database⟩

theorem readUri_eq_some {uri : String} {a : Address} : readUri uri = some a ↔
    ∃ parts, Uri.split uri.toList = some parts ∧ parts.user.bind Uri.decode = some a.user ∧
      parts.password.bind Uri.decode = some a.password ∧ Uri.decode parts.host = some a.host ∧
      parts.port.bind readPort = some a.port ∧ readDatabase parts.path = some a.database := by
  obtain ⟨user, password, host, port, database⟩ := a
  simp [readUri, Option.bind_eq_some_iff]

/-! ### The password -/

theorem forall_octet {P : UInt8 → Prop} (h : ∀ n < 256, P (UInt8.ofNat n)) (b : UInt8) : P b := by
  have hb := h b.toNat b.toNat_lt
  rwa [UInt8.ofNat_toNat] at hb

/-- No delimiter is left after `quote_plus`. -/
theorem quoteOctet_delimiters (b : UInt8) : ∀ c ∈ quoteOctet b, Uri.endsAuthority c = false := by
  have hall : (quoteOctet b).all (fun c => !Uri.endsAuthority c) = true :=
    forall_octet (P := fun b => (quoteOctet b).all (fun c => !Uri.endsAuthority c) = true)
      (by decide +kernel) b
  intro c hc
  have hc := List.all_eq_true.mp hall c hc
  rwa [Bool.not_eq_true'] at hc

theorem unreserved_octet : ∀ n < 256, Uri.isUnreserved (UInt8.ofNat n) = true →
    Char.ofNat n ≠ '%' ∧ String.utf8EncodeChar (Char.ofNat n) = [UInt8.ofNat n] ∧ n ≠ 0x20 := by
  decide +kernel

theorem octets_quoteOctet (b : UInt8) (rest : List Char) :
    Uri.octets (quoteOctet b ++ rest) = (if b = 0x20 then 0x2b else b) :: Uri.octets rest := by
  rw [quoteOctet]
  split_ifs with hunreserved hblank hblank
  · subst hblank
    exact absurd hunreserved (by decide)
  · have hb : UInt8.ofNat b.toNat = b := UInt8.ofNat_toNat
    obtain ⟨hpercent, hencode, -⟩ := unreserved_octet b.toNat b.toNat_lt (hb.symm ▸ hunreserved)
    rw [List.cons_append, List.nil_append, Uri.octets_cons hpercent, hencode, hb]
    rfl
  · rw [List.cons_append, List.nil_append, Uri.octets_cons (by decide)]
    rfl
  · exact Uri.octets_encodeOctet b rest

theorem octets_quotePlus (bs : List UInt8) :
    Uri.octets (bs.flatMap quoteOctet) = bs.map fun b => if b = 0x20 then 0x2b else b := by
  induction bs with
  | nil => rfl
  | cons b bs ih => rw [List.flatMap_cons, octets_quoteOctet, ih, List.map_cons]

/-- A password comes back when it has no blank. -/
theorem decode_quotePlus_iff (s : String) :
    Uri.decode (quotePlus s).toList = some s ↔ ' ' ∉ s.toList := by
  have hblank : (0x20 : UInt8) ∈ Utf8.encode s.toList ↔ ' ' ∈ s.toList :=
    Utf8.mem_encode_ascii (c := ' ') (by decide)
  rw [Uri.decode, Utf8.decode_eq_some, quotePlus, String.toList_ofList, octets_quotePlus,
    ← hblank]
  constructor
  · intro h hmem
    have hmap : (Utf8.encode s.toList).map (fun b => if b = 0x20 then 0x2b else b) =
        (Utf8.encode s.toList).map id := by rw [h, List.map_id]
    exact absurd (List.map_inj_left.mp hmap 0x20 hmem) (by decide)
  · intro h
    refine (List.map_congr_left fun b hb => if_neg ?_).trans (List.map_id _)
    rintro rfl
    exact h hb

/-! ### The round trip -/

/-- The delimiters of URIs. -/
def reserved : List Char := ":/?#[]@!$&\x27()*+,;=".toList

theorem toList_databasePart (database : Option String) :
    (databasePart database).toList = '/' :: (database.getD "").toList := by
  have hslash : "/".toList = ['/'] := by decide
  unfold databasePart
  split
  · exact hslash
  · split_ifs with hempty
    · rw [hempty]
      exact hslash
    · rw [String.toList_append, hslash]
      rfl

theorem toList_buildUri (host : String) (port : ℕ) (user password : String)
    (database : Option String) : (buildUri host port user password database).toList =
      "mysql".toList ++ ':' :: '/' :: '/' :: (user.toList ++ ':' :: ((quotePlus password).toList ++
        '@' :: (host.toList ++ ':' ::
          (Nat.toDigits 10 port ++ (databasePart database).toList)))) := by
  have hscheme : "mysql://".toList = "mysql".toList ++ [':', '/', '/'] := by decide
  have hcolon : ":".toList = [':'] := by decide
  have hat : "@".toList = ['@'] := by decide
  rw [buildUri, String.toList_append, String.toList_append, String.toList_append,
    String.toList_append, String.toList_append, String.toList_append, String.toList_append,
    String.toList_append, hscheme, hcolon, hat, Digits.toList_toString]
  simp only [List.append_assoc, List.cons_append, List.nil_append]

theorem readDatabase_iff {database : Option String} (hne : database ≠ some "") :
    readDatabase ((databasePart database).toList.takeWhile fun c => !Uri.endsPath c) =
        some database ↔
      ∀ d, database = some d →
        (∀ c ∈ d.toList, Uri.endsPath c = false) ∧ ¬Uri.HasEscape d.toList := by
  rw [toList_databasePart, List.takeWhile_cons_of_pos (by decide)]
  cases database with
  | none => exact iff_of_true rfl (fun d hd => absurd hd (by simp))
  | some d =>
    have hplain : (∀ c ∈ d.toList, Uri.endsPath c = false) ↔
        d.toList.takeWhile (fun c => !Uri.endsPath c) = d.toList := by
      rw [List.takeWhile_eq_self_iff]
      simp only [Bool.not_eq_true']
    have hread := Uri.decode_prefix_iff (s := d)
      (List.takeWhile_prefix fun c => !Uri.endsPath c)
    rw [Option.getD_some]
    simp only [Option.some.injEq, forall_eq', hplain, ← hread]
    cases hpath : d.toList.takeWhile fun c => !Uri.endsPath c with
    | nil =>
      refine iff_of_false (fun h => absurd h (by simp [readDatabase])) fun h => hne ?_
      rw [hpath] at hread
      rw [String.toList_eq_nil_iff.mp (hread.mp h).1.symm]
    | cons c cs => simp [readDatabase]

theorem readPort_toDigits (port : ℕ) : readPort (Nat.toDigits 10 port) = some port := by
  have hdigits : (Nat.toDigits 10 port).all Char.isDigit = true :=
    List.all_eq_true.mpr (Digits.allDigits_toDigits port)
  have hnonempty : (Nat.toDigits 10 port).isEmpty = false :=
    List.isEmpty_eq_false_iff.mpr Nat.toDigits_ne_nil
  rw [readPort, hdigits, hnonempty, Digits.value_toDigits]
  rfl

/-- A host without reserved characters has no delimiter. -/
theorem host_delimiters {host : List Char} (h : ∀ c ∈ host, c ∉ reserved) :
    ':' ∉ host ∧ '@' ∉ host ∧ ∀ c ∈ host, Uri.endsAuthority c = false := by
  have hmark : ∀ mark ∈ reserved, mark ∉ host := fun mark hmark hmem => h mark hmem hmark
  refine ⟨hmark ':' (by decide), hmark '@' (by decide), fun c hc => ?_⟩
  by_contra hend
  rw [Bool.not_eq_false, Uri.endsAuthority, List.contains_iff_mem] at hend
  simp only [List.mem_cons, List.not_mem_nil, or_false] at hend
  rcases hend with rfl | rfl | rfl
  · exact hmark '/' (by decide) hc
  · exact hmark '?' (by decide) hc
  · exact hmark '#' (by decide) hc

theorem port_delimiters (port : ℕ) : '@' ∉ Nat.toDigits 10 port ∧
    ∀ c ∈ Nat.toDigits 10 port, Uri.endsAuthority c = false := by
  have hdigits := Digits.allDigits_toDigits port
  refine ⟨fun hmem => absurd (hdigits '@' hmem) (by decide), fun c hc => ?_⟩
  by_contra hend
  rw [Bool.not_eq_false, Uri.endsAuthority, List.contains_iff_mem] at hend
  simp only [List.mem_cons, List.not_mem_nil, or_false] at hend
  rcases hend with rfl | rfl | rfl <;> exact absurd (hdigits _ hc) (by decide)

section RoundTrip

variable {host user password : String} {port : ℕ} {database : Option String}

theorem split_buildUri : Uri.split (buildUri host port user password database).toList =
    some (Uri.splitAuthority "mysql".toList (user.toList ++ ':' :: ((quotePlus password).toList ++
      '@' :: (host.toList ++ ':' ::
        (Nat.toDigits 10 port ++ (databasePart database).toList))))) := by
  rw [toList_buildUri, Uri.split_append (by decide)]

/-- The user that is read is the user only if it has no delimiter and no escape. -/
theorem user_of_readUri
    (h : readUri (buildUri host port user password database) =
      some ⟨user, password, host, port, database⟩) :
    ':' ∉ user.toList ∧ (∀ c ∈ user.toList, Uri.endsAuthority c = false) ∧
      ¬Uri.HasEscape user.toList := by
  obtain ⟨parts, hsplit, huser, -⟩ := readUri_eq_some.mp h
  rw [split_buildUri, Option.some.injEq] at hsplit
  obtain ⟨p, hp, hdecode⟩ := Option.bind_eq_some_iff.mp huser
  rw [← hsplit] at hp
  obtain ⟨hhead, hcolon, hends⟩ := Uri.splitAuthority_user hp
  obtain ⟨rfl, hescape⟩ := (Uri.decode_prefix_iff (Uri.prefix_of_append hhead hcolon)).mp hdecode
  exact ⟨hcolon, hends, hescape⟩

/-- A user without delimiters leaves every part to itself. -/
theorem readUri_iff (hhost : ∀ c ∈ host.toList, c ∉ reserved)
    (huser : ':' ∉ user.toList ∧ ∀ c ∈ user.toList, Uri.endsAuthority c = false) :
    readUri (buildUri host port user password database) =
        some ⟨user, password, host, port, database⟩ ↔
      Uri.decode user.toList = some user ∧
        Uri.decode (quotePlus password).toList = some password ∧
        Uri.decode host.toList = some host ∧
        readDatabase ((databasePart database).toList.takeWhile fun c => !Uri.endsPath c) =
          some database := by
  have hpassword : ∀ c ∈ (quotePlus password).toList, Uri.endsAuthority c = false := by
    intro c hc
    rw [quotePlus, String.toList_ofList] at hc
    obtain ⟨b, -, hb⟩ := List.mem_flatMap.mp hc
    exact quoteOctet_delimiters b c hb
  have hpath : ∀ c ∈ (databasePart database).toList.head?, Uri.endsAuthority c = true := by
    intro c hc
    rw [toList_databasePart, List.head?_cons, Option.mem_some] at hc
    rw [← hc]
    decide
  rw [readUri_eq_some, split_buildUri, Uri.splitAuthority_spell _ huser hpassword
    (host_delimiters hhost) (port_delimiters port) hpath]
  simp only [Option.some.injEq, exists_eq_left', Option.bind_some, readPort_toDigits, true_and]

end RoundTrip

/-- The URI gives back the configuration exactly when the user has no delimiter, the password no
blank, the database no mark that ends a path, and none but the password an escape. -/
theorem uri_round_trip_iff {host : String} (hhost : ∀ c ∈ host.toList, c ∉ reserved) (port : ℕ)
    (user password : String) {database : Option String} (hdatabase : database ≠ some "") :
    readUri (buildUri host port user password database) =
        some ⟨user, password, host, port, database⟩ ↔
      (':' ∉ user.toList ∧ (∀ c ∈ user.toList, Uri.endsAuthority c = false) ∧
        ¬Uri.HasEscape user.toList) ∧
      ' ' ∉ password.toList ∧ ¬Uri.HasEscape host.toList ∧
      ∀ d, database = some d →
        (∀ c ∈ d.toList, Uri.endsPath c = false) ∧ ¬Uri.HasEscape d.toList := by
  constructor
  · intro h
    have huser := user_of_readUri h
    have hparts := (readUri_iff hhost ⟨huser.1, huser.2.1⟩).mp h
    exact ⟨huser, (decode_quotePlus_iff password).mp hparts.2.1,
      (Uri.decode_self_iff host).mp hparts.2.2.1, (readDatabase_iff hdatabase).mp hparts.2.2.2⟩
  · intro h
    obtain ⟨huser, hpassword, hescape, hpath⟩ := h
    exact (readUri_iff hhost ⟨huser.1, huser.2.1⟩).mpr
      ⟨(Uri.decode_self_iff user).mpr huser.2.2, (decode_quotePlus_iff password).mpr hpassword,
        (Uri.decode_self_iff host).mpr hescape, (readDatabase_iff hdatabase).mpr hpath⟩

theorem uri_round_trip_iff_plain : readUri (buildUri "db-1.example" 3306 "etl@office"
    "p@ss/wörd+100%" (some "shop")) =
      some ⟨"etl@office", "p@ss/wörd+100%", "db-1.example", 3306, some "shop"⟩ := by
  have hescape : ∀ {cs : List Char}, '%' ∉ cs → ¬Uri.HasEscape cs := by
    intro cs hno h
    obtain ⟨xs, x, y, ys, rfl, -⟩ := h
    exact hno (List.mem_append_right xs List.mem_cons_self)
  have hhost : ∀ c ∈ "db-1.example".toList, c ∉ reserved :=
    List.forall_iff_forall_mem.mp (by decide)
  have huser : ∀ c ∈ "etl@office".toList, Uri.endsAuthority c = false :=
    List.forall_iff_forall_mem.mp (by decide)
  have hpath : ∀ c ∈ "shop".toList, Uri.endsPath c = false :=
    List.forall_iff_forall_mem.mp (by decide)
  refine (uri_round_trip_iff hhost 3306 "etl@office" "p@ss/wörd+100%" (by decide)).mpr
    ⟨⟨by decide, huser, hescape (by decide)⟩, by decide, hescape (by decide), fun d hd => ?_⟩
  obtain rfl := Option.some.inj hd
  exact ⟨hpath, hescape (by decide)⟩

/-- A blank in the password comes back as a plus sign, and a colon in the user moves the border
to the password. -/
theorem uri_round_trip_fails :
    readUri (buildUri "h" 3306 "u" "a b" (some "db")) ≠ some ⟨"u", "a b", "h", 3306, some "db"⟩ ∧
      readUri (buildUri "h" 3306 "u" "a b" (some "db")) =
        some ⟨"u", "a+b", "h", 3306, some "db"⟩ ∧
      readUri (buildUri "h" 3306 "u:v" "p" (some "db")) =
        some ⟨"u", "v:p", "h", 3306, some "db"⟩ := by
  decide +kernel

end TapMysql
