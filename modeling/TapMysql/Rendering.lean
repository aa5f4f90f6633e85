import Mathlib.Data.List.DropRight
import TapMysql.Lib.Digits
import TapMysql.Binlog.Run
import TapMysql.Select.SyncQuery

/-!
# Values on the snapshot path and on the binlog path

A binary column is selected through `hex`, and encoded in Python when it comes from the binlog. A
boolean column is rendered in three places, each with a comparison of its own.
-/

namespace TapMysql

/-! ### Hexadecimal text -/

def hexUpperDigit (n : Nat) : Char := "0123456789ABCDEF".toList.getD n '0'

/-- `HEX()` of the server, on a byte string. -/
def mysqlHex (bs : List UInt8) : String :=
  String.ofList (bs.flatMap fun b => [hexUpperDigit (b.toNat / 16), hexUpperDigit (b.toNat % 16)])

/-- Both digits of the byte are decimal digits. -/
def DecimalDigits (b : UInt8) : Prop := b.toNat / 16 < 10 ∧ b.toNat % 16 < 10

instance (b : UInt8) : Decidable (DecimalDigits b) := inferInstanceAs (Decidable (_ ∧ _))

theorem hexDigit_eq_hexUpperDigit :
    ∀ m < 16, ∀ n < 16, hexDigit m = hexUpperDigit n ↔ m = n ∧ m < 10 := by
  decide

theorem hexDigits_eq_iff (a b : UInt8) :
    (hexDigit (a.toNat / 16) = hexUpperDigit (b.toNat / 16) ∧
      hexDigit (a.toNat % 16) = hexUpperDigit (b.toNat % 16)) ↔ a = b ∧ DecimalDigits a := by
  have ha := a.toNat_lt
  have hb := b.toNat_lt
  rw [hexDigit_eq_hexUpperDigit _ (by omega) _ (by omega),
    hexDigit_eq_hexUpperDigit _ (by omega) _ (by omega), DecimalDigits]
  constructor
  · intro h
    obtain ⟨⟨hdiv, hhigh⟩, hmod, hlow⟩ := h
    refine ⟨UInt8.toNat_inj.mp ?_, hhigh, hlow⟩
    omega
  · intro h
    obtain ⟨rfl, hhigh, hlow⟩ := h
    exact ⟨⟨rfl, hhigh⟩, rfl, hlow⟩

theorem hexEncode_eq_mysqlHex_iff (as bs : List UInt8) :
    hexEncode as = mysqlHex bs ↔ as = bs ∧ ∀ b ∈ as, DecimalDigits b := by
  rw [hexEncode, mysqlHex, String.ofList_inj]
  induction as generalizing bs with
  | nil => cases bs <;> simp
  | cons a as ih =>
    cases bs with
    | nil => simp
    | cons b bs =>
      simp only [List.flatMap_cons, List.cons_append, List.nil_append, List.cons.injEq, ih,
        List.forall_mem_cons]
      rw [← and_assoc, hexDigits_eq_iff, and_and_and_comm]

theorem length_hexEncode (bs : List UInt8) : (hexEncode bs).length = bs.length * 2 := by
  simp [hexEncode, List.length_flatMap]

theorem ljustZero_hexEncode (n : Nat) (bs : List UInt8) :
    ljustZero (n * 2) (hexEncode bs) = hexEncode (bs ++ List.replicate (n - bs.length) 0) := by
  have hzeros : ∀ k, (List.replicate k (0 : UInt8)).flatMap (fun b =>
      [hexDigit (b.toNat / 16), hexDigit (b.toNat % 16)]) = List.replicate (k * 2) '0' := by
    intro k
    induction k with
    | zero => rfl
    | succ k ih =>
      rw [List.replicate_succ, List.flatMap_cons, ih, Nat.succ_mul]
      rfl
  rw [ljustZero, length_hexEncode, ← Nat.sub_mul, hexEncode, hexEncode, List.flatMap_append,
    hzeros, String.ofList_append]

/-! ### One column of a row -/

/-- The snapshot path reads `y` in the column, from every row that holds `x` there. -/
def SnapshotReads (e : CatalogEntry) (c : String) (x y : Val) : Prop :=
  ∀ row columns record, columns.Nodup → (c, x) ∈ columns.zip row →
    rowToSingerRecord e row columns = .ok record → record.get? c = some y

/-- The same for the rows of a record batch. -/
def ArrowReads (e : CatalogEntry) (c : String) (x y : Val) : Prop :=
  ∀ row names, names.Nodup → (c, x) ∈ names.zip row →
    (castBooleanColumns e names row).get? c = some y

/-- The binlog path reads `y` in the column, from every image that holds `x` there. -/
def BinlogReads (lib : Binlog.RenderLib) (e : CatalogEntry) (columns : List Binlog.DbColumn)
    (c : String) (x y : Val) : Prop :=
  ∀ (row : Record) version time record, row.get? c = some x →
    Binlog.rowToSingerRecord lib e version columns row time =
      .ok (.record e.stream record version time) → record.get? c = some y

variable {e : CatalogEntry} {c : String} {p : PropSchema} {x y z : Val}

theorem get?_single : (Dict.ofList [(c, x)]).get? c = some x :=
  Dict.get?_ofList_of_mem (by simp) (List.mem_singleton_self _)

theorem renderItems_field {schema : Schema} {columns : List String} {row : Row}
    {items : List (String × Val)} (h : renderItems schema columns row = .ok items)
    (hp : schema.get? c = some p) (hy : renderElem p x = .ok y) :
    items.map Prod.fst = (columns.zip row).map Prod.fst ∧
      ((c, x) ∈ columns.zip row → (c, y) ∈ items) := by
  induction row generalizing columns items with
  | nil =>
    have hitems : items = [] := by
      rw [renderItems] at h
      exact (Except.ok.inj h).symm
    simp [hitems]
  | cons v vs ih =>
    obtain _ | ⟨k, cs⟩ := columns
    · simp [renderItems] at h
    · rw [renderItems] at h
      split at h
      · cases h
      · rename_i q hq
        split at h
        · cases h
        · rename_i w hw
          split at h
          · cases h
          · rename_i rest hrest
            cases h
            obtain ⟨hnames, hmem⟩ := ih hrest
            refine ⟨by simp [hnames], fun hin => ?_⟩
            rw [List.zip_cons_cons, List.mem_cons] at hin
            rcases hin with heq | hin
            · obtain ⟨rfl, rfl⟩ := Prod.mk.inj heq
              rw [hp, Option.some.injEq] at hq
              subst hq
              rw [hy, Except.ok.injEq] at hw
              subst hw
              exact List.mem_cons_self
            · exact List.mem_cons_of_mem _ (hmem hin)

theorem zip_names_sublist (columns : List String) (row : Row) :
    ((columns.zip row).map Prod.fst).Sublist columns := by
  induction columns generalizing row with
  | nil => simp
  | cons k cs ih =>
    obtain _ | ⟨v, vs⟩ := row
    · simp
    · simpa using ih vs

theorem nodup_zip_names {columns : List String} (h : columns.Nodup) (row : Row) :
    ((columns.zip row).map Prod.fst).Nodup :=
  h.sublist (zip_names_sublist columns row)

theorem snapshotReads_iff (hp : e.schema.get? c = some p) (hy : renderElem p x = .ok y) :
    SnapshotReads e c x z ↔ y = z := by
  constructor
  · intro h
    have hfield := h [x] [c] (Dict.ofList [(c, y)]) (List.nodup_singleton c)
      (List.mem_singleton_self _) (by simp [rowToSingerRecord, renderItems, hp, hy])
    rw [get?_single, Option.some.injEq] at hfield
    exact hfield
  · rintro rfl row columns record hcolumns hin h
    rw [rowToSingerRecord] at h
    split at h
    · cases h
    · rename_i items hitems
      cases h
      obtain ⟨hnames, hmem⟩ := renderItems_field hitems hp hy
      exact Dict.get?_ofList_of_mem (hnames ▸ nodup_zip_names hcolumns row) (hmem hin)

theorem arrowReads_iff (hc : (booleanColumns e).contains c = true) :
    ArrowReads e c x z ↔ castBoolean x = z := by
  constructor
  · intro h
    have hfield := h [x] [c] (List.nodup_singleton c) (List.mem_singleton_self _)
    have hrow : castBooleanColumns e [c] [x] = Dict.ofList [(c, castBoolean x)] := by
      rw [castBooleanColumns, List.zip_cons_cons, List.zip_nil_right, List.map_singleton, if_pos hc]
    rw [hrow, get?_single, Option.some.injEq] at hfield
    exact hfield
  · rintro rfl row names hnames hin
    refine Dict.get?_ofList_of_mem ?_ (List.mem_map.mpr ⟨(c, x), hin, by rw [if_pos hc]⟩)
    rw [List.map_map]
    exact nodup_zip_names hnames row

theorem binlogItems_field {lib : Binlog.RenderLib} {schema : Schema}
    {columns : List Binlog.DbColumn} {row items : List (String × Val)}
    (h : Binlog.renderItems lib schema columns row = .ok items) (hp : schema.get? c = some p)
    (hy : Binlog.renderValue lib p (Binlog.dbColumn columns c) x = .ok y) (hin : (c, x) ∈ row) :
    (c, y) ∈ items := by
  obtain ⟨q, z, hq, hz, hmem⟩ := Binlog.renderItems_mem h hin
  obtain rfl := Option.some.inj (hp.symm.trans hq)
  obtain rfl := Except.ok.inj (hy.symm.trans hz)
  exact hmem

theorem binlogReads_iff {lib : Binlog.RenderLib} {columns : List Binlog.DbColumn}
    (hp : e.schema.get? c = some p)
    (hy : Binlog.renderValue lib p (Binlog.dbColumn columns c) x = .ok y) :
    BinlogReads lib e columns c x z ↔ y = z := by
  constructor
  · intro h
    have hentries : (Dict.ofList [(c, x)]).entries = [(c, x)] := rfl
    have hrow : Binlog.rowToSingerRecord lib e .null columns (Dict.ofList [(c, x)]) "" =
        .ok (.record e.stream (Dict.ofList [(c, y)]) .null "") := by
      rw [Binlog.rowToSingerRecord, hentries]
      simp [Binlog.renderItems, hp, hy]
    have hfield := h _ .null "" _ get?_single hrow
    rw [get?_single, Option.some.injEq] at hfield
    exact hfield
  · rintro rfl row version time record hx h
    rw [Binlog.rowToSingerRecord] at h
    split at h
    · rename_i items hitems
      cases h
      refine Dict.get?_ofList_of_mem ?_
        (binlogItems_field hitems hp hy (Dict.get?_eq_some.mp hx))
      rw [Binlog.renderItems_names hitems]
      exact row.nodup
    · cases h

/-! ### Binary columns -/

/-- A column of the binary types, as discovery describes it. -/
structure BinaryColumn (p : PropSchema) : Prop where
  type : p.type = some ["null", "string"]
  format : p.format = some "binary"

inductive BinaryKind
  | binary
  | varbinary
  deriving DecidableEq

/-- A stored value of a `BINARY(n)` or `VARBINARY(n)` column. -/
structure BinaryValue where
  kind : BinaryKind
  n : Nat
  bytes : List UInt8
  fits : match kind with
    | .binary => bytes.length = n
    | .varbinary => bytes.length ≤ n

theorem BinaryValue.length_le (v : BinaryValue) : v.bytes.length ≤ v.n := by
  obtain ⟨kind, n, bytes, fits⟩ := v
  cases kind with
  | binary => exact le_of_eq fits
  | varbinary => exact fits

theorem BinaryValue.length_eq {v : BinaryValue}
    (h : v.kind = .varbinary → v.bytes.length = v.n) : v.bytes.length = v.n := by
  obtain ⟨kind, n, bytes, fits⟩ := v
  cases kind with
  | binary => exact fits
  | varbinary => exact h rfl

def stripTrailingZeros (bs : List UInt8) : List UInt8 :=
  bs.rdropWhile fun b => decide (b = 0)

/-- The value as the client of the binlog delivers it. -/
def BinaryValue.delivered (v : BinaryValue) : List UInt8 :=
  match v.kind with
  | .binary => stripTrailingZeros v.bytes
  | .varbinary => v.bytes

theorem exists_stripped_zeros (bs : List UInt8) :
    ∃ k, bs = stripTrailingZeros bs ++ List.replicate k 0 := by
  rw [stripTrailingZeros]
  induction bs using List.reverseRecOn with
  | nil => exact ⟨0, rfl⟩
  | append_singleton bs b ih =>
    by_cases hb : b = 0
    · obtain ⟨k, hk⟩ := ih
      refine ⟨k + 1, ?_⟩
      rw [List.rdropWhile_concat_pos _ _ _ (by simpa using hb), List.replicate_succ',
        ← List.append_assoc, ← hk, hb]
    · refine ⟨0, ?_⟩
      rw [List.rdropWhile_concat_neg _ _ _ (by simpa using hb), List.replicate_zero,
        List.append_nil]

/-- What the binlog path encodes: the stored bytes, and zero bytes up to the declared length. -/
theorem delivered_padded (v : BinaryValue) :
    v.delivered ++ List.replicate (v.n - v.delivered.length) 0 =
      v.bytes ++ List.replicate (v.n - v.bytes.length) 0 := by
  obtain ⟨kind, n, bytes, fits⟩ := v
  cases kind with
  | binary =>
    have hn : bytes.length = n := fits
    obtain ⟨k, hk⟩ := exists_stripped_zeros bytes
    have hlength : n - (stripTrailingZeros bytes).length = k := by
      have hlen := congrArg List.length hk
      rw [List.length_append, List.length_replicate] at hlen
      omega
    show stripTrailingZeros bytes ++ List.replicate (n - (stripTrailingZeros bytes).length) 0 =
      bytes ++ List.replicate (n - bytes.length) 0
    rw [hlength, ← hk, hn, Nat.sub_self, List.replicate_zero, List.append_nil]
  | varbinary => rfl

theorem renderValue_binary {lib : Binlog.RenderLib} (hp : BinaryColumn p) {col : Binlog.DbColumn}
    (htype : col.type ≠ Binlog.FieldType.json) {n : Nat} (hn : col.maxLength = some n)
    (bs : List UInt8) :
    Binlog.renderValue lib p (some col) (.bytes bs) =
      .ok (.str (ljustZero (n * 2) (hexEncode bs))) := by
  simp [Binlog.renderValue, Binlog.renderOther, htype, hp.format, hn]

theorem renderElem_binary (hp : BinaryColumn p) (s : String) :
    renderElem p (.str s) = .ok (.str s) := by
  simp [renderElem, hp.type]

/-- Both paths read the same text exactly when every hexadecimal digit of the stored bytes is a
decimal digit, and a `VARBINARY` value has the full length of its column. -/
theorem binary_paths_agree_iff {κ : Type*} [LinearOrder κ] {db : Mysql κ}
    (hhex : ∀ bs, db.hex (.bytes bs) = .str (mysqlHex bs)) (hp : e.schema.get? c = some p)
    (hbinary : BinaryColumn p) (v : BinaryValue) {r : TableRow} (hr : r.cell c = .bytes v.bytes)
    {selected : SelectColumn} (hselected : selectColumn e.schema c = .ok selected)
    (lib : Binlog.RenderLib) {columns : List Binlog.DbColumn} {col : Binlog.DbColumn}
    (hcol : Binlog.dbColumn columns c = some col) (htype : col.type ≠ Binlog.FieldType.json)
    (hlength : col.maxLength = some v.n) :
    (∃ text, SnapshotReads e c (db.columnValue r selected) (.str text) ∧
      BinlogReads lib e columns c (.bytes v.delivered) (.str text)) ↔
    (∀ b ∈ v.bytes, DecimalDigits b) ∧ (v.kind = .varbinary → v.bytes.length = v.n) := by
  have hhexColumn : selected = .hex c := by
    obtain ⟨-, q, -, hq, rfl⟩ := selectColumn_ok_iff.mp hselected
    obtain rfl := Option.some.inj (hp.symm.trans hq)
    exact if_pos hbinary.format
  have hsnapshot : ∀ text, SnapshotReads e c (db.columnValue r selected) (.str text) ↔
      Val.str (mysqlHex v.bytes) = .str text := by
    intro text
    rw [hhexColumn, Mysql.columnValue, hr, hhex]
    exact snapshotReads_iff hp (renderElem_binary hbinary _)
  have hbinlog : ∀ text, BinlogReads lib e columns c (.bytes v.delivered) (.str text) ↔
      Val.str (hexEncode (v.bytes ++ List.replicate (v.n - v.bytes.length) 0)) = .str text := by
    intro text
    rw [← delivered_padded, ← ljustZero_hexEncode]
    exact binlogReads_iff hp (hcol ▸ renderValue_binary hbinary htype hlength v.delivered)
  simp only [hsnapshot, hbinlog, Val.str.injEq, exists_eq_left', hexEncode_eq_mysqlHex_iff,
    List.append_right_eq_self, List.replicate_eq_nil_iff]
  constructor
  · intro h
    obtain ⟨hfull, hdigits⟩ := h
    have hle := v.length_le
    exact ⟨fun b hb => hdigits b (List.mem_append_left _ hb), fun _ => by omega⟩
  · intro h
    obtain ⟨hdigits, hfull⟩ := h
    have hzero : v.n - v.bytes.length = 0 := by
      rw [v.length_eq hfull, Nat.sub_self]
    rw [hzero, List.replicate_zero, List.append_nil]
    exact ⟨rfl, hdigits⟩

namespace Sample

/-- Table `db.t` with a binary column `h` and a boolean column `b`. -/
def valuesEntry : CatalogEntry where
  tapStreamId := "db-t"
  stream := "db-t"
  table := "t"
  metadata := Dict.empty
  schema := Dict.ofList
    [("h", { PropSchema.blank with
      type := some ["null", "string"], format := some "binary", inclusion := some .available }),
    ("b", { PropSchema.blank with
      type := some ["null", "boolean"], inclusion := some .available })]

def hexServer : Mysql Int :=
  { intServer with hex := fun v => match v with | .bytes bs => .str (mysqlHex bs) | v => v }

/-- The columns of an event on the table, with a `BINARY(n)` column. -/
def valuesColumns (n : ℕ) : List Binlog.DbColumn :=
  [⟨some "h", 254, some n⟩, ⟨some "b", Binlog.FieldType.bit, none⟩]

def binaryRow (bs : List UInt8) : TableRow := Dict.ofList [("h", .bytes bs)]

end Sample

theorem binary_paths_agree_iff_digits :
    ∃ text, SnapshotReads Sample.valuesEntry "h"
        (Sample.hexServer.columnValue (Sample.binaryRow [0x12, 0x34, 0]) (.hex "h")) (.str text) ∧
      BinlogReads Binlog.Sample.lib Sample.valuesEntry (Sample.valuesColumns 3) "h"
        (.bytes [0x12, 0x34]) (.str text) := by
  have hhex : ∀ bs, Sample.hexServer.hex (.bytes bs) = .str (mysqlHex bs) := fun _ => rfl
  exact (binary_paths_agree_iff hhex rfl ⟨rfl, rfl⟩ ⟨.binary, 3, [0x12, 0x34, 0], rfl⟩ rfl rfl
    Binlog.Sample.lib rfl (by decide) rfl).mpr ⟨by simp [DecimalDigits], nofun⟩

/-- `HEX()` writes upper-case digits and the binlog path lower-case ones. -/
theorem binary_paths_differ :
    ¬ ∃ text, SnapshotReads Sample.valuesEntry "h"
        (Sample.hexServer.columnValue (Sample.binaryRow [0xde, 0xad]) (.hex "h")) (.str text) ∧
      BinlogReads Binlog.Sample.lib Sample.valuesEntry (Sample.valuesColumns 2) "h"
        (.bytes [0xde, 0xad]) (.str text) := by
  intro h
  obtain ⟨text, hsnapshot, hbinlog⟩ := h
  have hupper := hsnapshot [.str "DEAD"] ["h"] (Dict.ofList [("h", .str "DEAD")]) (by decide)
    (List.mem_singleton_self _) rfl
  have hlower := hbinlog (Sample.binaryRow [0xde, 0xad]) .null ""
    (Dict.ofList [("h", .str "dead")]) rfl rfl
  rw [get?_single, Option.some.injEq, Val.str.injEq] at hupper hlower
  exact absurd (hupper.trans hlower.symm) (by decide)

/-! ### Boolean columns -/

/-- A stored value of a boolean column; a bit string is its big-endian bytes. -/
inductive BooleanValue
  | null
  | int (n : Int)
  | bits (bs : List UInt8) (nonempty : bs ≠ [])

namespace BooleanValue

/-- The value in the answer to a SELECT, for both clients. -/
def selected : BooleanValue → Val
  | .null => .null
  | .int n => .int n
  | .bits bs _ => .bytes bs

/-- Null for NULL, false for zero and true otherwise. -/
def meaning : BooleanValue → Val
  | .null => .null
  | .int n => .bool (decide (n ≠ 0))
  | .bits bs _ => .bool (decide (intFromBytesBig bs ≠ 0))

/-- How the client of the binlog delivers the value: a bit string of a BIT column as its bytes, or
as the text of its bits. -/
inductive Delivered (col : Binlog.DbColumn) : BooleanValue → Val → Prop
  | null (htype : col.type ≠ Binlog.FieldType.json) : Delivered col .null .null
  | int (htype : col.type ≠ Binlog.FieldType.json) (n : Int) : Delivered col (.int n) (.int n)
  | bytes (htype : col.type = Binlog.FieldType.bit) (bs : List UInt8) (h : bs ≠ []) :
      Delivered col (.bits bs h) (.bytes bs)
  | text (htype : col.type = Binlog.FieldType.bit) (bs : List UInt8) (h : bs ≠ []) (s : String)
      (hne : s ≠ "") (hdigits : ∀ c ∈ s.toList, c = '0' ∨ c = '1')
      (hvalue : Nat.ofDigitChars 2 s.toList 0 = intFromBytesBig bs) :
      Delivered col (.bits bs h) (.str s)

/-- A bit string of more than one byte that is all zero. -/
def WideZero : BooleanValue → Prop
  | .bits bs _ => 2 ≤ bs.length ∧ ∀ b ∈ bs, b = 0
  | _ => False

end BooleanValue

theorem intFromBytesLittle_eq_zero {bs : List UInt8} :
    intFromBytesLittle bs = 0 ↔ ∀ b ∈ bs, b = 0 := by
  induction bs with
  | nil => simp [intFromBytesLittle]
  | cons b bs ih =>
    have hb : b.toNat = 0 ↔ b = 0 := UInt8.toNat_inj (b := 0)
    rw [intFromBytesLittle, Nat.add_eq_zero_iff, Nat.mul_eq_zero, hb, List.forall_mem_cons, ih]
    simp

theorem intFromBytesBig_eq_zero {bs : List UInt8} :
    intFromBytesBig bs = 0 ↔ ∀ b ∈ bs, b = 0 := by
  simp [intFromBytesBig, intFromBytesLittle_eq_zero]

theorem isDigit_of_bit {c : Char} (h : c = '0' ∨ c = '1') : c.isDigit = true := by
  rcases h with rfl | rfl <;> rfl

theorem ofDigitChars_two_eq_zero_iff {ds : List Char} (h : ∀ c ∈ ds, c = '0' ∨ c = '1') :
    Nat.ofDigitChars 2 ds 0 = 0 ↔ Nat.ofDigitChars 10 ds 0 = 0 := by
  have hdigits : Digits.AllDigits ds := fun c hc => isDigit_of_bit (h c hc)
  rw [Digits.ofDigitChars_eq_zero_iff (by omega) hdigits,
    Digits.ofDigitChars_eq_zero_iff (by omega) hdigits]

variable {v : BooleanValue}

/-- The test with `0` and one zero byte misses the wide zeros. -/
theorem zero_byte_test (hwide : ¬ v.WideZero) :
    (match v.selected with | .null => Val.null | x => .bool !x.isZero) = v.meaning := by
  cases v with
  | null => rfl
  | int n => simp [BooleanValue.selected, BooleanValue.meaning, Val.isZero]
  | bits bs h =>
    have hzero : bs = [0] ↔ intFromBytesBig bs = 0 := by
      rw [intFromBytesBig_eq_zero]
      match bs, h with
      | [b], _ => simp
      | b :: b' :: bs, _ =>
        have hnot : ¬ ∀ x ∈ b :: b' :: bs, x = 0 := fun hall => hwide ⟨by simp, hall⟩
        simpa using hnot
    simp [BooleanValue.selected, BooleanValue.meaning, Val.isZero, hzero]

theorem castBoolean_selected (hwide : ¬ v.WideZero) : castBoolean v.selected = v.meaning := by
  rw [← zero_byte_test hwide]
  cases v with
  | null => rfl
  | int n => rfl
  | bits bs h => simp [BooleanValue.selected, castBoolean, Val.isZero]

theorem contains_booleanColumns (hp : e.schema.get? c = some p) (hboolean : BooleanColumn p) :
    (booleanColumns e).contains c = true :=
  List.contains_iff_mem.mpr ((mem_booleanColumns hp hboolean.type).mpr (by simp))

theorem renderElem_boolean (hp : BooleanColumn p) (hwide : ¬ v.WideZero) :
    renderElem p v.selected = .ok v.meaning := by
  rw [← zero_byte_test hwide]
  cases v <;> simp [BooleanValue.selected, renderElem, hp.type]

theorem renderValue_boolean {lib : Binlog.RenderLib} (hp : BooleanColumn p) {col : Binlog.DbColumn}
    {x : Val} (h : v.Delivered col x) : Binlog.renderValue lib p (some col) x = .ok v.meaning := by
  have hboolean : Binlog.isBooleanType p = .ok true := by
    rw [Binlog.isBooleanType, hp.type]
    rfl
  cases h with
  | null htype => simp [Binlog.renderValue, Binlog.renderOther, htype, hp.format, hboolean,
      Binlog.renderBoolean, BooleanValue.meaning]
  | int htype n =>
    by_cases hn : n = 0
    · simp [Binlog.renderValue, Binlog.renderOther, htype, hp.format, hboolean,
        Binlog.renderBoolean, BooleanValue.meaning, Val.isZero, hn]
    · simp [Binlog.renderValue, Binlog.renderOther, htype, hp.format, hboolean,
        Binlog.renderBoolean, BooleanValue.meaning, Val.isZero, hn, Binlog.intOfVal]
  | bytes htype bs hne =>
    by_cases hzero : bs = [0]
    · subst hzero
      simp [Binlog.renderValue, Binlog.renderOther, htype, hp.format, hboolean,
        Binlog.FieldType.bit, Binlog.FieldType.json, Binlog.renderBoolean, BooleanValue.meaning,
        Val.isZero, intFromBytesBig, intFromBytesLittle]
    · simp [Binlog.renderValue, Binlog.renderOther, htype, hp.format, hboolean,
        Binlog.FieldType.bit, Binlog.FieldType.json, Binlog.renderBoolean, BooleanValue.meaning,
        Val.isZero, hzero]
  | text htype bs hne s hs hdigits hvalue =>
    have hint := pyInt_of_isDigit (fun c hc => isDigit_of_bit (hdigits c hc)) hs
    have hzero := ofDigitChars_two_eq_zero_iff hdigits
    rw [hvalue] at hzero
    simp [Binlog.renderValue, Binlog.renderOther, htype, hp.format, hboolean,
      Binlog.FieldType.bit, Binlog.FieldType.json, Binlog.renderBoolean, BooleanValue.meaning,
      Val.isZero, Binlog.intOfVal, hint, hzero]

theorem castBoolean_wideZero (hwide : v.WideZero) : castBoolean v.selected ≠ v.meaning := by
  cases v with
  | null => exact hwide.elim
  | int n => exact hwide.elim
  | bits bs h =>
    obtain ⟨hlength, hzero⟩ := hwide
    have hbyte : bs ≠ [0] := by
      rintro rfl
      simp at hlength
    simp [BooleanValue.selected, BooleanValue.meaning, castBoolean, hbyte,
      intFromBytesBig_eq_zero.mpr hzero]

/-- The three renderers give the meaning of every value but the bit strings of more than one byte
that are all zero. -/
theorem boolean_renderers_agree_iff (hp : e.schema.get? c = some p) (hboolean : BooleanColumn p)
    (v : BooleanValue) (lib : Binlog.RenderLib) {columns : List Binlog.DbColumn}
    {col : Binlog.DbColumn} (hcol : Binlog.dbColumn columns c = some col) {x : Val}
    (hx : v.Delivered col x) :
    (SnapshotReads e c v.selected v.meaning ∧ ArrowReads e c v.selected v.meaning ∧
      BinlogReads lib e columns c x v.meaning) ↔ ¬ v.WideZero := by
  have harrow := arrowReads_iff (x := v.selected) (z := v.meaning)
    (contains_booleanColumns hp hboolean)
  constructor
  · rintro ⟨-, hreads, -⟩ hwide
    exact castBoolean_wideZero hwide (harrow.mp hreads)
  · intro hwide
    refine ⟨?_, harrow.mpr (castBoolean_selected hwide), ?_⟩
    · exact (snapshotReads_iff hp (renderElem_boolean hboolean hwide)).mpr rfl
    · exact (binlogReads_iff hp (hcol ▸ renderValue_boolean hboolean hx)).mpr rfl

theorem boolean_renderers_agree_iff_bit :
    SnapshotReads Sample.valuesEntry "b" (.bytes [0, 2]) (.bool true) ∧
      ArrowReads Sample.valuesEntry "b" (.bytes [0, 2]) (.bool true) ∧
      BinlogReads Binlog.Sample.lib Sample.valuesEntry (Sample.valuesColumns 1) "b"
        (.str "0000000010") (.bool true) :=
  (boolean_renderers_agree_iff (c := "b") rfl ⟨rfl, rfl⟩ (.bits [0, 2] (by decide))
    Binlog.Sample.lib rfl (.text rfl _ _ "0000000010" (by decide) (by simp) (by decide))).mpr
    fun h => absurd (h.2 2 (by decide)) (by decide)

/-- A `BIT(9)` value that is zero is true in a snapshot and in a record batch, and false from the
binlog. -/
theorem zero_bit_string_is_true :
    ¬ SnapshotReads Sample.valuesEntry "b" (.bytes [0, 0]) (.bool false) ∧
      ¬ ArrowReads Sample.valuesEntry "b" (.bytes [0, 0]) (.bool false) ∧
      BinlogReads Binlog.Sample.lib Sample.valuesEntry (Sample.valuesColumns 1) "b"
        (.bytes [0, 0]) (.bool false) := by
  refine ⟨fun h => ?_, fun h => ?_, (binlogReads_iff rfl rfl).mpr rfl⟩
  · exact absurd ((snapshotReads_iff rfl rfl).mp h) (by decide)
  · exact absurd ((arrowReads_iff (by decide)).mp h) (by decide)

end TapMysql
