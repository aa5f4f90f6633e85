import TapMysql.DiscoverCatalog
import TapMysql.Lib.JsonRoundTrip
import TapMysql.Lib.Utf8
import TapMysql.Rendering

/-!
# JSON columns and NULL

The client of a SELECT delivers a document as its text and the client of the binlog as a tree, whose
byte strings are decoded before `json.dumps` writes it. Both clients deliver NULL as `None`, which
`json.dumps` writes as a text, too. The text of a double is a parameter.
-/

namespace TapMysql

open Binlog

/-! ### Python's text and JSON functions -/

/-- `bytes.decode()`. -/
def utf8Decode (bs : List UInt8) : Option String := Utf8.decode bs

/-- `str.encode()`. -/
def utf8Encode (s : String) : List UInt8 := Utf8.encode s.toList

theorem utf8Decode_utf8Encode (s : String) : utf8Decode (utf8Encode s) = some s :=
  Utf8.decode_encode s

def className : Val → String
  | .null => "NoneType"
  | .bool _ => "bool"
  | .int _ => "int"
  | .float _ => "float"
  | .decimal _ => "Decimal"
  | .str _ => "str"
  | .bytes _ => "bytes"
  | .datetime _ => "datetime"
  | .date _ => "date"
  | .timedelta _ => "timedelta"
  | .list _ => "list"
  | .tuple _ => "tuple"
  | .dict _ => "dict"

section Dumps

variable (floatRepr : Rat → String)

def dumpsKey : Val → Except Err (List Char)
  | .str k => .ok (Json.quote k.toList)
  | .null => .ok (Json.quote "null".toList)
  | .bool b => .ok (Json.quote (if b then "true" else "false").toList)
  | .int n => .ok (Json.quote (toString n).toList)
  | .float q => .ok (Json.quote (floatRepr q).toList)
  | k => .error ⟨.typeError, "keys must be str, int, float, bool or None, not " ++ className k⟩

mutual

def dumps : Val → Except Err (List Char)
  | .null => .ok "null".toList
  | .bool b => .ok (if b then "true" else "false").toList
  | .int n => .ok (toString n).toList
  | .float q => .ok (floatRepr q).toList
  | .str s => .ok (Json.quote s.toList)
  | .list xs =>
    match dumpsList xs with
    | .ok ts => .ok ('[' :: (Json.separator.intercalate ts ++ [']']))
    | .error err => .error err
  | .tuple xs =>
    match dumpsList xs with
    | .ok ts => .ok ('[' :: (Json.separator.intercalate ts ++ [']']))
    | .error err => .error err
  | .dict items =>
    match dumpsItems items with
    | .ok ts => .ok ('{' :: (Json.separator.intercalate ts ++ ['}']))
    | .error err => .error err
  | v => .error ⟨.typeError, "Object of type " ++ className v ++ " is not JSON serializable"⟩

def dumpsList : List Val → Except Err (List (List Char))
  | [] => .ok []
  | x :: xs =>
    match dumps x with
    | .error err => .error err
    | .ok t =>
      match dumpsList xs with
      | .ok ts => .ok (t :: ts)
      | .error err => .error err

def dumpsItems : List (Val × Val) → Except Err (List (List Char))
  | [] => .ok []
  | item :: items =>
    match dumpsItem item with
    | .error err => .error err
    | .ok t =>
      match dumpsItems items with
      | .ok ts => .ok (t :: ts)
      | .error err => .error err

def dumpsItem : Val × Val → Except Err (List Char)
  | (k, v) =>
    match dumpsKey floatRepr k with
    | .error err => .error err
    | .ok k =>
      match dumps v with
      | .ok t => .ok (k ++ (':' :: ' ' :: t))
      | .error err => .error err

end

/-- `json.dumps`. -/
def jsonDumps (v : Val) : Except Err String :=
  match dumps floatRepr v with
  | .ok cs => .ok (String.ofList cs)
  | .error err => .error err

end Dumps

example : jsonDumps (fun _ => "") (.dict [(.str "k", .tuple [.int 1, .str "é"])]) =
    .ok "\x7b\"k\": [1, \"\\u00e9\"]\x7d" := by decide

/-! ### Documents in the two clients -/

section Documents

variable {F : Type}

/-- A text of a document in the tree of the binlog client. -/
inductive DeliveredText (s : String) : Val → Prop
  | str : DeliveredText s (.str s)
  | bytes : DeliveredText s (.bytes (utf8Encode s))

/-- The trees that the client of the binlog delivers for a document. -/
inductive Delivered (toRat : F → Rat) : Json.Doc F → Val → Prop
  | null : Delivered toRat .null .null
  | bool (b) : Delivered toRat (.bool b) (.bool b)
  | int (n) : Delivered toRat (.int n) (.int n)
  | double (x) : Delivered toRat (.double x) (.float (toRat x))
  | string {s v} (h : DeliveredText s v) : Delivered toRat (.string s) v
  | list (xs : List (Json.Doc F × Val)) (h : ∀ x ∈ xs, Delivered toRat x.1 x.2) :
      Delivered toRat (.array (xs.map Prod.fst)) (.list (xs.map Prod.snd))
  | tuple (xs : List (Json.Doc F × Val)) (h : ∀ x ∈ xs, Delivered toRat x.1 x.2) :
      Delivered toRat (.array (xs.map Prod.fst)) (.tuple (xs.map Prod.snd))
  | dict (ms : List ((String × Json.Doc F) × (Val × Val)))
      (hnodup : (ms.map fun m => m.1.1).Nodup) (hkeys : ∀ m ∈ ms, DeliveredText m.1.1 m.2.1)
      (h : ∀ m ∈ ms, Delivered toRat m.1.2 m.2.2) :
      Delivered toRat (.object (ms.map Prod.fst)) (.dict (ms.map Prod.snd))

/-- The functions of the library are those of Python, and `repr` writes the doubles. -/
structure PythonJson (lib : RenderLib) (D : Json.Doubles F) (toRat : F → Rat)
    (floatRepr : Rat → String) : Prop where
  decode : lib.decode = utf8Decode
  jsonDumps : lib.jsonDumps = jsonDumps floatRepr
  floatRepr : ∀ x, (floatRepr (toRat x)).toList = D.write x

variable {lib : RenderLib} {D : Json.Doubles F} {toRat : F → Rat} {floatRepr : Rat → String}

theorem jsonBytesToString_text (hjson : PythonJson lib D toRat floatRepr) {s : String} {v : Val}
    (h : DeliveredText s v) : jsonBytesToString lib v = .ok (.str s) := by
  cases h with
  | str => rfl
  | bytes => rw [jsonBytesToString, hjson.decode, utf8Decode_utf8Encode]

/-- A value is written as the text of the document once its byte strings are decoded. -/
def WritesText (lib : RenderLib) (D : Json.Doubles F) (floatRepr : Rat → String)
    (d : Json.Doc F) (v : Val) : Prop :=
  ∃ w, jsonBytesToString lib v = .ok w ∧ dumps floatRepr w = .ok (d.text D)

theorem writesText_list {xs : List (Json.Doc F × Val)}
    (h : ∀ x ∈ xs, WritesText lib D floatRepr x.1 x.2) :
    ∃ ws, jsonListToString lib (xs.map Prod.snd) = .ok ws ∧
      dumpsList floatRepr ws = .ok (Json.texts D (xs.map Prod.fst)) := by
  induction xs with
  | nil => exact ⟨[], rfl, rfl⟩
  | cons x xs ih =>
    obtain ⟨hx, hxs⟩ := List.forall_mem_cons.mp h
    obtain ⟨w, hdecode, hdumps⟩ := hx
    obtain ⟨ws, hdecodes, hdumpsList⟩ := ih hxs
    refine ⟨w :: ws, ?_, ?_⟩
    · rw [List.map_cons, jsonListToString, hdecode, hdecodes]
    · rw [dumpsList, hdumps, hdumpsList, List.map_cons, Json.texts]

theorem writesText_items (hjson : PythonJson lib D toRat floatRepr)
    {ms : List ((String × Json.Doc F) × (Val × Val))}
    (hkeys : ∀ m ∈ ms, DeliveredText m.1.1 m.2.1)
    (h : ∀ m ∈ ms, WritesText lib D floatRepr m.1.2 m.2.2) :
    ∃ items, jsonItemsToString lib (ms.map Prod.snd) = .ok items ∧
      items.map Prod.fst = ms.map (fun m => Val.str m.1.1) ∧
      dumpsItems floatRepr items = .ok (Json.memberTexts D (ms.map Prod.fst)) := by
  induction ms with
  | nil => exact ⟨[], rfl, rfl, rfl⟩
  | cons m ms ih =>
    obtain ⟨hkey, hrest⟩ := List.forall_mem_cons.mp hkeys
    obtain ⟨hm, hms⟩ := List.forall_mem_cons.mp h
    obtain ⟨⟨k, d⟩, key, v⟩ := m
    obtain ⟨w, hdecode, hdumps⟩ := hm
    obtain ⟨items, hdecodes, hnames, hdumpsItems⟩ := ih hrest hms
    have hkeyText := jsonBytesToString_text hjson hkey
    refine ⟨(.str k, w) :: items, ?_, ?_, ?_⟩
    · rw [List.map_cons, jsonItemsToString, jsonItemToString, hkeyText, hdecode, hdecodes]
    · rw [List.map_cons, List.map_cons, hnames]
    · rw [dumpsItems, dumpsItem, dumpsKey, hdumps, hdumpsItems, List.map_cons, Json.memberTexts,
        Json.memberText]

/-- Every tree of a document is written as the text of the document. -/
theorem Delivered.writesText (hjson : PythonJson lib D toRat floatRepr) {d : Json.Doc F} {v : Val}
    (h : Delivered toRat d v) : WritesText lib D floatRepr d v := by
  induction h with
  | null => exact ⟨.null, rfl, rfl⟩
  | bool b => exact ⟨.bool b, rfl, by cases b <;> rfl⟩
  | int n => exact ⟨.int n, rfl, rfl⟩
  | double x => exact ⟨.float (toRat x), rfl, congrArg Except.ok (hjson.floatRepr x)⟩
  | string h => exact ⟨.str _, jsonBytesToString_text hjson h, rfl⟩
  | list xs h ih =>
    obtain ⟨ws, hdecode, hdumps⟩ := writesText_list ih
    refine ⟨.list ws, by rw [jsonBytesToString, hdecode], by rw [dumps, hdumps, Json.Doc.text]⟩
  | tuple xs h ih =>
    obtain ⟨ws, hdecode, hdumps⟩ := writesText_list ih
    refine ⟨.tuple ws, by rw [jsonBytesToString, hdecode], by rw [dumps, hdumps, Json.Doc.text]⟩
  | dict ms hnodup hkeys h ih =>
    obtain ⟨items, hdecode, hnames, hdumps⟩ := writesText_items hjson hkeys ih
    have hdistinct : (items.map Prod.fst).Nodup := by
      have hmap : items.map Prod.fst = (ms.map fun m => m.1.1).map Val.str := by
        rw [hnames, List.map_map]
        rfl
      rw [hmap]
      exact hnodup.map fun _ _ heq => Val.str.inj heq
    refine ⟨.dict items, ?_, by rw [dumps, hdumps, Json.Doc.text]⟩
    rw [jsonBytesToString, hdecode]
    simp only [Dict.entries_ofList hdistinct]

/-! ### Cells -/

/-- A cell that is NULL or, in a JSON column, holds a document. -/
inductive Cell (F : Type) where
  | null
  | document (d : Json.Doc F)

/-- The value stands for the cell: `None` for NULL, a text that parses to the document. -/
def Cell.ReadAs (D : Json.Doubles F) : Cell F → Val → Prop
  | .null, x => x = .null
  | .document d, x => ∃ text d', x = .str text ∧ Json.parse D text.toList = some d' ∧ d'.Same d

/-- The client of the binlog delivers the value for the cell. -/
def Cell.DeliveredAs (toRat : F → Rat) : Cell F → Val → Prop
  | .null, x => x = .null
  | .document d, x => ∃ d', d'.Same d ∧ Delivered toRat d' x

/-- A JSON column as discovery describes it. -/
structure JsonColumn (p : PropSchema) (dbType : Option ℕ) : Prop where
  type : p.type = some ["null", "object"] ∨ p.type = some ["null", "string"]
  dbType : dbType = some FieldType.json

theorem JsonColumn.of_discovery {lower : String → String} {jsonAsType : String} {column : Column}
    {p : PropSchema} (h : schemaForColumn lower jsonAsType column = .ok p)
    (hdata : lower column.dataType = "json") (hcolumn : lower column.columnType = "json") :
    JsonColumn p (some FieldType.json) := by
  obtain ⟨htype, rfl | rfl⟩ := schemaForColumn_json h hdata hcolumn
  · exact ⟨Or.inl htype, rfl⟩
  · exact ⟨Or.inr htype, rfl⟩

variable {e : CatalogEntry} {c : String} {p : PropSchema} {col : Option DbColumn}

theorem renderElem_null {types : List String} (htype : p.type = some types) :
    renderElem p .null = .ok .null := by
  rw [renderElem, htype]
  simp

theorem renderElem_text (hcolumn : JsonColumn p (col.map DbColumn.type)) (text : String) :
    renderElem p (.str text) = .ok (.str text) := by
  rcases hcolumn.type with htype | htype <;> simp [renderElem, htype]

theorem renderValue_delivered (hjson : PythonJson lib D toRat floatRepr)
    (hcolumn : col.map DbColumn.type = some FieldType.json) {d : Json.Doc F} {v : Val}
    (h : Delivered toRat d v) :
    renderValue lib p col v = .ok (.str (String.ofList (d.text D))) := by
  obtain ⟨w, hdecode, hdumps⟩ := h.writesText hjson
  have hother : renderOther lib p col v = .ok (.str (String.ofList (d.text D))) := by
    unfold renderOther
    rw [if_pos hcolumn, hdecode]
    simp only [hjson.jsonDumps, jsonDumps, hdumps]
  rw [← hother]
  cases h with
  | string h => cases h <;> rfl
  | _ => rfl

variable (lib) in
/-- Outside JSON columns `None` stays `None`. -/
theorem renderValue_null {types : List String} (htype : p.type = some types)
    (hcolumn : col.map DbColumn.type ≠ some FieldType.json) :
    renderValue lib p col .null = .ok .null := by
  have hboolean : isBooleanType p = .ok (types.contains "boolean") := by
    rw [isBooleanType, htype]
  have hvalue : renderValue lib p col .null = renderOther lib p col .null := rfl
  rw [hvalue]
  unfold renderOther
  rw [if_neg hcolumn]
  by_cases hspatial : p.format = some "spatial"
  · rw [if_pos hspatial]
    rfl
  · rw [if_neg hspatial]
    simp only [hboolean]
    cases types.contains "boolean" <;> rfl

/-- Both paths read NULL as `None` and a document as a text of it, except that the binlog path
writes a NULL of a JSON column as the text `null`. -/
theorem null_and_json_read_iff (hjson : PythonJson lib D toRat floatRepr)
    (hp : e.schema.get? c = some p) {types : List String} (htype : p.type = some types)
    {columns : List DbColumn} (cell : Cell F)
    (hcolumn : ∀ d, cell = .document d → JsonColumn p ((dbColumn columns c).map DbColumn.type))
    {x y : Val} (hx : cell.ReadAs D x) (hy : cell.DeliveredAs toRat y) :
    ((∃ z, SnapshotReads e c x z ∧ cell.ReadAs D z) ∧
      ∃ z, BinlogReads lib e columns c y z ∧ cell.ReadAs D z) ↔
    (cell = .null → (dbColumn columns c).map DbColumn.type ≠ some FieldType.json) := by
  cases cell with
  | null =>
    obtain rfl : x = .null := hx
    obtain rfl : y = .null := hy
    constructor
    · intro h htrivial hjsonType
      obtain ⟨-, z, hreads, rfl⟩ := h
      have htext := renderValue_delivered (p := p) hjson hjsonType Delivered.null
      cases (binlogReads_iff hp htext).mp hreads
    · intro h
      have hnull := renderValue_null lib htype (h rfl)
      exact ⟨⟨.null, (snapshotReads_iff hp (renderElem_null htype)).mpr rfl, rfl⟩,
        .null, (binlogReads_iff hp hnull).mpr rfl, rfl⟩
  | document d =>
    have hcolumn := hcolumn d rfl
    obtain ⟨text, d', rfl, hparse, hsame⟩ := hx
    obtain ⟨d'', hsame', hdelivered⟩ := hy
    have htext := renderValue_delivered (p := p) hjson hcolumn.dbType hdelivered
    refine iff_of_true ⟨?_, ?_⟩ (fun h => absurd h (by simp))
    · exact ⟨.str text, (snapshotReads_iff hp (renderElem_text hcolumn text)).mpr rfl,
        text, d', rfl, hparse, hsame⟩
    · refine ⟨_, (binlogReads_iff hp htext).mpr rfl, _, d'', rfl, ?_, hsame'⟩
      rw [String.toList_ofList, Json.parse_text]

end Documents

namespace Sample

/-- The one double of the example below. -/
def half : Json.Doubles Unit where
  write _ := "0.5".toList
  read t := if t = "0.5".toList then some () else none
  isNumber_write _ := by decide
  isInteger_write _ := by decide
  read_write x := by
    cases x
    decide

def halfRepr (_ : Rat) : String := "0.5"

def jsonLib : RenderLib :=
  { Binlog.Sample.lib with decode := utf8Decode, jsonDumps := jsonDumps halfRepr }

theorem pythonJson : PythonJson jsonLib half (fun _ => 1 / 2) halfRepr := ⟨rfl, rfl, fun _ => rfl⟩

/-- Table `db.t` with a JSON column `j`. -/
def jsonEntry : CatalogEntry where
  tapStreamId := "db-t"
  stream := "db-t"
  table := "t"
  metadata := Dict.empty
  schema := Dict.ofList
    [("j", { PropSchema.blank with
      type := some ["null", "object"], inclusion := some .available })]

def jsonColumns : List DbColumn := [⟨some "j", FieldType.json, none⟩]

/-- `{"k": [0.5, null]}`. -/
def document : Json.Doc Unit := .object [("k", .array [.double (), .null])]

def tree : Val := .dict [(.bytes (utf8Encode "k"), .list [.float (1 / 2), .null])]

theorem tree_delivered : Delivered (fun _ => 1 / 2) document tree := by
  refine Delivered.dict [(("k", .array [.double (), .null]),
    (.bytes (utf8Encode "k"), .list [.float (1 / 2), .null]))] (List.nodup_singleton _) ?_ ?_
  · simpa using DeliveredText.bytes
  · have hlist := @Delivered.list Unit (fun _ => 1 / 2)
      [(.double (), .float (1 / 2)), (.null, .null)] (by
        simpa using ⟨Delivered.double (), Delivered.null⟩)
    simpa using hlist

end Sample

open Sample

theorem null_and_json_read_iff_document :
    (∃ z, SnapshotReads jsonEntry "j" (.str "\x7b\"k\": [0.5, null]\x7d") z ∧
        (Cell.document document).ReadAs half z) ∧
      ∃ z, BinlogReads jsonLib jsonEntry jsonColumns "j" tree z ∧
        (Cell.document document).ReadAs half z := by
  have hparse : Json.parse half "\x7b\"k\": [0.5, null]\x7d".toList = some document := by
    have htext : "\x7b\"k\": [0.5, null]\x7d".toList = document.text half := by decide
    rw [htext, Json.parse_text]
  exact (null_and_json_read_iff pythonJson rfl rfl (.document document)
    (fun _ _ => ⟨.inl rfl, rfl⟩) ⟨_, document, rfl, hparse, .refl _⟩
    ⟨document, .refl _, tree_delivered⟩).mpr (fun h => absurd h (by simp))

/-- NULL in a JSON column is `None` in a snapshot and the text `null` from the binlog. -/
theorem null_becomes_text :
    SnapshotReads jsonEntry "j" .null .null ∧
      BinlogReads jsonLib jsonEntry jsonColumns "j" .null (.str "null") ∧
      ¬BinlogReads jsonLib jsonEntry jsonColumns "j" .null .null := by
  refine ⟨(snapshotReads_iff rfl rfl).mpr rfl, (binlogReads_iff rfl rfl).mpr rfl, fun h => ?_⟩
  cases (binlogReads_iff rfl rfl).mp h

end TapMysql
