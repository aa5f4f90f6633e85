import TapMysql.Lib.Dict
import TapMysql.Value

/-!
# Singer state, catalog and messages

The state is the JSON document of the Singer protocol: for each stream a dictionary of
bookmark keys. Catalog entries carry the schema of a stream and its metadata, a map from
breadcrumbs to dictionaries. A BATCH message is modelled with the rows of the file that its
manifest names; paths and compression of the file are left out.
-/

namespace TapMysql

inductive ErrClass
  | exception
  | valueError
  | keyError
  | typeError
  | indexError
  | attributeError
  | decodeError
  | operationalError
  | adbcOperationalError
  deriving DecidableEq, Repr

structure Err where
  cls : ErrClass
  message : String
  deriving DecidableEq, Repr

def Err.keyError (key : String) : Err := ⟨.keyError, key⟩

/-! ### State -/

abbrev Bookmark := Dict String Val

structure State where
  currentlySyncing : Option String
  bookmarks : Dict String Bookmark
  deriving DecidableEq, Inhabited

namespace State

def empty : State := ⟨none, Dict.empty⟩

/-- `state.get('bookmarks', {}).get(tap_stream_id, {})`. -/
def bookmark (st : State) (tapStreamId : String) : Bookmark :=
  (st.bookmarks.get? tapStreamId).getD Dict.empty

def getBookmark (st : State) (tapStreamId key : String) : Val :=
  ((st.bookmark tapStreamId).get? key).getD .null

def writeBookmark (st : State) (tapStreamId key : String) (v : Val) : State :=
  { st with bookmarks := st.bookmarks.set tapStreamId ((st.bookmark tapStreamId).set key v) }

def clearBookmark (st : State) (tapStreamId key : String) : State :=
  { st with bookmarks := st.bookmarks.set tapStreamId ((st.bookmark tapStreamId).erase key) }

def setCurrentlySyncing (st : State) (tapStreamId : Option String) : State :=
  { st with currentlySyncing := tapStreamId }

theorem bookmark_writeBookmark (st : State) (s t k : String) (v : Val) :
    (st.writeBookmark s k v).bookmark t =
      if s = t then (st.bookmark s).set k v else st.bookmark t := by
  simp only [writeBookmark, bookmark, Dict.get?_set]
  split_ifs <;> rfl

theorem bookmark_clearBookmark (st : State) (s t k : String) :
    (st.clearBookmark s k).bookmark t =
      if s = t then (st.bookmark s).erase k else st.bookmark t := by
  simp only [clearBookmark, bookmark, Dict.get?_set]
  split_ifs <;> rfl

theorem getBookmark_writeBookmark (st : State) (s t k j : String) (v : Val) :
    (st.writeBookmark s k v).getBookmark t j =
      if s = t ∧ k = j then v else st.getBookmark t j := by
  rw [getBookmark, bookmark_writeBookmark]
  by_cases hs : s = t
  · subst hs
    by_cases hk : k = j <;> simp [getBookmark, Dict.get?_set, hk]
  · simp [getBookmark, hs]

theorem getBookmark_clearBookmark (st : State) (s t k j : String) :
    (st.clearBookmark s k).getBookmark t j =
      if s = t ∧ k = j then .null else st.getBookmark t j := by
  rw [getBookmark, bookmark_clearBookmark]
  by_cases hs : s = t
  · subst hs
    by_cases hk : k = j
    · simp [hk]
    · have hne : j ≠ k := fun h => hk h.symm
      simp [getBookmark, Dict.get?_erase, hk, hne]
  · simp [getBookmark, hs]

theorem writeBookmark_writeBookmark (st : State) (s k : String) (v w : Val) :
    (st.writeBookmark s k v).writeBookmark s k w = st.writeBookmark s k w := by
  have hb : (st.writeBookmark s k v).bookmark s = (st.bookmark s).set k v := by
    simp [bookmark_writeBookmark]
  rw [writeBookmark, hb, Dict.set_set]
  simp [writeBookmark, Dict.set_set]

theorem writeBookmark_eq_self {st : State} {s k : String} {v : Val} {b : Bookmark}
    (hb : st.bookmarks.get? s = some b) (hv : b.get? k = some v) :
    st.writeBookmark s k v = st := by
  have hs : st.bookmark s = b := by simp [bookmark, hb]
  rw [writeBookmark, hs, Dict.set_eq_self hv, Dict.set_eq_self hb]

/-- Writing two keys again replaces the second and leaves the first where it stands. -/
theorem writeBookmark_pair (st : State) {s k j : String} (v w x : Val) (hkj : k ≠ j) :
    (((st.writeBookmark s k v).writeBookmark s j w).writeBookmark s k v).writeBookmark s j x =
      (st.writeBookmark s k v).writeBookmark s j x := by
  have hb : ((st.writeBookmark s k v).writeBookmark s j w).bookmarks.get? s =
      some (((st.writeBookmark s k v).bookmark s).set j w) := by
    simp [writeBookmark]
  have hv : (((st.writeBookmark s k v).bookmark s).set j w).get? k = some v := by
    simp [bookmark_writeBookmark, Dict.get?_set, hkj.symm]
  rw [writeBookmark_eq_self hb hv, writeBookmark_writeBookmark]

@[simp] theorem getBookmark_writeBookmark_self (st : State) (s k : String) (v : Val) :
    (st.writeBookmark s k v).getBookmark s k = v := by
  simp [getBookmark_writeBookmark]

@[simp] theorem getBookmark_clearBookmark_self (st : State) (s k : String) :
    (st.clearBookmark s k).getBookmark s k = .null := by
  simp [getBookmark_clearBookmark]

@[simp] theorem getBookmark_setCurrentlySyncing (st : State) (c : Option String) (s k : String) :
    (st.setCurrentlySyncing c).getBookmark s k = st.getBookmark s k := rfl

theorem getBookmark_congr {st st' : State} {s : String}
    (h : st'.bookmarks.get? s = st.bookmarks.get? s) (k : String) :
    st'.getBookmark s k = st.getBookmark s k := by
  rw [getBookmark, getBookmark, bookmark, bookmark, h]

theorem getBookmark_of_none {st : State} {s : String} (h : st.bookmarks.get? s = none)
    (k : String) : st.getBookmark s k = .null := by
  rw [getBookmark, bookmark, h]
  rfl

end State

/-! ### Catalog -/

inductive Inclusion
  | automatic
  | available
  | unsupported
  deriving DecidableEq, Repr

/-- The schema of one property; a field that is not set is `none`. -/
structure PropSchema where
  type : Option (List String)
  format : Option String
  inclusion : Option Inclusion
  minimum : Option Int
  maximum : Option Int
  multipleOf : Option Rat
  maxLength : Option Nat
  description : Option String
  deriving DecidableEq

def PropSchema.blank : PropSchema := ⟨none, none, none, none, none, none, none, none⟩

/-- `schema.properties` of a catalog entry. -/
abbrev Schema := Dict String PropSchema

/-- Metadata as `metadata.to_map` returns it. -/
abbrev MdMap := Dict (List String) (Dict String Val)

/-- `metadata.get(md_map, breadcrumb, key)`. -/
def MdMap.field (md : MdMap) (breadcrumb : List String) (key : String) : Val :=
  (((md.get? breadcrumb).getD Dict.empty).get? key).getD .null

structure CatalogEntry where
  tapStreamId : String
  stream : String
  table : String
  metadata : MdMap
  schema : Schema
  deriving DecidableEq

inductive ReplicationMethod
  | fullTable
  | incremental
  | logBased
  | other
  deriving DecidableEq, Repr

namespace CatalogEntry

/-- `md_map.get((), {}).get(key)`. -/
def streamMetadata (e : CatalogEntry) (key : String) : Val := e.metadata.field [] key

def replicationMethod (e : CatalogEntry) : ReplicationMethod :=
  if e.streamMetadata "replication-method" = .str "FULL_TABLE" then .fullTable
  else if e.streamMetadata "replication-method" = .str "INCREMENTAL" then .incremental
  else if e.streamMetadata "replication-method" = .str "LOG_BASED" then .logBased
  else .other

def getIsView (e : CatalogEntry) : Bool := (e.streamMetadata "is-view").truthy

def getDatabaseName (e : CatalogEntry) : Val := e.streamMetadata "database-name"

/-- The names in a metadata value that holds a list of names. -/
def namesOf : Val → List String
  | .list xs => xs.filterMap fun v => match v with | .str s => some s | _ => none
  | _ => []

def getKeyProperties (e : CatalogEntry) : List String :=
  namesOf (e.streamMetadata (if e.getIsView then "view-key-properties" else "table-key-properties"))

/-- `common.stream_is_selected`. -/
def streamIsSelected (e : CatalogEntry) : Bool := (e.streamMetadata "selected").truthy

/-- `common.property_is_selected`: a property is synced when its metadata says `automatic` and not
when it says `unsupported`, otherwise as `selected` says, and by default when it says nothing. -/
def propertyIsSelected (e : CatalogEntry) (name : String) : Bool :=
  if e.metadata.field ["properties", name] "inclusion" = .str "automatic" then true
  else if e.metadata.field ["properties", name] "inclusion" = .str "unsupported" then false
  else if e.metadata.field ["properties", name] "selected" = .null then true
  else (e.metadata.field ["properties", name] "selected").truthy

end CatalogEntry

/-! ### Messages -/

abbrev Record := Dict String Val

inductive BatchFormat
  | jsonl
  | arrow
  deriving DecidableEq, Repr

inductive Message where
  | schema (stream : String) (properties : Schema) (keyProperties : List String)
      (bookmarkProperties : List Val)
  | record (stream : String) (record : Record) (version : Val) (timeExtracted : String)
  | activateVersion (stream : String) (version : Val)
  | state (value : State)
  | batch (stream : String) (format : BatchFormat) (rows : List Record)
  deriving DecidableEq

/-- `stream_utils.write_schema_message`. -/
def schemaMessage (e : CatalogEntry) (bookmarkProperties : List Val) : Message :=
  .schema e.stream e.schema e.getKeyProperties bookmarkProperties

/-! ### Stream ids and versions -/

def generateTapStreamId (tableSchema tableName : String) : String :=
  tableSchema ++ "-" ++ tableName

/-- `common.get_stream_version`, at a moment when the clock shows `now` milliseconds. -/
def getStreamVersion (tapStreamId : String) (st : State) (now : Int) : Val :=
  match st.getBookmark tapStreamId "version" with
  | .null => .int now
  | v => v

/-- `common.whitelist_bookmark_keys`: clear every bookmark key of the stream that is not in
the set, in place. -/
def whitelistBookmarkKeys (keys : List String) (tapStreamId : String) (st : State) : State :=
  ((st.bookmark tapStreamId).keys.filter fun k => !keys.contains k).foldl
    (fun st k => st.clearBookmark tapStreamId k) st

theorem getBookmark_foldl_clear (st : State) (s t j : String) (ks : List String) :
    (ks.foldl (fun st k => st.clearBookmark s k) st).getBookmark t j =
      if s = t ∧ j ∈ ks then .null else st.getBookmark t j := by
  induction ks generalizing st with
  | nil => simp
  | cons k ks ih =>
    rw [List.foldl_cons, ih, State.getBookmark_clearBookmark]
    by_cases hs : s = t
    · by_cases hk : k = j
      · simp [hs, hk]
      · have hne : j ≠ k := fun h => hk h.symm
        simp [hs, hk, hne]
    · simp [hs]

theorem getBookmark_whitelistBookmarkKeys (keys : List String) (s t j : String) (st : State) :
    (whitelistBookmarkKeys keys s st).getBookmark t j =
      if s = t ∧ j ∉ keys then .null else st.getBookmark t j := by
  rw [whitelistBookmarkKeys, getBookmark_foldl_clear]
  by_cases hs : s = t
  · subst hs
    by_cases hj : j ∈ keys
    · simp [hj]
    · by_cases hm : j ∈ (st.bookmark s).keys
      · simp [hj, hm]
      · have hnone : st.getBookmark s j = .null := by
          rw [State.getBookmark, Dict.get?_eq_none.mpr hm]
          rfl
        simp [hj, hnone]
  · simp [hs]

end TapMysql
