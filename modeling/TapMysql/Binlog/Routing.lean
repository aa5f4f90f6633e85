import TapMysql.Binlog.Entries
import TapMysql.DiscoverCatalog

/-!
# Stream ids of tables

A stream id joins the schema and the name of a table with a hyphen, which either of them may
contain. Discovery, the bookmarks and the dispatch of the row events know a table by this id only.
-/

namespace TapMysql

/-- A schema and the name of a table in it. -/
abbrev TableName := String × String

def TableName.tapStreamId (t : TableName) : String := generateTapStreamId t.1 t.2

/-! ### Ids -/

theorem toList_generateTapStreamId (a b : String) :
    (generateTapStreamId a b).toList = a.toList ++ '-' :: b.toList := by
  rw [generateTapStreamId, String.toList_append, String.toList_append, List.append_assoc]
  rfl

theorem split_of_shorter {a b c d u : List Char} (hc : c = a ++ u) (hb : '-' :: b = u ++ '-' :: d) :
    (a = c ∧ b = d) ∨ ∃ y, c = a ++ '-' :: y ∧ b = y ++ '-' :: d := by
  cases u with
  | nil =>
    left
    rw [List.append_nil] at hc
    exact ⟨hc.symm, (List.cons.inj hb).2⟩
  | cons x y =>
    right
    obtain ⟨rfl, hy⟩ := List.cons.inj hb
    exact ⟨y, hc, hy⟩

/-- Two tables have one id exactly when they are the same, or a part of the name of one stands,
with its hyphen, at the end of the schema of the other. -/
theorem generateTapStreamId_eq_iff (a b c d : String) :
    generateTapStreamId a b = generateTapStreamId c d ↔ (a = c ∧ b = d) ∨
      (∃ y, c = a ++ "-" ++ y ∧ b = y ++ "-" ++ d) ∨
      ∃ y, a = c ++ "-" ++ y ∧ d = y ++ "-" ++ b := by
  have hjoin : ∀ s y t : String, s = y ++ "-" ++ t ↔ s.toList = y.toList ++ '-' :: t.toList := by
    intro s y t
    rw [← String.toList_inj, String.toList_append, String.toList_append, List.append_assoc]
    rfl
  have hex : ∀ s t u w : String, (∃ y, s = t ++ "-" ++ y ∧ u = y ++ "-" ++ w) ↔
      ∃ y, s.toList = t.toList ++ '-' :: y ∧ u.toList = y ++ '-' :: w.toList := by
    intro s t u w
    constructor
    · intro h
      obtain ⟨y, hs, hu⟩ := h
      exact ⟨y.toList, (hjoin _ _ _).mp hs, (hjoin _ _ _).mp hu⟩
    · intro h
      obtain ⟨y, hs, hu⟩ := h
      exact ⟨String.ofList y, (hjoin _ _ _).mpr (by rw [hs, String.toList_ofList]),
        (hjoin _ _ _).mpr (by rw [hu, String.toList_ofList])⟩
  have ha : a = c ↔ a.toList = c.toList := String.toList_inj.symm
  have hb : b = d ↔ b.toList = d.toList := String.toList_inj.symm
  rw [← String.toList_inj, toList_generateTapStreamId, toList_generateTapStreamId, hex, hex, ha, hb]
  constructor
  · intro h
    rcases List.append_eq_append_iff.mp h with ⟨u, hc, hb⟩ | ⟨u, ha, hd⟩
    · rcases split_of_shorter hc hb with heq | hsplit
      · exact .inl heq
      · exact .inr (.inl hsplit)
    · rcases split_of_shorter ha hd with ⟨hca, hdb⟩ | hsplit
      · exact .inl ⟨hca.symm, hdb.symm⟩
      · exact .inr (.inr hsplit)
  · rintro (⟨ha, hb⟩ | ⟨y, hc, hb⟩ | ⟨y, ha, hd⟩)
    · rw [ha, hb]
    · simp [hc, hb]
    · simp [ha, hd]

/-- No schema in play ends with a hyphen and a part of the name of a table whose schema is the rest
of it, such that both tables have one id. -/
def NoCollision (T : Set TableName) : Prop :=
  ∀ x y z, (x, y ++ "-" ++ z) ∈ T → (x ++ "-" ++ y, z) ∉ T

/-- Two tables of `T` with one id are the same. -/
def IdsSeparate (T : Set TableName) : Prop :=
  ∀ s ∈ T, ∀ t ∈ T, s.tapStreamId = t.tapStreamId → s = t

theorem append_hyphen_ne (x y : String) : x ≠ x ++ "-" ++ y := by
  intro h
  have hlength := congrArg String.length h
  have hhyphen : "-".length = 1 := by decide
  rw [String.length_append, String.length_append, hhyphen] at hlength
  omega

theorem idsSeparate_iff (T : Set TableName) : IdsSeparate T ↔ NoCollision T := by
  constructor
  · intro h x y z hx hxy
    have hid : TableName.tapStreamId (x, y ++ "-" ++ z) =
        TableName.tapStreamId (x ++ "-" ++ y, z) :=
      (generateTapStreamId_eq_iff _ _ _ _).mpr (.inr (.inl ⟨y, rfl, rfl⟩))
    exact append_hyphen_ne x y (congrArg Prod.fst (h _ hx _ hxy hid))
  · rintro h ⟨a, b⟩ hs ⟨c, d⟩ ht hid
    rcases (generateTapStreamId_eq_iff a b c d).mp hid with ⟨rfl, rfl⟩ | ⟨y, rfl, rfl⟩ |
      ⟨y, rfl, rfl⟩
    · rfl
    · exact absurd ht (h a y d hs)
    · exact absurd hs (h c y b ht)

/-! ### Dispatch -/

namespace Binlog

open Loop (Reaches)

/-- The streams are those of tables in `T`, each under the id of the table it was discovered from,
as `resolve_catalog` leaves them. -/
def StreamsOf (T : Set TableName) (origin : String → TableName) (streams : List CatalogEntry) :
    Prop :=
  ∀ e ∈ streams, e.stream = e.tapStreamId ∧ origin e.tapStreamId ∈ T ∧
    (origin e.tapStreamId).tapStreamId = e.tapStreamId

/-- Every RECORD is written for a row event of the table that its stream was discovered from. -/
def Routed (origin : String → TableName) (env : Env) (v₀ : Vars) (ds : List Delivery) : Prop :=
  ∀ a d b out v, ds = a ++ d :: b → Reaches (iteration env) v₀ a out v →
    ∀ s record version time,
      .message (.record s record version time) ∈ (iteration env v d).emitted →
      ∃ ev, d.event = .rows ev ∧ (ev.schema, ev.table) = origin s

def EventsOf (T : Set TableName) (ds : List Delivery) : Prop :=
  ∀ d ∈ ds, ∀ ev, d.event = .rows ev → (ev.schema, ev.table) ∈ T

theorem generateStreamsMap_stream {T : Set TableName} {origin : String → TableName}
    {streams : List CatalogEntry} (h : StreamsOf T origin streams) :
    EntriesSatisfy (fun s entry => entry.catalogEntry.stream = s ∧ origin s ∈ T ∧
      (origin s).tapStreamId = s) (generateStreamsMap streams) := by
  intro s entry hs
  obtain ⟨e, he, rfl, rfl⟩ := generateStreamsMap_get? hs
  exact h e he

theorem routed_of_idsSeparate {T : Set TableName} (hT : IdsSeparate T)
    {origin : String → TableName} {streams : List CatalogEntry}
    (hstreams : StreamsOf T origin streams) {env : Env} {st : State} {auto : Option String}
    {ds : List Delivery} (hds : EventsOf T ds) :
    Routed origin env (initialVars (generateStreamsMap streams) st auto) ds := by
  intro a d b out v hsplit hr s record version time hmem
  have hentries := reaches_entries (generateStreamsMap_stream hstreams)
    (fun a' d' b' out' v' em' v'' s' entry new _ hr' _ hreplaces => ?_) hr ⟨d :: b, hsplit.symm⟩
  · obtain ⟨ev, entry, p, hend, hd, hs, hnamed, hp, rfl, -⟩ := record_emitted hmem
    obtain ⟨hstream, horigin, hid⟩ := hentries _ _ hs
    have hplaced : p.entry.catalogEntry.stream = ev.tapStreamId := by
      rcases placed_entry hend hd hs hnamed hp with ⟨hentry, -⟩ | ⟨new, hreplaces, hentry, -⟩
      · rw [hentry]
        exact hstream
      · obtain ⟨⟨-, ev', entry', -, -, -, -, -, -, hre⟩, -⟩ := hreplaces
        rw [hentry]
        exact rediscover_stream hre
    refine ⟨ev, hd, ?_⟩
    rw [hplaced]
    exact hT _ (hds d (by rw [hsplit]; simp) ev hd) _ horigin hid.symm
  · have hold := reaches_progress hr'
    obtain ⟨⟨-, ev', entry', -, rfl, -, -, -, -, hre⟩, hget, -⟩ := hreplaces
    refine ⟨rediscover_stream hre, ?_⟩
    have hkey : ev'.tapStreamId ∈ (generateStreamsMap streams).keys :=
      hold.keys ▸ Dict.mem_keys_iff.mpr ⟨entry, hget⟩
    obtain ⟨first, hfirst⟩ := Dict.mem_keys_iff.mp hkey
    exact (generateStreamsMap_stream hstreams _ _ hfirst).2

/-! ### The three uses of an id -/

/-- The tables of `T` are kept apart: their ids differ, discovery gives no two of them one id, a
bookmark of one is none of another, and every run routes their events to their own streams. -/
structure Separated (T : Set TableName) : Prop where
  ids : IdsSeparate T
  discovery : ∀ lower jsonAsType tables columns entries, (∀ c ∈ columns, Column.table c ∈ T) →
    discoverAnswers lower jsonAsType tables columns = .ok entries →
    ∀ e ∈ entries, ∀ f ∈ entries, e.tapStreamId = f.tapStreamId →
      e.getDatabaseName = f.getDatabaseName ∧ e.table = f.table
  bookmarks : ∀ s ∈ T, ∀ t ∈ T, s ≠ t → ∀ (st : State) k v j,
    (st.writeBookmark s.tapStreamId k v).getBookmark t.tapStreamId j =
      st.getBookmark t.tapStreamId j
  dispatch : ∀ origin streams env st auto ds, StreamsOf T origin streams → EventsOf T ds →
    Routed origin env (initialVars (generateStreamsMap streams) st auto) ds

theorem discovery_of_idsSeparate {T : Set TableName} (hT : IdsSeparate T)
    {lower : String → String} {jsonAsType : String} {tables : List TableInfo}
    {columns : List Column} {entries : List CatalogEntry} (hcolumns : ∀ c ∈ columns, c.table ∈ T)
    (h : discoverAnswers lower jsonAsType tables columns = .ok entries) {e f : CatalogEntry}
    (he : e ∈ entries) (hf : f ∈ entries) (hid : e.tapStreamId = f.tapStreamId) :
    e.getDatabaseName = f.getDatabaseName ∧ e.table = f.table := by
  obtain ⟨c, hc, hce⟩ := discoverGroups_mem (fun g hg => hg) h he
  obtain ⟨c', hc', hcf⟩ := discoverGroups_mem (fun g hg => hg) h hf
  have heq : c.table = c'.table := by
    refine hT _ (hcolumns c hc) _ (hcolumns c' hc') ?_
    rw [hce.tapStreamId, hcf.tapStreamId] at hid
    exact hid
  rw [hce.databaseName, hcf.databaseName, hce.table, hcf.table, heq]
  exact ⟨rfl, rfl⟩

/-- The ids keep the tables of a server apart, in discovery, in the bookmarks and in the dispatch of
every run, exactly when no two tables collide. -/
theorem separated_iff (T : Set TableName) : Separated T ↔ NoCollision T := by
  rw [← idsSeparate_iff]
  constructor
  · exact Separated.ids
  · intro hT
    refine ⟨hT, ?_, ?_, ?_⟩
    · intro lower jsonAsType tables columns entries hcolumns h e he f hf hid
      exact discovery_of_idsSeparate hT hcolumns h he hf hid
    · intro s hs t ht hne st k v j
      have hid : s.tapStreamId ≠ t.tapStreamId := fun h => hne (hT s hs t ht h)
      rw [State.getBookmark_writeBookmark, if_neg fun h => hid h.1]
    · intro origin streams env st auto ds hstreams hds
      exact routed_of_idsSeparate hT hstreams hds

namespace Sample

/-- The table `b-c` of the schema `a`. -/
def hyphenEntry : CatalogEntry :=
  { entry with tapStreamId := "a-b-c", stream := "a-b-c", table := "b-c" }

/-- An insert into the table `c` of the schema `a-b`. -/
def hyphenInsert : RowsEvent := { insert "c" 1 with schema := "a-b" }

def hyphenDelivery : Delivery := ⟨.rows hyphenInsert, "bin.1", 120, "now", 0⟩

end Sample

/-- A row of `a-b.c` is written on the stream of `a.b-c`. -/
theorem hyphens_collide :
    StreamsOf {("a", "b-c"), ("a-b", "c")} (fun _ => ("a", "b-c")) [Sample.hyphenEntry] ∧
      EventsOf {("a", "b-c"), ("a-b", "c")} [Sample.hyphenDelivery] ∧
      ¬ Routed (fun _ => ("a", "b-c")) (Sample.env "bin.1" 500)
        (initialVars (generateStreamsMap [Sample.hyphenEntry]) State.empty none)
        [Sample.hyphenDelivery] := by
  refine ⟨?_, ?_, fun h => ?_⟩
  · intro e he
    rw [List.mem_singleton.mp he]
    exact ⟨rfl, .inl rfl, rfl⟩
  · intro d hd ev hev
    rw [List.mem_singleton.mp hd] at hev
    cases hev
    exact .inr rfl
  · obtain ⟨ev, hev, heq⟩ := h [] Sample.hyphenDelivery [] [] _ rfl .start "a-b-c"
      (Dict.ofList [("id", .int 1)]) (.int 0) "now" (by decide)
    cases hev
    exact absurd heq (by decide)

end Binlog

end TapMysql
