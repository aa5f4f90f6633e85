import TapMysql.Select.Pass

/-!
# What `sync_query` publishes

The loops of the source satisfy the laws of the query loop: rows are rendered one by one, and
the bookmark of a row replaces that of an earlier row. None of the exceptions that the tap
itself raises is one that the callers retry.
-/

namespace TapMysql

/-! ### The two loops of the source -/

section Source

variable {e : CatalogEntry} {columns : List String} {version : Val} {time : String}
  {config : Option BatchConfig} {f : Fetch} {st : State}

/-- The record that a row of a result becomes. -/
def rowRecord (e : CatalogEntry) (columns : List String) (config : Option BatchConfig)
    (names : List String) (row : Row) : Except Err Record :=
  if isArrow config then .ok (castBooleanColumns e names row) else rowToSingerRecord e row columns

/-- The units in which a writer receives the rows of a result. -/
def fetchUnits {ρ : Type*} (config : Option BatchConfig) (chunks : List (List ρ)) :
    List (List ρ) :=
  if isArrow config then chunks else chunks.flatten.map fun row => [row]

def renderUnit (e : CatalogEntry) (columns : List String) (config : Option BatchConfig)
    (names : List String) (unit : List Row) : Except Err (List Record) :=
  if isArrow config then .ok (unit.map (castBooleanColumns e names)) else renderRows e columns unit

def bookmarkUpdate (e : CatalogEntry) (config : Option BatchConfig) (replicationKey : Val) :
    State → Record → State × Option Err :=
  advance e replicationKey (if isArrow config then lastPkFetchedArrow else lastPkFetched)

theorem syncQuery_eq : syncQuery e st columns version time config f =
    Loop.run
      (queryStep e version time (renderUnit e columns config f.names)
        (bookmarkUpdate e config (st.getBookmark e.tapStreamId "replication_key")))
      (queryEnd f.error) (fetchUnits config f.chunks)
      ⟨st, config.map (.new e.stream), 0, false⟩ := by
  unfold syncQuery renderUnit bookmarkUpdate fetchUnits isArrow
  cases config with
  | none => simp [Fetch.rows]
  | some c =>
    by_cases hc : c.format = .arrow
    · simp [Option.filter, hc, syncQueryArrow]
    · simp [Option.filter, hc, Fetch.rows]

theorem renderRows_map {rows : List Row} {records : List Record}
    (h : renderRows e columns rows = .ok records) :
    records.map Except.ok = rows.map fun row => rowToSingerRecord e row columns := by
  induction rows generalizing records with
  | nil =>
    cases h
    rfl
  | cons row rows ih =>
    rw [renderRows] at h
    cases hr : rowToSingerRecord e row columns with
    | error err => simp [hr] at h
    | ok r =>
      cases hrs : renderRows e columns rows with
      | error err => simp [hr, hrs] at h
      | ok rs =>
        simp only [hr, hrs, Except.ok.injEq] at h
        subst h
        simp [hr, ih hrs]

theorem rendersRows_unit (names : List String) :
    RendersRows (renderUnit e columns config names) (rowRecord e columns config names) := by
  intro unit records h
  rw [renderUnit] at h
  unfold rowRecord
  cases ha : isArrow config with
  | true =>
    simp only [ha, if_true, Except.ok.injEq] at h
    subst h
    simp
  | false =>
    simp only [ha, Bool.false_eq_true, if_false] at h
    simpa using renderRows_map h

theorem advancePk_overwrites {pkFetched : List String → Record → Except Err (Option Val)}
    (hpk : ∀ keys r r' v, pkFetched keys r = .ok (some v) → pkFetched keys r' ≠ .ok none) :
    Overwrites (advancePk e pkFetched) := by
  intro st r st' r' st'' h h'
  unfold advancePk at h h' ⊢
  cases hmax : (st.getBookmark e.tapStreamId "max_pk_values").truthy with
  | false =>
    simp only [hmax, Bool.false_eq_true, if_false, Prod.mk.injEq, and_true] at h
    subst h
    simpa [hmax] using h'
  | true =>
    simp only [hmax, if_true] at h ⊢
    cases hr : pkFetched e.getKeyProperties r with
    | error err => simp [hr] at h
    | ok fetched =>
      cases fetched with
      | none =>
        simp only [hr, Prod.mk.injEq, and_true] at h
        subst h
        simpa [hmax] using h'
      | some v =>
        simp only [hr, Prod.mk.injEq, and_true] at h
        subst h
        have hkeep : ((st.writeBookmark e.tapStreamId "last_pk_fetched" v).getBookmark
            e.tapStreamId "max_pk_values").truthy = true := by
          simpa [State.getBookmark_writeBookmark] using hmax
        simp only [hkeep, if_true] at h'
        cases hr' : pkFetched e.getKeyProperties r' with
        | error err => simp [hr'] at h'
        | ok fetched' =>
          cases fetched' with
          | none => exact absurd hr' (hpk _ _ _ v hr)
          | some v' =>
            simp only [hr', State.writeBookmark_writeBookmark] at h' ⊢
            exact h'

theorem advanceReplicationKey_overwrites (key : String) :
    Overwrites (advanceReplicationKey e key) := by
  intro st r st' r' st'' h h'
  unfold advanceReplicationKey at h h' ⊢
  cases hv : recordField r key with
  | error err => simp [hv] at h
  | ok v =>
    cases hv' : recordField r' key with
    | error err => simp [hv'] at h'
    | ok v' =>
      simp only [hv, hv', Prod.mk.injEq, and_true] at h h' ⊢
      subst h
      rw [← h', State.writeBookmark_pair _ _ _ _ (by decide)]

theorem bookmarkUpdate_overwrites (replicationKey : Val) :
    Overwrites (bookmarkUpdate e config replicationKey) := by
  have hpk : ∀ keys r r' v,
      (if isArrow config then lastPkFetchedArrow else lastPkFetched) keys r = .ok (some v) →
      (if isArrow config then lastPkFetchedArrow else lastPkFetched) keys r' ≠ .ok none := by
    intro keys r r' v h
    split_ifs at h ⊢
    · unfold lastPkFetchedArrow at h ⊢
      cases hk : keys.isEmpty with
      | true => simp [hk] at h
      | false => cases hr' : pkItems r' keys <;> simp
    · simp [lastPkFetched]
  intro st r st' r' st'' h h'
  unfold bookmarkUpdate advance at h h' ⊢
  cases hm : e.replicationMethod with
  | fullTable =>
    rw [hm] at h h'
    exact advancePk_overwrites hpk st r st' r' st'' h h'
  | logBased =>
    rw [hm] at h h'
    exact advancePk_overwrites hpk st r st' r' st'' h h'
  | other =>
    simp only [hm, Prod.mk.injEq, and_true] at h h' ⊢
    rw [h, h']
  | incremental =>
    rw [hm] at h h'
    cases replicationKey with
    | null =>
      simp only [Prod.mk.injEq, and_true] at h h' ⊢
      rw [h, h']
    | str key => exact advanceReplicationKey_overwrites key st r st' r' st'' h h'
    | _ => simp at h

/-! ### Exceptions of the tap itself are not retried -/

/-- The exceptions that a lost connection raises, in either client. -/
def Err.isOperational (err : Err) : Bool :=
  decide (err.cls = .operationalError) || decide (err.cls = .adbcOperationalError)

theorem recordField_error {r : Record} {name : String} {err : Err}
    (h : recordField r name = .error err) : err = .keyError name := by
  rw [recordField] at h
  cases hg : r.get? name <;> simp_all

theorem pkItems_error {r : Record} {keys : List String} {err : Err}
    (h : pkItems r keys = .error err) : err.cls = .keyError := by
  induction keys with
  | nil => simp [pkItems] at h
  | cons pk rest ih =>
    rw [pkItems] at h
    cases hv : recordField r pk with
    | error err' =>
      simp only [hv, Except.error.injEq] at h
      rw [← h, recordField_error hv]
      rfl
    | ok v =>
      cases hrest : pkItems r rest with
      | error err' => exact ih (by simpa [hv, hrest] using h)
      | ok items => simp [hv, hrest] at h

theorem renderItems_error {schema : Schema} {cs : List String} {row : Row} {err : Err}
    (h : renderItems schema cs row = .error err) : err.isOperational = false := by
  induction row generalizing cs with
  | nil => cases cs <;> simp [renderItems] at h
  | cons v vs ih =>
    cases cs with
    | nil =>
      simp only [renderItems, Except.error.injEq] at h
      rw [← h]
      rfl
    | cons c cs =>
      rw [renderItems] at h
      cases hp : schema.get? c with
      | none =>
        simp only [hp, Except.error.injEq] at h
        rw [← h]
        rfl
      | some p =>
        cases hx : renderElem p v with
        | error err' =>
          simp only [hp, hx, Except.error.injEq] at h
          rw [← h]
          -- the only exception of a value is that of a column without a type
          have hcls : err' = ⟨.typeError, "argument of type 'NoneType' is not iterable"⟩ := by
            unfold renderElem at hx
            split at hx
            · cases hx
            · split_ifs at hx
            · split at hx
              · exact (Except.error.inj hx).symm
              · split_ifs at hx
          rw [hcls]
          rfl
        | ok x =>
          cases hrest : renderItems schema cs vs with
          | error err' =>
            simp only [hp, hx, hrest, Except.error.injEq] at h
            subst h
            exact ih hrest
          | ok items => simp [hp, hx, hrest] at h

theorem renderUnit_error {names : List String} {unit : List Row} {err : Err}
    (h : renderUnit e columns config names unit = .error err) : err.isOperational = false := by
  rw [renderUnit] at h
  split_ifs at h
  induction unit with
  | nil => simp [renderRows] at h
  | cons row rows ih =>
    unfold renderRows rowToSingerRecord at h
    cases hr : renderItems e.schema columns row with
    | error err' =>
      simp only [hr, Except.error.injEq] at h
      rw [← h]
      exact renderItems_error hr
    | ok items =>
      cases hrs : renderRows e columns rows with
      | error err' => exact ih (by simpa [hr, hrs] using h)
      | ok rs => simp [hr, hrs] at h

theorem advancePk_error {pkFetched : List String → Record → Except Err (Option Val)}
    (hpk : ∀ keys r err, pkFetched keys r = .error err → err.isOperational = false)
    {st : State} {r : Record} {err : Err} (h : (advancePk e pkFetched st r).2 = some err) :
    err.isOperational = false := by
  rw [advancePk] at h
  split_ifs at h
  cases hr : pkFetched e.getKeyProperties r with
  | error err' =>
    simp only [hr, Option.some.injEq] at h
    exact h ▸ hpk _ _ _ hr
  | ok fetched => cases fetched <;> simp [hr] at h

theorem bookmarkUpdate_error {replicationKey : Val} {r : Record} {err : Err}
    (h : (bookmarkUpdate e config replicationKey st r).2 = some err) :
    err.isOperational = false := by
  have hpk : ∀ keys r err,
      (if isArrow config then lastPkFetchedArrow else lastPkFetched) keys r = .error err →
      err.isOperational = false := by
    intro keys r err h
    split_ifs at h
    · rw [lastPkFetchedArrow] at h
      split_ifs at h
      cases hi : pkItems r keys with
      | error err' =>
        simp only [hi, Except.error.injEq] at h
        simp [← h, Err.isOperational, pkItems_error hi]
      | ok items => simp [hi] at h
    · simp [lastPkFetched] at h
  unfold bookmarkUpdate advance at h
  cases hm : e.replicationMethod with
  | fullTable =>
    rw [hm] at h
    exact advancePk_error hpk h
  | logBased =>
    rw [hm] at h
    exact advancePk_error hpk h
  | other => simp [hm] at h
  | incremental =>
    rw [hm] at h
    cases replicationKey with
    | null => simp at h
    | str key =>
      simp only [advanceReplicationKey] at h
      cases hv : recordField r key with
      | error err' =>
        simp only [hv, Option.some.injEq] at h
        rw [← h, recordField_error hv]
        rfl
      | ok v => simp [hv] at h
    | _ =>
      simp only [Option.some.injEq] at h
      rw [← h]
      rfl

/-! ### What `sync_query` publishes -/

/-- The rows of a fetch that leave the writer while rows still arrive. -/
def announcedRows {ρ : Type*} (config : Option BatchConfig) (chunks : List (List ρ)) : List ρ :=
  (Buffer.run (groupSize config) (fetchUnits config chunks)).1

/-- The rows of a fetch that are still in the writer when the fetch ends. -/
def heldBack {ρ : Type*} (config : Option BatchConfig) (chunks : List (List ρ)) : List ρ :=
  (Buffer.run (groupSize config) (fetchUnits config chunks)).2

theorem flatten_fetchUnits {ρ : Type*} (config : Option BatchConfig) (chunks : List (List ρ)) :
    (fetchUnits config chunks).flatten = chunks.flatten := by
  rw [fetchUnits]
  split_ifs
  · rfl
  · rw [← List.flatMap_def]
    simp

theorem announcedRows_append_heldBack {ρ : Type*} (config : Option BatchConfig)
    (chunks : List (List ρ)) :
    announcedRows config chunks ++ heldBack config chunks = chunks.flatten := by
  rw [announcedRows, heldBack, Buffer.run_flatten, flatten_fetchUnits]

/-- Without a batch writer no row waits. -/
theorem announcedRows_none {ρ : Type*} (chunks : List (List ρ)) :
    announcedRows none chunks = chunks.flatten := by
  have hlt := Buffer.held_lt (groupSize_pos none) (fetchUnits none chunks)
  have hheld : heldBack none chunks = [] := List.length_eq_zero_iff.mp (Nat.lt_one_iff.mp hlt)
  rw [← announcedRows_append_heldBack none, hheld, List.append_nil]

/-- The bookmark that `sync_query` leaves after `rows`, from the state `st`. -/
def BookmarkOf (e : CatalogEntry) (columns : List String) (config : Option BatchConfig)
    (names : List String) (st : State) (rows : List Row) (st' : State) : Prop :=
  After (bookmarkUpdate e config (st.getBookmark e.tapStreamId "replication_key"))
    (rowRecord e columns config names) st rows st'

theorem query_source (names : List String) (replicationKey : Val) :
    LawfulQuery (renderUnit e columns config names) (bookmarkUpdate e config replicationKey)
      (rowRecord e columns config names) :=
  ⟨rendersRows_unit names, bookmarkUpdate_overwrites replicationKey⟩

theorem new_writer_rows : ∀ w ∈ config.map (BatchWriter.new e.stream), w.rows = [] := by
  intro w hw
  obtain ⟨c, -, rfl⟩ := Option.mem_map.mp hw
  rfl

theorem new_writer_config :
    (config.map (BatchWriter.new e.stream)).map BatchWriter.config = config := by
  cases config <;> rfl

/-- At every STATE of `sync_query` the rows published before it are a first part of the rows
received, and the bookmark is that of the last of them. -/
theorem syncQuery_state {pre post : List Message} {v : State}
    (h : (syncQuery e st columns version time config f).1 = pre ++ .state v :: post) :
    ∃ rows rest, f.rows = rows ++ rest ∧
      (published pre).map Except.ok = rows.map (rowRecord e columns config f.names) ∧
      BookmarkOf e columns config f.names st rows v := by
  rw [syncQuery_eq] at h
  obtain ⟨a, b, hab, hpub, hafter⟩ :=
    state_message_query (query_source f.names _) new_writer_rows h
  refine ⟨a.flatten, b.flatten, ?_, hpub, hafter⟩
  rw [Fetch.rows, ← flatten_fetchUnits config, hab, List.flatten_append]

theorem syncQuery_returns (h : (syncQuery e st columns version time config f).2.2 = none) :
    f.error = none ∧
      (published (syncQuery e st columns version time config f).1).map Except.ok =
        f.rows.map (rowRecord e columns config f.names) ∧
      BookmarkOf e columns config f.names st f.rows
        (syncQuery e st columns version time config f).2.1 := by
  rw [syncQuery_eq] at h ⊢
  have hreturns := query_returns (query_source f.names _) new_writer_rows h
  rwa [flatten_fetchUnits] at hreturns

/-- When the connection is lost, the rows still in the writer are not published, and yet the
bookmark is that of the last row received. -/
theorem syncQuery_raises {err : Err}
    (h : (syncQuery e st columns version time config f).2.2 = some err)
    (herr : err.isOperational = true) :
    f.error = some err ∧
      (published (syncQuery e st columns version time config f).1).map Except.ok =
        (announcedRows config f.chunks).map (rowRecord e columns config f.names) ∧
      BookmarkOf e columns config f.names st f.rows
        (syncQuery e st columns version time config f).2.1 := by
  rw [syncQuery_eq] at h ⊢
  have hraises := query_raises (query_source f.names _) new_writer_rows h
    (fun unit hu => by simp [renderUnit_error hu] at herr)
    (fun st' r hu => by simp [bookmarkUpdate_error hu] at herr)
  rwa [flatten_fetchUnits, new_writer_config] at hraises

end Source

end TapMysql
