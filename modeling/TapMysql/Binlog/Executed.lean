import TapMysql.Binlog.Gtid
import TapMysql.Binlog.Positions
import TapMysql.Binlog.ResumeGtid

/-!
# Executed transactions

A MySQL server reads the gtid that it is given as a set of transactions and sends those that are
not in it. The bookmark of a snapshot is an interval taken from `gtid_executed`; the loop puts the
single gtid of the last transaction in its place.
-/

namespace TapMysql.Binlog

open Loop (Reaches)

/-! ### Gtids as sets -/

def gtidText (uuid : String) (n : ℕ) : String := uuid ++ ":" ++ toString n

def intervalText (uuid : String) (first last : ℕ) : String :=
  uuid ++ ":" ++ (toString first ++ "-" ++ toString last)

/-- The numbers between which a gtid of the form `uuid:n` or `uuid:first-last` stands. -/
def gtidBounds (gtid : String) : Option (Int × Int) :=
  match splitOn ':' gtid with
  | [_, interval] =>
    match splitOn '-' interval with
    | [n] => (pyInt n).map fun n => (n, n)
    | [first, last] =>
      match pyInt first, pyInt last with
      | some first, some last => some (first, last)
      | _, _ => none
    | _ => none
  | _ => none

/-- The transactions that the gtid names. -/
def named (gtid : String) : Set ℕ :=
  {n | ∃ bounds, gtidBounds gtid = some bounds ∧ bounds.1 ≤ n ∧ n ≤ bounds.2}

theorem splitChars_append_cons {sep : Char} {xs : List Char} (h : sep ∉ xs) (ys : List Char) :
    splitChars sep (xs ++ sep :: ys) = xs :: splitChars sep ys := by
  induction xs with
  | nil => simp [splitChars]
  | cons x xs ih =>
    simp only [List.mem_cons, not_or] at h
    simp [splitChars, Ne.symm h.1, ih h.2]

theorem splitOn_join {sep : Char} {s t : String} (hs : sep ∉ s.toList) (ht : sep ∉ t.toList) :
    splitOn sep (s ++ String.ofList [sep] ++ t) = [s, t] := by
  rw [splitOn, String.toList_append, String.toList_append, String.toList_ofList, List.append_assoc,
    List.singleton_append, splitChars_append_cons hs, splitChars_of_not_mem ht]
  simp

theorem splitOn_of_not_mem {sep : Char} {s : String} (h : sep ∉ s.toList) :
    splitOn sep s = [s] := by
  simp [splitOn, splitChars_of_not_mem h]

theorem isDigit_of_mem_toString {n : ℕ} {c : Char} (h : c ∈ (toString n).toList) :
    c.isDigit = true := by
  rw [Digits.toList_toString] at h
  exact Nat.isDigit_of_mem_toDigits (by omega) (by omega) h

theorem not_mem_toString {n : ℕ} {c : Char} (hc : c.isDigit = false) :
    c ∉ (toString n).toList := by
  intro h
  rw [isDigit_of_mem_toString h] at hc
  cases hc

theorem pyInt_toString (n : ℕ) : pyInt (toString n) = some (n : Int) := by
  have hne : toString n ≠ "" := by
    intro h
    have hnil : (toString n).toList = [] := by
      rw [h]
      rfl
    rw [Digits.toList_toString] at hnil
    exact Nat.toDigits_ne_nil hnil
  rw [pyInt_of_isDigit (fun c hc => isDigit_of_mem_toString hc) hne,
    Digits.toList_toString, Nat.ofDigitChars_ten_toDigits]

variable {uuid : String}

theorem gtidBounds_gtidText (h : ':' ∉ uuid.toList) (n : ℕ) :
    gtidBounds (gtidText uuid n) = some ((n : Int), (n : Int)) := by
  have hsplit : splitOn ':' (gtidText uuid n) = [uuid, toString n] :=
    splitOn_join h (not_mem_toString rfl)
  have hinterval : splitOn '-' (toString n) = [toString n] :=
    splitOn_of_not_mem (not_mem_toString rfl)
  simp only [gtidBounds, hsplit, hinterval, pyInt_toString, Option.map_some]

theorem gtidBounds_intervalText (h : ':' ∉ uuid.toList) (first last : ℕ) :
    gtidBounds (intervalText uuid first last) = some ((first : Int), (last : Int)) := by
  have hinterval : splitOn '-' (toString first ++ "-" ++ toString last) =
      [toString first, toString last] :=
    splitOn_join (not_mem_toString rfl) (not_mem_toString rfl)
  have hcolon : ':' ∉ (toString first ++ "-" ++ toString last).toList := by
    rw [String.toList_append, String.toList_append, List.mem_append, List.mem_append]
    rintro ((hmem | hmem) | hmem)
    · exact not_mem_toString rfl hmem
    · exact absurd hmem (by decide)
    · exact not_mem_toString rfl hmem
  have hsplit : splitOn ':' (intervalText uuid first last) =
      [uuid, toString first ++ "-" ++ toString last] := splitOn_join h hcolon
  simp only [gtidBounds, hsplit, hinterval, pyInt_toString]

theorem named_gtidText (h : ':' ∉ uuid.toList) (n : ℕ) : named (gtidText uuid n) = {n} := by
  ext k
  simp only [named, gtidBounds_gtidText h, Option.some.injEq, exists_eq_left', Set.mem_ofPred_eq,
    Set.mem_singleton_iff]
  omega

theorem named_intervalText (h : ':' ∉ uuid.toList) (first last : ℕ) :
    named (intervalText uuid first last) = Set.Icc first last := by
  ext k
  simp [named, gtidBounds_intervalText h]

theorem gtidText_ne (uuid : String) (n : ℕ) : gtidText uuid n ≠ "" := by
  intro h
  have hlength := congrArg String.length h
  have hcolon : ":".length = 1 := by decide
  rw [gtidText, String.length_append, String.length_append, hcolon] at hlength
  simp at hlength

/-- A bookmark that names the transactions up to `last`. -/
def StartsAt (uuid gtid : String) (last : ℕ) : Prop :=
  gtid = gtidText uuid last ∨ ∃ first ≤ last, gtid = intervalText uuid first last

theorem StartsAt.mem {gtid : String} {last : ℕ} (h : StartsAt uuid gtid last)
    (huuid : ':' ∉ uuid.toList) : last ∈ named gtid ∧ ∀ n ∈ named gtid, n ≤ last := by
  rcases h with rfl | ⟨first, hle, rfl⟩
  · rw [named_gtidText huuid]
    exact ⟨rfl, fun n hn => le_of_eq hn⟩
  · rw [named_intervalText huuid]
    exact ⟨⟨hle, le_rfl⟩, fun n hn => hn.2⟩

theorem StartsAt.ne {gtid : String} {last : ℕ} (h : StartsAt uuid gtid last)
    (huuid : ':' ∉ uuid.toList) : gtid ≠ "" := by
  rintro rfl
  obtain ⟨⟨bounds, hbounds, -⟩, -⟩ := h.mem huuid
  simp [gtidBounds, splitOn, splitChars] at hbounds

/-! ### The gtid in force -/

def Event.gtid? : Event → Option String
  | .gtid g => some g
  | _ => none

def takenGtids (ds : List Delivery) : List String := ds.filterMap fun d => d.event.gtid?

/-- The gtid of the variables after some deliveries, and of the bookmarks of all streams. -/
def lastGtid (g₀ : String) (ds : List Delivery) : String := (takenGtids ds).getLastD g₀

structure GtidInForce (m : StreamsMap) (g : String) (v : Vars) : Prop where
  keys : v.streamsMap.keys = m.keys
  position : v.gtidPos = some g
  stored : ∀ s ∈ m.keys, v.state.getBookmark s "gtid" = .str g

theorem stored_gtid {st st' : State} {m : StreamsMap} {f : String} {p : ℕ} {g : String}
    (h : updateBookmarks st m f p (some g) = .ok st') (hg : g ≠ "") :
    ∀ s ∈ m.keys, st'.getBookmark s "gtid" = .str g := by
  intro s hs
  rw [getBookmark_updateBookmarks h, if_pos hs]
  simp [positionValue, hg]

theorem lastGtid_concat (g₀ : String) (ds : List Delivery) (d : Delivery) :
    lastGtid g₀ (ds ++ [d]) = d.event.gtid?.getD (lastGtid g₀ ds) := by
  unfold lastGtid takenGtids
  rw [List.filterMap_append]
  cases hg : d.event.gtid? <;> simp [hg]

section Run

variable {env : Env} {m : StreamsMap} {v₀ v : Vars} {ds : List Delivery} {out : List Effect}
  {g₀ : String}

theorem reaches_gtidInForce (h₀ : GtidInForce m g₀ v₀) (hg₀ : g₀ ≠ "")
    (hr : Reaches (iteration env) v₀ ds out v) (hne : ∀ g ∈ takenGtids ds, g ≠ "") :
    GtidInForce m (lastGtid g₀ ds) v ∧ lastGtid g₀ ds ≠ "" := by
  induction hr with
  | start => exact ⟨h₀, hg₀⟩
  | @step is out v d em v' hr hs ih =>
    obtain ⟨hv, hg⟩ := ih fun g hmem => hne g (by
      rw [takenGtids, List.filterMap_append]
      exact List.mem_append_left _ hmem)
    -- the event is handled, and a periodic STATE writes the same gtid again
    have hevent : ∀ em₁ v₁, handleEvent env (takePosition v d) d = (em₁, .ok v₁) →
        GtidInForce m (lastGtid g₀ (is ++ [d])) v₁ ∧ lastGtid g₀ (is ++ [d]) ≠ "" := by
      intro em₁ v₁ he
      rw [lastGtid_concat]
      rcases handleEvent_ok he with ⟨next, position, st, hd, hu, -, rfl⟩ |
        ⟨g, st, hd, hu, -, rfl⟩ | ⟨ev, hd, -, -, rfl⟩ | ⟨ev, hd, hrows, -, rfl⟩
      · rw [hd]
        have hgtid : (takePosition v d).gtidPos = some (lastGtid g₀ is) := hv.position
        rw [hgtid] at hu
        exact ⟨⟨hv.keys, hv.position, fun s hs => stored_gtid hu hg s (hv.keys ▸ hs)⟩, hg⟩
      · rw [hd]
        have hgne : g ≠ "" := hne g (by simp [takenGtids, hd, Event.gtid?])
        exact ⟨⟨hv.keys, rfl, fun s hs => stored_gtid hu hgne s (hv.keys ▸ hs)⟩, hgne⟩
      · rw [hd]
        exact ⟨⟨hv.keys, hv.position, hv.stored⟩, hg⟩
      · rw [hd]
        have hk := placeColumns_keeps hrows.places hrows.found
        refine ⟨⟨hk.keys.trans hv.keys, hk.gtidPos.trans hv.position, fun s hs => ?_⟩, hg⟩
        have hst : hrows.after.state = v.state := hk.state
        rw [hst]
        exact hv.stored s hs
    obtain ⟨-, em₁, v₁, he, ⟨-, -, rfl⟩ | ⟨-, st, hu, -, rfl⟩⟩ := iteration_next hs
    · exact hevent em₁ _ he
    · obtain ⟨hforce, hgne⟩ := hevent em₁ v₁ he
      rw [hforce.position] at hu
      exact ⟨⟨hforce.keys, hforce.position,
        fun s hs => stored_gtid hu hgne s (hforce.keys ▸ hs)⟩, hgne⟩

theorem finish_gtid {g : String} {st : State} (hv : GtidInForce m g v) (hg : g ≠ "")
    (h : finish env v = .ok st) : ∀ s ∈ m.keys, st.getBookmark s "gtid" = .str g := by
  rw [finish] at h
  split at h
  · cases h
    exact hv.stored
  · rw [hv.position] at h
    exact fun s hs => stored_gtid h hg s (hv.keys ▸ hs)

/-- A run that returns took some of its deliveries, all of them or those before one at the end, and
left the gtid in force there. -/
theorem run_gtid {st st' : State} {failure : Option Err} (hg₀ : g₀ ≠ "")
    (hstart : ∀ s ∈ m.keys, st.getBookmark s "gtid" = .str g₀)
    (hne : ∀ g ∈ takenGtids ds, g ≠ "")
    (hrun : (runBinlogSync env m st (some g₀) ds failure).2 = .ok st') :
    ∃ a out v, Reaches (iteration env) (initialVars m st (some g₀)) a out v ∧
      (a = ds ∨ ∃ d b, ds = a ++ d :: b ∧ reachedEnd env d = true) ∧
      ∀ s ∈ m.keys, st'.getBookmark s "gtid" = .str (lastGtid g₀ a) := by
  have h₀ : GtidInForce m g₀ (initialVars m st (some g₀)) := ⟨rfl, rfl, hstart⟩
  rw [runBinlogSync] at hrun
  rcases Loop.run_cases (iteration env) (readerEnd failure) ds (initialVars m st (some g₀)) with
    ⟨out, v, hr, he⟩ | ⟨a, d, b, out, v, em, t, rfl, hr, hhalt, he⟩
  · rw [he] at hrun
    obtain ⟨hforce, hg⟩ := reaches_gtidInForce h₀ hg₀ hr hne
    cases failure with
    | none => exact ⟨ds, out, v, hr, .inl rfl, finish_gtid hforce hg hrun⟩
    | some err => cases hrun
  · rw [he] at hrun
    obtain ⟨hforce, hg⟩ := reaches_gtidInForce h₀ hg₀ hr fun g hmem => hne g (by
      rw [takenGtids, List.filterMap_append]
      exact List.mem_append_left _ hmem)
    rcases iteration_halt hhalt with ⟨hend, -, rfl⟩ | ⟨-, -, err, rfl⟩
    · have hbroke : GtidInForce m (lastGtid g₀ a)
          { v with logFile := some env.endLogFile, logPos := some env.endLogPos } :=
        ⟨hforce.keys, hforce.position, hforce.stored⟩
      exact ⟨a, out, v, hr, .inr ⟨d, b, rfl, hend⟩, finish_gtid hbroke hg hrun⟩
    · cases hrun

end Run

/-! ### The transactions of a server -/

theorem takenGtids_rest (t : Transaction) : takenGtids (deliveries true t.rest) = [] := by
  rw [takenGtids, List.filterMap_eq_nil_iff]
  intro d hd
  obtain ⟨e, he, hde⟩ := List.mem_filterMap.mp hd
  cases hevent : d.event with
  | gtid g =>
    have hbody : e.body = .gtid g := by
      unfold LogEntry.delivery LogEntry.surfaced at hde
      cases hb : e.body with
      | gtid g' =>
        simp only [hb, if_true, Option.map_some, Option.some.injEq] at hde
        rw [← hde] at hevent
        simpa using hevent
      | rows ev =>
        simp only [hb, Option.map_some, Option.some.injEq] at hde
        rw [← hde] at hevent
        cases hevent
      | rotate next position => simp [hb] at hde
      | tableMap schema table => simp [hb] at hde
      | filtered => simp [hb] at hde
    exact absurd hbody (t.single e he g)
  | rows ev => rfl
  | rotate next position => rfl

theorem takenGtids_log (txns : List Transaction) :
    takenGtids (deliveries true (Transaction.log txns)) = txns.map Transaction.gtid := by
  induction txns with
  | nil => rfl
  | cons t txns ih =>
    have hsplit := Transaction.deliveries_log_split [] txns t
    have hnil : deliveries true (Transaction.log []) = [] := rfl
    rw [List.nil_append, hnil, List.nil_append] at hsplit
    rw [hsplit, List.map_cons, ← ih]
    have hrest := takenGtids_rest t
    unfold takenGtids at hrest ⊢
    rw [List.filterMap_cons, List.filterMap_append, hrest]
    rfl

/-- The transactions `last + 1`, `last + 2` and so on of the server. -/
def FollowingTransactions (uuid : String) (last : ℕ) (txns : List Transaction) : Prop :=
  txns.map Transaction.gtid = (List.range' (last + 1) txns.length).map (gtidText uuid)

/-- The run has handled the GTID event of the transaction `n`. -/
def Processes (env : Env) (v₀ : Vars) (ds : List Delivery) (uuid : String) (n : ℕ) : Prop :=
  ∃ a out v, a <+: ds ∧ Reaches (iteration env) v₀ a out v ∧ gtidText uuid n ∈ takenGtids a

/-- The bookmarks that are left name all that the start named and all that the run processed. -/
def ExecutedGrows (env : Env) (m : StreamsMap) (v₀ : Vars) (ds : List Delivery)
    (uuid g₀ : String) (left : State) : Prop :=
  ∀ s ∈ m.keys, ∃ g, left.getBookmark s "gtid" = .str g ∧ named g₀ ⊆ named g ∧
    ∀ n, Processes env v₀ ds uuid n → n ∈ named g

section Executed

variable {env : Env} {m : StreamsMap} {st left : State} {ds : List Delivery}
  {failure : Option Err} {g₀ : String} {last : ℕ} {txns : List Transaction}

theorem takenGtids_following (htxns : FollowingTransactions uuid last txns)
    (hds : ds <+: deliveries true (Transaction.log txns)) :
    ∃ k, takenGtids ds = (List.range' (last + 1) k).map (gtidText uuid) := by
  have hprefix : takenGtids ds <+: (List.range' (last + 1) txns.length).map (gtidText uuid) := by
    rw [← htxns, ← takenGtids_log]
    exact hds.filterMap _
  have htake := List.prefix_iff_eq_take.mp hprefix
  have hle : (takenGtids ds).length ≤ txns.length := by
    have hlength := hprefix.length_le
    rwa [List.length_map, List.length_range'] at hlength
  refine ⟨(takenGtids ds).length, ?_⟩
  rwa [← List.map_take, List.take_range'_of_length_ge hle] at htake

theorem lastGtid_following {a : List Delivery} {k : ℕ}
    (hk : takenGtids a = (List.range' (last + 1) k).map (gtidText uuid)) :
    lastGtid g₀ a = if k = 0 then g₀ else gtidText uuid (last + k) := by
  rw [lastGtid, hk]
  cases k with
  | zero => rfl
  | succ k =>
    rw [List.range'_concat, List.map_append, if_neg (Nat.succ_ne_zero k)]
    simp [Nat.add_right_comm, Nat.add_assoc]

theorem head_gtid {d : Delivery} {b : List Delivery}
    (hds : d :: b <+: deliveries true (Transaction.log txns)) : ∃ g, d.event = .gtid g := by
  cases txns with
  | nil => simp [Transaction.log, deliveries] at hds
  | cons t txns =>
    have hsplit := Transaction.deliveries_log_split [] txns t
    have hnil : deliveries true (Transaction.log []) = [] := rfl
    rw [List.nil_append, hnil, List.nil_append] at hsplit
    rw [hsplit, List.cons_prefix_cons] at hds
    exact ⟨t.gtid, by rw [hds.1]; rfl⟩

theorem nothing_taken {v₀ v : Vars} {a : List Delivery} {out : List Effect}
    (hhead : ∀ d ∈ ds.head?, reachedEnd env d = true) (hads : a <+: ds)
    (hr : Reaches (iteration env) v₀ a out v) : a = [] := by
  obtain _ | ⟨d, a'⟩ := a
  · rfl
  · obtain ⟨b, rfl⟩ := hads
    obtain ⟨out₁, v₁, em, v₂, -, hs⟩ := Reaches.split (a := []) hr
    have hend := (iteration_next hs).1
    rw [hhead d rfl] at hend
    cases hend

/-- The executed set of the bookmarks grows exactly in the runs that process no transaction: the
reader delivers nothing, or its first event is at the captured end. -/
theorem executed_grows_iff (huuid : ':' ∉ uuid.toList) (hstart : StartsAt uuid g₀ last)
    (htxns : FollowingTransactions uuid last txns)
    (hds : ds <+: deliveries true (Transaction.log txns)) (hm : m.keys ≠ [])
    (hst : ∀ s ∈ m.keys, st.getBookmark s "gtid" = .str g₀)
    (hrun : (runBinlogSync env m st (some g₀) ds failure).2 = .ok left) :
    ExecutedGrows env m (initialVars m st (some g₀)) ds uuid g₀ left ↔
      ∀ d ∈ ds.head?, reachedEnd env d = true := by
  obtain ⟨klog, hlog⟩ := takenGtids_following htxns hds
  have hne : ∀ g ∈ takenGtids ds, g ≠ "" := by
    rw [hlog]
    intro g hg
    obtain ⟨n, -, rfl⟩ := List.mem_map.mp hg
    exact gtidText_ne uuid n
  obtain ⟨a, out, v, hr, ha, hleft⟩ := run_gtid (hstart.ne huuid) hst hne hrun
  have hads : a <+: ds := by
    rcases ha with rfl | ⟨d, b, rfl, -⟩
    · exact List.prefix_rfl
    · exact List.prefix_append a (d :: b)
  obtain ⟨k, hk⟩ := takenGtids_following htxns (hads.trans hds)
  rw [lastGtid_following hk] at hleft
  obtain ⟨s, hs⟩ := List.exists_mem_of_ne_nil _ hm
  constructor
  · intro hgrows d hd
    obtain ⟨b, rfl⟩ : ∃ b, ds = d :: b := by
      obtain _ | ⟨d', b⟩ := ds
      · cases hd
      · rw [List.head?_cons, Option.mem_some_iff] at hd
        exact ⟨b, by rw [hd]⟩
    obtain ⟨g, hd⟩ := head_gtid hds
    -- unless the first event is at the end, its transaction is processed
    by_contra hend
    obtain ⟨a', rfl⟩ : ∃ a', a = d :: a' := by
      rcases ha with rfl | ⟨d', b', hsplit, hend'⟩
      · exact ⟨b, rfl⟩
      · obtain _ | ⟨d'', a'⟩ := a
        · obtain ⟨rfl, -⟩ := List.cons.inj hsplit
          exact absurd hend' hend
        · obtain ⟨rfl, -⟩ := List.cons.inj hsplit
          exact ⟨a', rfl⟩
    have hkpos : k ≠ 0 := by
      rintro rfl
      simp [takenGtids, hd, Event.gtid?] at hk
    obtain ⟨g', hg', hsub, -⟩ := hgrows s hs
    rw [hleft s hs, if_neg hkpos, Val.str.injEq] at hg'
    have hmem := hsub (hstart.mem huuid).1
    rw [← hg', named_gtidText huuid, Set.mem_singleton_iff] at hmem
    omega
  · intro hhead s hs
    have hnil : a = [] := nothing_taken hhead hads hr
    have hzero : k = 0 := by
      have hlength := congrArg List.length hk
      rw [hnil] at hlength
      simpa [takenGtids] using hlength.symm
    refine ⟨g₀, by rw [hleft s hs, if_pos hzero], subset_rfl, ?_⟩
    intro n h
    obtain ⟨a', out', v', ha', hr', hmem⟩ := h
    rw [nothing_taken hhead ha' hr'] at hmem
    simp [takenGtids] at hmem

end Executed

namespace Sample

/-- A transaction without rows of a selected stream. -/
def emptyTransaction (n : ℕ) : Transaction where
  gtid := gtidText "u" n
  opening := ⟨"bin.1", 80, .gtid (gtidText "u" n), "now", 0⟩
  rest := [⟨"bin.1", 120, .filtered, "now", 0⟩]
  gtid_ne := gtidText_ne "u" n
  opens := rfl
  single := by simp

/-- The bookmark of a snapshot, which holds the transactions 1 to 5. -/
def snapshotState : State :=
  ⟨none, Dict.ofList [("db-t", Dict.ofList [("gtid", .str (intervalText "u" 1 5))])]⟩

def transactionSix : List Delivery := [(emptyTransaction 6).gtidDelivery]

/-- The state after the sixth transaction. -/
def stateSix : State :=
  ⟨none, Dict.ofList [("db-t", Dict.ofList
    [("gtid", .str (gtidText "u" 6)), ("log_file", .str "bin.1"), ("log_pos", .int 500)])]⟩

theorem run_transactionSix : (runBinlogSync (env "bin.1" 500) streamsMap snapshotState
    (some (intervalText "u" 1 5)) transactionSix none).2 = .ok stateSix := by
  decide +kernel

end Sample

/-- The interval 1-5 is replaced by the single transaction 6. -/
theorem interval_replaced_by_single :
    (runBinlogSync (Sample.env "bin.1" 500) Sample.streamsMap Sample.snapshotState
        (some (intervalText "u" 1 5)) Sample.transactionSix none).2 = .ok Sample.stateSix ∧
      ¬ ExecutedGrows (Sample.env "bin.1" 500) Sample.streamsMap
        (initialVars Sample.streamsMap Sample.snapshotState (some (intervalText "u" 1 5)))
        Sample.transactionSix "u" (intervalText "u" 1 5) Sample.stateSix := by
  refine ⟨Sample.run_transactionSix, fun h => ?_⟩
  obtain ⟨g, hg, hsub, -⟩ := h "db-t" (by decide)
  have hsix : Sample.stateSix.getBookmark "db-t" "gtid" = .str (gtidText "u" 6) := rfl
  rw [hsix, Val.str.injEq] at hg
  have hone : (1 : ℕ) ∈ named (intervalText "u" 1 5) := by
    rw [named_intervalText (by decide)]
    exact ⟨le_rfl, by omega⟩
  have hmem := hsub hone
  rw [← hg, named_gtidText (by decide), Set.mem_singleton_iff] at hmem
  omega

theorem executed_grows_iff_transactionSix :
    ExecutedGrows (Sample.env "bin.1" 500) Sample.streamsMap
        (initialVars Sample.streamsMap Sample.snapshotState (some (intervalText "u" 1 5)))
        Sample.transactionSix "u" (intervalText "u" 1 5) Sample.stateSix ↔
      ∀ d ∈ Sample.transactionSix.head?, reachedEnd (Sample.env "bin.1" 500) d = true := by
  have htxns : FollowingTransactions "u" 5 [Sample.emptyTransaction 6] := rfl
  exact executed_grows_iff (by decide) (.inr ⟨1, by omega, rfl⟩) htxns ⟨[], rfl⟩ (by decide)
    (by decide) Sample.run_transactionSix

end TapMysql.Binlog
