import TapMysql.JsonColumns

/-!
# The byte strings of a JSON value

`json_bytes_to_string` turns each item of a dictionary into a tuple and goes through the tuples. It
keeps the shape of a value and replaces every byte string, at any depth, by the text it encodes.
-/

namespace TapMysql

open Binlog

/-- The value `w` stands somewhere in a value: as an element, a key or a value, at any depth. -/
inductive Occurs (w : Val) : Val → Prop
  | self : Occurs w w
  | list {x xs} (hx : x ∈ xs) (h : Occurs w x) : Occurs w (.list xs)
  | tuple {x xs} (hx : x ∈ xs) (h : Occurs w x) : Occurs w (.tuple xs)
  | key {i items} (hi : i ∈ items) (h : Occurs w i.1) : Occurs w (.dict items)
  | value {i items} (hi : i ∈ items) (h : Occurs w i.2) : Occurs w (.dict items)

/-- The second value has the shape of the first, with the text of each byte string in its place. -/
inductive Decoded : Val → Val → Prop
  | text (s) : Decoded (.bytes (utf8Encode s)) (.str s)
  | scalar {v} (h : v.isScalar = true) : Decoded v v
  | list (xs : List (Val × Val)) (h : ∀ x ∈ xs, Decoded x.1 x.2) :
      Decoded (.list (xs.map Prod.fst)) (.list (xs.map Prod.snd))
  | tuple (xs : List (Val × Val)) (h : ∀ x ∈ xs, Decoded x.1 x.2) :
      Decoded (.tuple (xs.map Prod.fst)) (.tuple (xs.map Prod.snd))
  | dict (items : List ((Val × Val) × (Val × Val))) (hkeys : ∀ i ∈ items, Decoded i.1.1 i.2.1)
      (hvalues : ∀ i ∈ items, Decoded i.1.2 i.2.2) :
      Decoded (.dict (items.map Prod.fst)) (.dict (items.map Prod.snd))

/-- Every byte string in the value is a text in UTF-8. -/
def ValidUtf8 (v : Val) : Prop := ∀ bs, Occurs (.bytes bs) v → ∃ s, bs = utf8Encode s

/-- No two keys of a dictionary in the value decode to the same. -/
def KeysStayDistinct (v : Val) : Prop :=
  ∀ items, Occurs (.dict items) v → items.Pairwise fun i j => ∀ k, Decoded i.1 k → ¬ Decoded j.1 k

def NoBytes (v : Val) : Prop := ∀ bs, ¬ Occurs (.bytes bs) v

/-- A scalar or a byte string, as the keys of a JSON object are. -/
def IsPlain (k : Val) : Prop := k.isScalar = true ∨ ∃ bs, k = .bytes bs

/-- Two plain keys come to the same only as one string. -/
theorem Decoded.eq_str {j k c : Val} (hj : Decoded j c) (hk : Decoded k c) (hne : j ≠ k)
    (hplain : IsPlain j) : ∃ s, c = .str s := by
  cases hj with
  | text s => exact ⟨s, rfl⟩
  | scalar hv =>
    cases hk with
    | text s => exact ⟨s, rfl⟩
    | scalar hv => exact absurd rfl hne
    | _ => cases hv
  | _ => rcases hplain with hplain | ⟨bs, hplain⟩ <;> cases hplain

/-- Where the keys are plain, only two that decode to the same string can clash. -/
theorem keysStayDistinct_of_strings {v : Val}
    (hplain : ∀ items, Occurs (.dict items) v → ∀ i ∈ items, IsPlain i.1)
    (hstrings : ∀ items, Occurs (.dict items) v → items.Pairwise fun i j =>
      i.1 ≠ j.1 ∧ ∀ s, Decoded i.1 (.str s) → ¬ Decoded j.1 (.str s)) :
    KeysStayDistinct v := by
  intro items hitems
  refine (hstrings items hitems).imp_of_mem fun {i j} hi _ hdistinct c hic hjc => ?_
  obtain ⟨hne, hstring⟩ := hdistinct
  obtain ⟨s, rfl⟩ := hic.eq_str hjc hne (hplain items hitems i hi)
  exact hstring s hic hjc

theorem exists_pairs {α β : Type*} {R : α → β → Prop} {xs : List α} (h : ∀ x ∈ xs, ∃ y, R x y) :
    ∃ ps : List (α × β), ps.map Prod.fst = xs ∧ ∀ p ∈ ps, R p.1 p.2 := by
  induction xs with
  | nil => exact ⟨[], rfl, by simp⟩
  | cons x xs ih =>
    obtain ⟨⟨y, hy⟩, hxs⟩ := List.forall_mem_cons.mp h
    obtain ⟨ps, rfl, hps⟩ := ih hxs
    exact ⟨(x, y) :: ps, rfl, List.forall_mem_cons.mpr ⟨hy, hps⟩⟩

/-- Every value whose byte strings are texts has a decoding. -/
theorem ValidUtf8.decoded {v : Val} (h : ValidUtf8 v) : ∃ w, Decoded v w := by
  induction v using Val.induct with
  | scalar v hv => exact ⟨v, .scalar hv⟩
  | bytes bs =>
    obtain ⟨s, rfl⟩ := h bs .self
    exact ⟨.str s, .text s⟩
  | list xs ih =>
    obtain ⟨ps, rfl, hps⟩ := exists_pairs fun x hx => ih x hx fun bs hbs => h bs (.list hx hbs)
    exact ⟨_, .list ps hps⟩
  | tuple xs ih =>
    obtain ⟨ps, rfl, hps⟩ := exists_pairs fun x hx => ih x hx fun bs hbs => h bs (.tuple hx hbs)
    exact ⟨_, .tuple ps hps⟩
  | dict items ih =>
    have hitems : ∀ i ∈ items, ∃ j : Val × Val, Decoded i.1 j.1 ∧ Decoded i.2 j.2 := by
      intro i hi
      obtain ⟨k, hk⟩ := (ih i hi).1 fun bs hbs => h bs (.key hi hbs)
      obtain ⟨x, hx⟩ := (ih i hi).2 fun bs hbs => h bs (.value hi hbs)
      exact ⟨(k, x), hk, hx⟩
    obtain ⟨ps, rfl, hps⟩ := exists_pairs hitems
    exact ⟨_, .dict ps (fun p hp => (hps p hp).1) fun p hp => (hps p hp).2⟩

theorem noBytes_of_isScalar {v : Val} (h : v.isScalar = true) : NoBytes v := by
  intro bs hbs
  cases hbs <;> cases h

theorem Decoded.noBytes {v w : Val} (h : Decoded v w) : NoBytes w := by
  induction h with
  | text s => exact noBytes_of_isScalar rfl
  | scalar hv => exact noBytes_of_isScalar hv
  | list xs _ ih =>
    intro bs hbs
    obtain _ | ⟨hmem, hbs⟩ := hbs
    obtain ⟨x, hx, rfl⟩ := List.mem_map.mp hmem
    exact ih x hx bs hbs
  | tuple xs _ ih =>
    intro bs hbs
    obtain _ | _ | ⟨hmem, hbs⟩ := hbs
    obtain ⟨x, hx, rfl⟩ := List.mem_map.mp hmem
    exact ih x hx bs hbs
  | dict items _ _ ihk ihv =>
    intro bs hbs
    cases hbs with
    | key hmem hbs =>
      obtain ⟨i, hi, rfl⟩ := List.mem_map.mp hmem
      exact ihk i hi bs hbs
    | value hmem hbs =>
      obtain ⟨i, hi, rfl⟩ := List.mem_map.mp hmem
      exact ihv i hi bs hbs

/-- The keys of a dictionary are distinct after they were decoded. -/
theorem KeysStayDistinct.nodup {items : List ((Val × Val) × (Val × Val))}
    (h : KeysStayDistinct (.dict (items.map Prod.fst)))
    (hkeys : ∀ i ∈ items, Decoded i.1.1 i.2.1) :
    ((items.map Prod.snd).map Prod.fst).Nodup := by
  have hpairs := h _ .self
  rw [List.pairwise_map] at hpairs
  rw [List.map_map, List.Nodup, List.pairwise_map]
  refine hpairs.imp_of_mem fun {i j} hi hj hdistinct heq => ?_
  have hsame : j.2.1 = i.2.1 := heq.symm
  exact hdistinct _ (hkeys i hi) (hsame ▸ hkeys j hj)

variable {lib : RenderLib}

theorem jsonBytesToString_scalar {v : Val} (h : v.isScalar = true) :
    jsonBytesToString lib v = .ok v := by
  cases v <;> first | rfl | cases h

/-- A value is replaced by its decoding, and the decoding by itself. -/
theorem Decoded.jsonBytesToString (hdecode : lib.decode = utf8Decode) {v w : Val}
    (h : Decoded v w) (hkeys : KeysStayDistinct v) :
    Binlog.jsonBytesToString lib v = .ok w ∧ Binlog.jsonBytesToString lib w = .ok w := by
  induction h with
  | text s =>
    refine ⟨?_, rfl⟩
    rw [Binlog.jsonBytesToString, hdecode, utf8Decode_utf8Encode]
  | scalar hv => exact ⟨jsonBytesToString_scalar hv, jsonBytesToString_scalar hv⟩
  | list xs _ ih =>
    have hxs : ∀ x ∈ xs, _ := fun x hx => ih x hx fun items hitems =>
      hkeys items (.list (List.mem_map_of_mem hx) hitems)
    constructor
    · rw [Binlog.jsonBytesToString, jsonListToString_map fun x hx => (hxs x hx).1]
    · rw [Binlog.jsonBytesToString, jsonListToString_map fun x hx => (hxs x hx).2]
  | tuple xs _ ih =>
    have hxs : ∀ x ∈ xs, _ := fun x hx => ih x hx fun items hitems =>
      hkeys items (.tuple (List.mem_map_of_mem hx) hitems)
    constructor
    · rw [Binlog.jsonBytesToString, jsonListToString_map fun x hx => (hxs x hx).1]
    · rw [Binlog.jsonBytesToString, jsonListToString_map fun x hx => (hxs x hx).2]
  | dict items hdecoded _ ihk ihv =>
    have hk : ∀ i ∈ items, _ := fun i hi => ihk i hi fun items' hitems =>
      hkeys items' (.key (List.mem_map_of_mem hi) hitems)
    have hv : ∀ i ∈ items, _ := fun i hi => ihv i hi fun items' hitems =>
      hkeys items' (.value (List.mem_map_of_mem hi) hitems)
    have hentries := Dict.entries_ofList (hkeys.nodup hdecoded)
    constructor
    · rw [Binlog.jsonBytesToString,
        jsonItemsToString_map (fun i hi => (hk i hi).1) fun i hi => (hv i hi).1]
      simp only [hentries]
    · rw [Binlog.jsonBytesToString,
        jsonItemsToString_map (fun i hi => (hk i hi).2) fun i hi => (hv i hi).2]
      simp only [hentries]

/-- A value whose byte strings are texts, and none of whose dictionaries has two keys that decode
to the same, becomes its decoding: no byte string is left in it, and decoding it again changes
nothing. -/
theorem jsonBytesToString_decoded (hdecode : lib.decode = utf8Decode) {v : Val}
    (hvalid : ValidUtf8 v) (hkeys : KeysStayDistinct v) :
    ∃ w, jsonBytesToString lib v = .ok w ∧ NoBytes w ∧ Decoded v w ∧
      jsonBytesToString lib w = .ok w := by
  obtain ⟨w, hdecoded⟩ := hvalid.decoded
  obtain ⟨hfirst, hagain⟩ := hdecoded.jsonBytesToString hdecode hkeys
  exact ⟨w, hfirst, hdecoded.noBytes, hdecoded, hagain⟩

namespace Sample

theorem occurs_tree {w : Val} (h : Occurs w tree) :
    w = tree ∨ w = .bytes (utf8Encode "k") ∨ w = .list [.float (1 / 2), .null] ∨
      w = .float (1 / 2) ∨ w = .null := by
  cases h with
  | self => exact .inl rfl
  | key hi h =>
    rw [List.mem_singleton.mp hi] at h
    cases h
    exact .inr (.inl rfl)
  | value hi h =>
    rw [List.mem_singleton.mp hi] at h
    obtain _ | ⟨hx, h⟩ := h
    · exact .inr (.inr (.inl rfl))
    · simp only [List.mem_cons, List.not_mem_nil, or_false] at hx
      rcases hx with rfl | rfl <;> cases h
      · exact .inr (.inr (.inr (.inl rfl)))
      · exact .inr (.inr (.inr (.inr rfl)))

theorem tree_validUtf8 : ValidUtf8 tree := by
  intro bs hbs
  rcases occurs_tree hbs with h | h | h | h | h <;> cases h
  exact ⟨"k", rfl⟩

theorem tree_keysStayDistinct : KeysStayDistinct tree := by
  intro items hitems
  rcases occurs_tree hitems with h | h | h | h | h <;> cases h
  exact List.pairwise_singleton _ _

end Sample

theorem jsonBytesToString_decoded_tree :
    jsonBytesToString Sample.jsonLib Sample.tree =
        .ok (.dict [(.str "k", .list [.float (1 / 2), .null])]) ∧
      NoBytes (.dict [(.str "k", .list [.float (1 / 2), .null])]) ∧
      jsonBytesToString Sample.jsonLib (.dict [(.str "k", .list [.float (1 / 2), .null])]) =
        .ok (.dict [(.str "k", .list [.float (1 / 2), .null])]) := by
  obtain ⟨w, hw, hbytes, -, hagain⟩ := @jsonBytesToString_decoded Sample.jsonLib rfl Sample.tree
    Sample.tree_validUtf8 Sample.tree_keysStayDistinct
  have hvalue : jsonBytesToString Sample.jsonLib Sample.tree =
      .ok (.dict [(.str "k", .list [.float (1 / 2), .null])]) := by decide +kernel
  obtain rfl := Except.ok.inj (hw.symm.trans hvalue)
  exact ⟨hvalue, hbytes, hagain⟩

end TapMysql
