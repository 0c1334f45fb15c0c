import Mathlib.Data.List.Sort
import RevaultNet.Serde.Content

/-! # The collections the messages carry: `BTreeMap` and `Vec`

* `BTreeMap K V`: the entries in ascending key order, the order carried as a field, so that a map
  with two entries for one key, or out of order, cannot be built. `insert` is
  `BTreeMap::insert`: a new key takes its place in the order, a present key gets the new value.
* `BTreeMap.codec`: `serialize_map` writes the entries in key order, each key through its string
  form (`serde_json`'s map-key serializer); the map visitor inserts the members one after the
  other into an empty map, so a repeated key keeps its last value (`visitMap_shadowed`), and
  members of distinct keys read as one map in any order (`visitMap_perm`).
* `vec`: a sequence, read element by element.

The round trips `BTreeMap.codec_roundTrip` and `vec_roundTrip` hold whenever the element codecs
round-trip, the empty map and the empty list included. A map is fixed by its entries
(`BTreeMap.eq_of_mem_iff`), so inserting entries of distinct keys in any order builds the same
map (`BTreeMap.foldl_insert_perm`), which holds exactly those entries
(`BTreeMap.foldl_insert_entries_perm`).
-/

namespace RevaultNet.Serde
set_option autoImplicit false

/-- `BTreeMap<K, V>`: its entries in ascending key order. -/
structure BTreeMap (K V : Type) [LinearOrder K] where
  entries : List (K × V)
  sorted : entries.Pairwise (·.1 < ·.1)

namespace BTreeMap
variable {K V : Type} [LinearOrder K]

theorem ext {m m' : BTreeMap K V} (h : m.entries = m'.entries) : m = m' := by
  cases m; cases m'; cases h; rfl

/-- `BTreeMap::new`. -/
def empty : BTreeMap K V := ⟨[], .nil⟩

/-- The entries after `BTreeMap::insert`. -/
def insertEntry (k : K) (v : V) : List (K × V) → List (K × V)
  | [] => [(k, v)]
  | e :: es =>
    if k < e.1 then (k, v) :: e :: es
    else if k = e.1 then (k, v) :: es
    else e :: insertEntry k v es

theorem mem_insertEntry {k : K} {v : V} {es : List (K × V)} {e : K × V}
    (h : e ∈ insertEntry k v es) : e.1 = k ∨ e ∈ es := by
  induction es with
  | nil => simp_all [insertEntry]
  | cons e' es ih =>
    unfold insertEntry at h
    split_ifs at h
    · rcases List.mem_cons.1 h with rfl | h
      · exact .inl rfl
      · exact .inr h
    · rcases List.mem_cons.1 h with rfl | h
      · exact .inl rfl
      · exact .inr (.tail _ h)
    · rcases List.mem_cons.1 h with rfl | h
      · exact .inr (.head _)
      · exact (ih h).imp_right (.tail _)

theorem insertEntry_sorted (k : K) (v : V) {es : List (K × V)}
    (h : es.Pairwise (·.1 < ·.1)) : (insertEntry k v es).Pairwise (·.1 < ·.1) := by
  induction es with
  | nil => simp [insertEntry]
  | cons e es ih =>
    rw [List.pairwise_cons] at h
    unfold insertEntry
    split_ifs with hlt heq
    · exact .cons (fun x hx => by
        rcases List.mem_cons.1 hx with rfl | hx
        · exact hlt
        · exact hlt.trans (h.1 x hx)) (.cons h.1 h.2)
    · exact .cons (fun x hx => heq ▸ h.1 x hx) h.2
    · refine .cons (fun x hx => ?_) (ih h.2)
      rcases mem_insertEntry hx with hx | hx
      · rw [hx]; exact lt_of_le_of_ne (not_lt.1 hlt) (Ne.symm heq)
      · exact h.1 x hx

/-- `BTreeMap::insert`. -/
def insert (m : BTreeMap K V) (k : K) (v : V) : BTreeMap K V :=
  ⟨insertEntry k v m.entries, insertEntry_sorted k v m.sorted⟩

/-- A key above every key of the map goes last. -/
theorem insertEntry_of_lt {k : K} {v : V} {es : List (K × V)} (h : ∀ e ∈ es, e.1 < k) :
    insertEntry k v es = es ++ [(k, v)] := by
  induction es with
  | nil => rfl
  | cons e es ih =>
    have he := h e (.head _)
    simp only [insertEntry, not_lt.2 he.le, he.ne', if_false, List.cons_append,
      ih fun x hx => h x (.tail _ hx)]

/-! ## The order of insertion does not matter -/

/-- What `BTreeMap::insert` leaves: the new entry, and the entries of the other keys. -/
theorem mem_insertEntry_iff {k : K} {v : V} {es : List (K × V)} (h : es.Pairwise (·.1 < ·.1))
    {e : K × V} : e ∈ insertEntry k v es ↔ e = (k, v) ∨ e ∈ es ∧ e.1 ≠ k := by
  induction es with
  | nil => simp [insertEntry]
  | cons e' es ih =>
    rw [List.pairwise_cons] at h
    unfold insertEntry
    split_ifs with hlt heq
    · have above : ∀ x ∈ e' :: es, x.1 ≠ k := fun x hx => by
        rcases List.mem_cons.1 hx with rfl | hx
        · exact hlt.ne'
        · exact (hlt.trans (h.1 x hx)).ne'
      rw [List.mem_cons]
      exact ⟨fun h' => h'.imp_right fun hx => ⟨hx, above e hx⟩, fun h' => h'.imp_right And.left⟩
    · subst heq
      have above : ∀ x ∈ es, x.1 ≠ e'.1 := fun x hx => (h.1 x hx).ne'
      rw [List.mem_cons, List.mem_cons]
      refine ⟨fun h' => h'.imp_right fun hx => ⟨.inr hx, above e hx⟩, ?_⟩
      rintro (h' | ⟨rfl | hx, hne⟩)
      · exact .inl h'
      · exact absurd rfl hne
      · exact .inr hx
    · have hne : e'.1 ≠ k := Ne.symm heq
      rw [List.mem_cons, ih h.2, List.mem_cons]
      constructor
      · rintro (rfl | rfl | ⟨hx, hk⟩)
        · exact .inr ⟨.inl rfl, hne⟩
        · exact .inl rfl
        · exact .inr ⟨.inr hx, hk⟩
      · rintro (rfl | ⟨rfl | hx, hk⟩)
        · exact .inr (.inl rfl)
        · exact .inl rfl
        · exact .inr (.inr ⟨hx, hk⟩)

theorem entries_nodup (m : BTreeMap K V) : m.entries.Nodup :=
  m.sorted.imp fun hlt => ne_of_apply_ne Prod.fst hlt.ne

/-- Two maps with the same entries are the same map: the order is fixed by the keys. -/
theorem eq_of_mem_iff {m m' : BTreeMap K V} (h : ∀ e, e ∈ m.entries ↔ e ∈ m'.entries) :
    m = m' := by
  have : IsAntisymm (K × V) (·.1 < ·.1) := ⟨fun _ _ h1 h2 => absurd (h1.trans h2) (lt_irrefl _)⟩
  exact ext (List.eq_of_perm_of_sorted ((List.perm_ext_iff_of_nodup m.entries_nodup
    m'.entries_nodup).2 h)
    m.sorted m'.sorted)

theorem insert_comm (m : BTreeMap K V) {k k' : K} (hk : k ≠ k') (v v' : V) :
    (m.insert k v).insert k' v' = (m.insert k' v').insert k v := by
  refine eq_of_mem_iff fun e => ?_
  simp only [insert, mem_insertEntry_iff (insertEntry_sorted _ _ m.sorted),
    mem_insertEntry_iff m.sorted]
  rcases e with ⟨a, b⟩
  by_cases ha : a = k <;> by_cases ha' : a = k' <;> simp_all

/-- Inserting a key again keeps only the second value. -/
theorem insert_insert (m : BTreeMap K V) (k : K) (v v' : V) :
    (m.insert k v).insert k v' = m.insert k v' := by
  refine eq_of_mem_iff fun e => ?_
  simp only [insert, mem_insertEntry_iff (insertEntry_sorted _ _ m.sorted),
    mem_insertEntry_iff m.sorted]
  rcases e with ⟨a, b⟩
  by_cases ha : a = k <;> simp_all

/-- Inserting the same entries, no key twice, in any order builds the same map. -/
theorem foldl_insert_perm {xs ys : List (K × V)} (hp : xs.Perm ys) (hnd : (xs.map Prod.fst).Nodup)
    (m : BTreeMap K V) :
    xs.foldl (fun m e => m.insert e.1 e.2) m = ys.foldl (fun m e => m.insert e.1 e.2) m := by
  refine hp.foldl_eq' (fun x hx y hy z => ?_) m
  by_cases hxy : x.1 = y.1
  · rw [List.inj_on_of_nodup_map hnd hx hy hxy]
  · exact insert_comm z hxy x.2 y.2

/-- A map built by inserting entries of distinct keys holds exactly those entries, besides the
entries of the other keys it started with. -/
theorem mem_foldl_insert {xs : List (K × V)} (hnd : (xs.map Prod.fst).Nodup) (m : BTreeMap K V)
    (e : K × V) : e ∈ (xs.foldl (fun m e => m.insert e.1 e.2) m).entries ↔
      e ∈ xs ∨ e ∈ m.entries ∧ e.1 ∉ xs.map Prod.fst := by
  induction xs generalizing m with
  | nil => simp
  | cons x xs ih =>
    rw [List.map_cons, List.nodup_cons] at hnd
    rw [List.foldl_cons, ih hnd.2, insert, mem_insertEntry_iff m.sorted, List.mem_cons]
    constructor
    · rintro (h | ⟨he | ⟨h, hk⟩, hks⟩)
      · exact .inl (.inr h)
      · exact .inl (.inl he)
      · exact .inr ⟨h, by simp [hk, hks]⟩
    · rintro ((rfl | h) | ⟨h, hks⟩)
      · exact .inr ⟨.inl rfl, hnd.1⟩
      · exact .inl h
      · simp only [List.map_cons, List.mem_cons, not_or] at hks
        exact .inr ⟨.inr ⟨h, hks.1⟩, hks.2⟩

/-- Inserting entries of distinct keys into an empty map gives those entries, in key order. -/
theorem foldl_insert_entries_perm {xs : List (K × V)} (hnd : (xs.map Prod.fst).Nodup) :
    (xs.foldl (fun m e => m.insert e.1 e.2) empty).entries.Perm xs := by
  refine (List.perm_ext_iff_of_nodup (entries_nodup _) (hnd.of_map _)).2 fun e => ?_
  simp [mem_foldl_insert hnd, empty]

/-- The map visitor: the members are inserted one after the other. -/
def visitMap (key : StrCodec K) (value : Codec V) (m : BTreeMap K V)
    (es : List (String × Content)) : Except Error (BTreeMap K V) :=
  es.foldlM (fun m (ks, c) => do
    let k ← key.fromStr ks
    let v ← value.deserialize c
    pure (m.insert k v)) m

/-- The visitor reads the members of an object one after the other. -/
theorem visitMap_append_eq_bind (key : StrCodec K) (value : Codec V) (m : BTreeMap K V)
    (es₁ es₂ : List (String × Content)) :
    visitMap key value m (es₁ ++ es₂) = visitMap key value m es₁ >>= (visitMap key value · es₂) :=
  List.foldlM_append _ _ _ _

/-- A member whose key comes again later leaves no trace, once its key and value decode: the later
member's insert overwrites it, and the inserts of the other keys in between commute with it. -/
theorem visitMap_shadowed {key : StrCodec K} {value : Codec V} {ks : String} {c₁ c₂ : Content}
    {k : K} {v : V} (hk : key.fromStr ks = .ok k) (hv : value.deserialize c₁ = .ok v)
    (es₃ : List (String × Content)) :
    ∀ (es₂ : List (String × Content)) (m : BTreeMap K V),
      visitMap key value m ((ks, c₁) :: (es₂ ++ (ks, c₂) :: es₃)) =
        visitMap key value m (es₂ ++ (ks, c₂) :: es₃) := by
  intro es₂
  induction es₂ with
  | nil =>
    intro m
    simp only [visitMap, List.nil_append, List.foldlM_cons, hk, hv, ok_bind]
    cases value.deserialize c₂ with
    | error e => rfl
    | ok v₂ => simp only [ok_bind, pure_eq_ok, insert_insert]
  | cons e es₂ ih =>
    intro m
    obtain ⟨ks', c'⟩ := e
    simp only [visitMap, List.cons_append, List.foldlM_cons, hk, hv, ok_bind, pure_eq_ok] at ih ⊢
    cases key.fromStr ks' with
    | error e => rfl
    | ok k' =>
      cases value.deserialize c' with
      | error e => rfl
      | ok v' =>
        simp only [ok_bind, pure_eq_ok]
        by_cases hkk : k = k'
        · rw [hkk, insert_insert]
        · rw [insert_comm m hkk, ih]

/-- Members whose keys and values decode, to distinct keys, read as one map in any order: each
insert commutes with the inserts of the other keys. -/
theorem visitMap_perm {key : StrCodec K} {value : Codec V} {xs ys : List (String × Content)}
    (hp : xs.Perm ys)
    (hdec : ∀ x ∈ xs, ∃ k v, key.fromStr x.1 = .ok k ∧ value.deserialize x.2 = .ok v)
    (hnd : (xs.map fun x => key.fromStr x.1).Nodup) (m : BTreeMap K V) :
    visitMap key value m xs = visitMap key value m ys := by
  induction hp generalizing m with
  | nil => rfl
  | cons x _ ih =>
    obtain ⟨k, v, hk, hv⟩ := hdec x (.head _)
    simp only [visitMap, List.foldlM_cons, hk, hv, ok_bind, pure_eq_ok] at ih ⊢
    exact ih (fun y hy => hdec y (.tail _ hy)) (List.nodup_cons.1 hnd).2 _
  | swap x y l =>
    obtain ⟨kx, vx, hkx, hvx⟩ := hdec x (.tail _ (.head _))
    obtain ⟨ky, vy, hky, hvy⟩ := hdec y (.head _)
    have hne : ky ≠ kx := by
      rintro rfl
      simp [hky, hkx] at hnd
    simp only [visitMap, List.foldlM_cons, hkx, hvx, hky, hvy, ok_bind, pure_eq_ok]
    rw [insert_comm m hne]
  | trans h₁ _ ih₁ ih₂ =>
    rw [ih₁ hdec hnd, ih₂ (fun y hy => hdec y (h₁.mem_iff.2 hy)) ((h₁.map _).nodup_iff.1 hnd)]

/-- `BTreeMap`'s `Serialize` (keys through their string form) and `Deserialize`. -/
def codec (key : StrCodec K) (value : Codec V) : Codec (BTreeMap K V) where
  serialize m := .map (m.entries.map fun e => (key.toStr e.1, value.serialize e.2))
  deserialize
    | .map es => visitMap key value empty es
    | _ => .error .invalidType

/-- Inserting ascending entries after the entries of `m` appends them. -/
theorem visitMap_append {key : StrCodec K} {value : Codec V} (hk : key.RoundTrip)
    (hv : value.RoundTrip) (m : BTreeMap K V) (es : List (K × V))
    (h : (m.entries ++ es).Pairwise (·.1 < ·.1)) :
    visitMap key value m (es.map fun e => (key.toStr e.1, value.serialize e.2)) =
      .ok ⟨m.entries ++ es, h⟩ := by
  induction es generalizing m with
  | nil => simp [visitMap, ext]
  | cons e es ih =>
    have hlast : ∀ x ∈ m.entries, x.1 < e.1 := fun x hx =>
      (List.pairwise_append.1 h).2.2 x hx e (.head _)
    have hentries : (m.insert e.1 e.2).entries = m.entries ++ [e] := insertEntry_of_lt hlast
    have h' : ((m.insert e.1 e.2).entries ++ es).Pairwise (·.1 < ·.1) := by
      simpa [hentries] using h
    have step := ih (m.insert e.1 e.2) h'
    simp only [visitMap, hentries, List.append_assoc, List.singleton_append] at step
    simp only [visitMap, List.map_cons, List.foldlM_cons, hk e.1, hv e.2, ok_bind]
    exact step

/-- The map codec reads back every map it writes, the empty one included. -/
theorem codec_roundTrip {key : StrCodec K} {value : Codec V} (hk : key.RoundTrip)
    (hv : value.RoundTrip) : (codec key value).RoundTrip := fun m => by
  have h := visitMap_append hk hv empty m.entries (by simpa [empty] using m.sorted)
  simpa [codec, empty] using h

end BTreeMap

/-- `Vec<T>`: a sequence, read element by element. -/
def vec {α : Type} (c : Codec α) : Codec (List α) where
  serialize xs := .seq (xs.map c.serialize)
  deserialize
    | .seq xs => xs.mapM c.deserialize
    | _ => .error .invalidType

theorem vec_roundTrip {α : Type} {c : Codec α} (h : c.RoundTrip) : (vec c).RoundTrip := by
  intro xs
  induction xs with
  | nil => rfl
  | cons x xs ih =>
    simp only [vec, List.map_cons, List.mapM_cons, h x, ok_bind] at ih ⊢
    rw [ih]
    rfl

end RevaultNet.Serde
