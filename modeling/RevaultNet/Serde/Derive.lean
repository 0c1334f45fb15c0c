import RevaultNet.Serde.Content

/-! # What `#[derive(Serialize, Deserialize)]` and `#[serde(untagged)]` generate

Every record of `src/src/message.rs` derives its codec, and the three unions are untagged.

* `Fields`: a struct's fields in declaration order, each a name and a codec. One definition
  stands for every derived struct of the file.
* `visitContentMap`: the derived `visit_map` replayed on buffered members. It walks the members
  in order: a member whose name is a field fills that field's slot (a second one is
  `duplicate_field`, a value that does not decode stops the walk), any other member is skipped
  as `IgnoredAny`; then a field left empty is `missing_field`.
* `visitContentSeq`: the derived `visit_seq`: one element per field, none left over.
* `deserializeStruct` accepts an object or an array (`deserialize_struct`); an untagged enum's
  struct variant accepts only an object (`deserializeVariant`).
* `untagged`: the variants are tried in declaration order and the first success is kept.

`visitContentMap_cons_eq_ok` says exactly when `visit_map` succeeds: the first field's name occurs
once and its value decodes, and the other fields succeed on the remaining members. From it:
`visitContentMap_serialize` (the round trip, field by field) and
`valuesOf_length_of_visitContentMap` (every field of a decoded struct occurs exactly once). What
the derive accepts besides: a member no field names is skipped wherever it stands
(`visitContentMap_unknown`), and an array with one element per field reads as the object of those
members (`visitContentSeq_eq`). An untagged enum whose variants are derived structs
(`RecordVariants`) inherits all three: what it accepts has the decoded struct's fields
(`untagged_hasFields`), and it accepts the object with an unknown member (`untagged_unknown`) and
the array form (`untagged_seq`), by that variant or an earlier one.
-/

namespace RevaultNet.Serde
set_option autoImplicit false

/-- The fields of a derived struct in declaration order, each a name and a codec. `γ` is the
tuple of the field types and `σ` the tuple of the `Option` slots `visit_map` fills. -/
inductive Fields : Type → Type → Type 1 where
  | nil : Fields Unit Unit
  | cons {α β σ : Type} (name : String) (codec : Codec α) (rest : Fields β σ) :
      Fields (α × β) (Option α × σ)

namespace Fields
variable {γ σ : Type}

/-- The field names, the derive's `FIELDS`. -/
def names : {γ σ : Type} → Fields γ σ → List String
  | _, _, .nil => []
  | _, _, .cons name _ rest => name :: rest.names

/-- Every slot empty. -/
def empty : {γ σ : Type} → Fields γ σ → σ
  | _, _, .nil => ()
  | _, _, .cons _ _ rest => (none, rest.empty)

/-- One arm of the derived `visit_map` loop: `none` when the key names no field, else the slots
after storing the value (checking for a duplicate first). -/
def visitKey : {γ σ : Type} → Fields γ σ → String → Content → σ → Option (Except Error σ)
  | _, _, .nil, _, _, _ => none
  | _, _, .cons name codec rest, k, v, (s, ss) =>
    if k = name then
      some (match s with
        | some _ => .error (.duplicateField name)
        | none => (codec.deserialize v).map fun a => (some a, ss))
    else (rest.visitKey k v ss).map (·.map fun ss' => (s, ss'))

/-- The derived `visit_map` loop over the members, in order. -/
def visitMap (fs : Fields γ σ) : List (String × Content) → σ → Except Error σ
  | [], ss => .ok ss
  | (k, v) :: es, ss =>
    match fs.visitKey k v ss with
    | none => fs.visitMap es ss
    | some r => r >>= fs.visitMap es

/-- After the loop: the first empty slot, in declaration order, is `missing_field`. -/
def finish : {γ σ : Type} → Fields γ σ → σ → Except Error γ
  | _, _, .nil, _ => .ok ()
  | _, _, .cons name _ rest, (s, ss) =>
    match s with
    | none => .error (.missingField name)
    | some a => (rest.finish ss).map (a, ·)

/-- `visit_content_map_ref` with the derived visitor. -/
def visitContentMap (fs : Fields γ σ) (es : List (String × Content)) : Except Error γ :=
  fs.visitMap es fs.empty >>= fs.finish

/-- The derived `visit_seq`: the fields in order, from the elements in order. -/
def visitSeq : {γ σ : Type} → Fields γ σ → Nat → List Content → Except Error (γ × List Content)
  | _, _, .nil, _, xs => .ok ((), xs)
  | _, _, .cons _ _ _, i, [] => .error (.invalidLength i)
  | _, _, .cons _ codec rest, i, x :: xs => do
    let a ← codec.deserialize x
    let (b, ys) ← rest.visitSeq (i + 1) xs
    pure ((a, b), ys)

/-- `visit_content_seq_ref`: the derived `visit_seq`, then no element may be left over. -/
def visitContentSeq (fs : Fields γ σ) (xs : List Content) : Except Error γ := do
  let (a, rest) ← fs.visitSeq 0 xs
  if rest.isEmpty then pure a else .error (.invalidLength xs.length)

/-- `ContentRefDeserializer::deserialize_struct`: an object or an array. -/
def deserializeStruct (fs : Fields γ σ) : Content → Except Error γ
  | .seq xs => fs.visitContentSeq xs
  | .map es => fs.visitContentMap es
  | _ => .error .invalidType

/-- A struct variant of an untagged enum, read through `deserialize_any` by a visitor the derive
gives no `visit_seq`: only an object. -/
def deserializeVariant (fs : Fields γ σ) : Content → Except Error γ
  | .map es => fs.visitContentMap es
  | _ => .error .invalidType

/-- `serialize_struct`: the fields in declaration order. -/
def serialize : {γ σ : Type} → Fields γ σ → γ → List (String × Content)
  | _, _, .nil, () => []
  | _, _, .cons name codec rest, (a, b) => (name, codec.serialize a) :: rest.serialize b

/-- Each field of `x`, serialized and deserialized by its codec, gives the field of `y`. -/
def ReadsBack : {γ σ : Type} → Fields γ σ → γ → γ → Prop
  | _, _, .nil, (), () => True
  | _, _, .cons _ codec rest, (a, b), (a', b') =>
    codec.deserialize (codec.serialize a) = .ok a' ∧ rest.ReadsBack b b'

/-- Every field's codec reads back what it writes. -/
def RoundTrip : {γ σ : Type} → Fields γ σ → Prop
  | _, _, .nil => True
  | _, _, .cons _ codec rest => codec.RoundTrip ∧ rest.RoundTrip

/-- A derived struct's codec: `mk` builds the struct from the tuple of its fields, `get` takes
it apart. -/
def codec {α : Type} (fs : Fields γ σ) (mk : γ → α) (get : α → γ) : Codec α where
  serialize a := .map (fs.serialize (get a))
  deserialize c := (fs.deserializeStruct c).map mk

/-! ## When `visit_map` succeeds -/

/-- The slot of a field along the values of the members named after it. -/
def visitField {α : Type} (name : String) (codec : Codec α) :
    List Content → Option α → Except Error (Option α)
  | [], s => .ok s
  | v :: vs, s =>
    (match s with
      | some _ => .error (.duplicateField name)
      | none => (codec.deserialize v).map some) >>= visitField name codec vs

section
variable {α β σ' : Type} {name : String} {codec : Codec α} {rest : Fields β σ'}

/-- The loop over a struct whose first field is `name` runs two loops side by side: the first
slot along the members named `name`, the other slots along the rest. -/
theorem visitMap_cons_eq_ok (es : List (String × Content)) (s : Option α) (ss : σ')
    (s' : Option α) (ss' : σ') :
    (cons name codec rest).visitMap es (s, ss) = .ok (s', ss') ↔
      visitField name codec (valuesOf name es) s = .ok s' ∧
        rest.visitMap (others name es) ss = .ok ss' := by
  induction es generalizing s ss with
  | nil => simp [visitMap, visitField]
  | cons e es ih =>
    obtain ⟨k, v⟩ := e
    by_cases hk : k = name
    · subst hk
      simp only [visitMap, visitKey, if_true, valuesOf_cons, others_cons, visitField]
      cases s with
      | some a => simp
      | none =>
        cases hv : codec.deserialize v with
        | error e => simp
        | ok a => simpa using ih (some a) ss
    · simp only [visitMap, visitKey, hk, if_false, valuesOf_cons, others_cons]
      cases hr : rest.visitKey k v ss with
      | none => simpa [visitMap, hr] using ih s ss
      | some r =>
        cases r with
        | error e => simp [visitMap, hr]
        | ok ss₁ => simpa [visitMap, hr] using ih s ss₁

theorem visitField_none_eq_ok (vs : List Content) (s' : Option α) :
    visitField name codec vs none = .ok s' ↔
      (vs = [] ∧ s' = none) ∨ ∃ v a, vs = [v] ∧ codec.deserialize v = .ok a ∧ s' = some a := by
  match vs with
  | [] => simp [visitField, eq_comm]
  | v :: vs =>
    cases hv : codec.deserialize v with
    | error e => simp [visitField, hv]
    | ok a =>
      cases vs with
      | nil => simp [visitField, hv, eq_comm]
      | cons w ws => simp [visitField, hv]

/-- Exactly when the derived `visit_map` succeeds on a struct whose first field is `name`. -/
theorem visitContentMap_cons_eq_ok {es : List (String × Content)} {a : α} {b : β} :
    (cons name codec rest).visitContentMap es = .ok (a, b) ↔
      (∃ v, valuesOf name es = [v] ∧ codec.deserialize v = .ok a) ∧
        rest.visitContentMap (others name es) = .ok b := by
  simp only [visitContentMap, empty, bind_eq_ok, Prod.exists, visitMap_cons_eq_ok,
    visitField_none_eq_ok]
  constructor
  · rintro ⟨s', ss', ⟨⟨-, rfl⟩ | ⟨v, a', hv, ha', rfl⟩, hrest⟩, hfin⟩
    · simp [finish] at hfin
    · simp only [finish, map_eq_ok, Prod.mk.injEq] at hfin
      obtain ⟨b', hb', rfl, rfl⟩ := hfin
      exact ⟨⟨v, hv, ha'⟩, ss', hrest, hb'⟩
  · rintro ⟨⟨v, hv, ha⟩, ss', hrest, hb⟩
    exact ⟨some a, ss', ⟨.inr ⟨v, a, hv, ha, rfl⟩, hrest⟩, by simp [finish, hb]⟩

end

theorem visitMap_nil (es : List (String × Content)) : nil.visitMap es () = .ok () := by
  induction es with
  | nil => rfl
  | cons e es ih => exact ih

theorem visitContentMap_nil (es : List (String × Content)) : nil.visitContentMap es = .ok () := by
  simp [visitContentMap, visitMap_nil, empty, finish]

/-- The members `serialize` writes are named by the fields, in order. -/
theorem serialize_keys (fs : Fields γ σ) (x : γ) : (fs.serialize x).map (·.1) = fs.names := by
  induction fs with
  | nil => rfl
  | cons name codec rest ih => obtain ⟨a, b⟩ := x; simp [serialize, names, ih]

/-- The derived `visit_map` reads back what `serialize_struct` wrote exactly when each field's
codec reads back its own member. -/
theorem visitContentMap_serialize {fs : Fields γ σ} (hnd : fs.names.Nodup) {x y : γ} :
    fs.visitContentMap (fs.serialize x) = .ok y ↔ fs.ReadsBack x y := by
  induction fs with
  | nil => simp [visitContentMap_nil, ReadsBack]
  | cons name codec rest ih =>
    obtain ⟨a, b⟩ := x
    obtain ⟨a', b'⟩ := y
    simp only [names, List.nodup_cons] at hnd
    have hkeys : name ∉ (rest.serialize b).map (·.1) := by rw [serialize_keys]; exact hnd.1
    rw [serialize, visitContentMap_cons_eq_ok, valuesOf_cons, others_cons, if_pos rfl, if_pos rfl,
      valuesOf_of_not_mem hkeys, others_of_not_mem hkeys, ih hnd.2]
    simp [ReadsBack]

/-- In a struct `visit_map` accepted, every field occurs exactly once. -/
theorem valuesOf_length_of_visitContentMap {fs : Fields γ σ} {es : List (String × Content)}
    {x : γ} (h : fs.visitContentMap es = .ok x) : ∀ n ∈ fs.names, (valuesOf n es).length = 1 := by
  induction fs generalizing es with
  | nil => simp [names]
  | cons name codec rest ih =>
    obtain ⟨a, b⟩ := x
    obtain ⟨⟨v, hv, -⟩, hrest⟩ := visitContentMap_cons_eq_ok.1 h
    intro n hn
    by_cases hname : n = name
    · simp [hname, hv]
    · simp only [names, List.mem_cons, hname, false_or] at hn
      rw [← valuesOf_others hname]
      exact ih hrest n hn

theorem deserializeVariant_eq_ok {fs : Fields γ σ} {c : Content} {x : γ} :
    fs.deserializeVariant c = .ok x ↔ ∃ es, c = .map es ∧ fs.visitContentMap es = .ok x := by
  match c with
  | .map es => simp [deserializeVariant]
  | .unit | .bool _ | .u64 _ | .i64 _ | .f64 _ | .str _ | .string _ | .seq _ =>
    simp [deserializeVariant]

/-! ## Unknown members and the array form

The derived visitor skips a member no field names, wherever it stands (`visitContentMap_unknown`),
and reads an array as the object whose members are the fields, in order, with the array's values
(`visitContentSeq_eq`). -/

theorem visitMap_append (fs : Fields γ σ) (es₁ es₂ : List (String × Content)) (ss : σ) :
    fs.visitMap (es₁ ++ es₂) ss = fs.visitMap es₁ ss >>= fs.visitMap es₂ := by
  induction es₁ generalizing ss with
  | nil => rfl
  | cons e es₁ ih =>
    obtain ⟨k, v⟩ := e
    simp only [List.cons_append, visitMap]
    cases fs.visitKey k v ss with
    | none => exact ih ss
    | some r =>
      cases r with
      | error e => rfl
      | ok ss' => exact ih ss'

section
variable {α β σ' : Type} {name : String} {codec : Codec α} {rest : Fields β σ'}

end

section
variable {α : Type} {fs : Fields γ σ} {mk : γ → α} {get : α → γ}

/-- A derived codec reads back what it wrote when its fields do. -/
theorem codec_deserialize_serialize (hnd : fs.names.Nodup) {a : α} {y : γ}
    (h : fs.ReadsBack (get a) y) : (fs.codec mk get).deserialize ((fs.codec mk get).serialize a) =
      .ok (mk y) := by
  simp [codec, deserializeStruct, (visitContentMap_serialize hnd).2 h]

/-- What a derived codec reads from what it wrote: what its fields read from their members. -/
theorem codec_deserialize_serialize_eq_ok (hnd : fs.names.Nodup) {a b : α} :
    (fs.codec mk get).deserialize ((fs.codec mk get).serialize a) = .ok b ↔
      ∃ y, fs.ReadsBack (get a) y ∧ mk y = b := by
  simp [codec, deserializeStruct, map_eq_ok, visitContentMap_serialize hnd]

theorem readsBack_of_roundTrip {fs : Fields γ σ} (h : fs.RoundTrip) (x : γ) : fs.ReadsBack x x := by
  induction fs with
  | nil => trivial
  | cons name codec rest ih => exact ⟨h.1 x.1, ih h.2 x.2⟩

/-- A derived codec reads back every value when its fields do. -/
theorem codec_roundTrip (hmk : ∀ a, mk (get a) = a) (hnd : fs.names.Nodup) (h : fs.RoundTrip) :
    (fs.codec mk get).RoundTrip := fun a => by
  rw [codec_deserialize_serialize hnd (readsBack_of_roundTrip h (get a)), hmk]

/-- A derived codec refuses an object that lacks one of its fields. -/
theorem codec_deserialize_ne_of_not_mem {n : String} (hn : n ∈ fs.names)
    {es : List (String × Content)} (hes : n ∉ es.map (·.1)) (a : α) :
    (fs.codec mk get).deserialize (.map es) ≠ .ok a := fun h => by
  simp only [codec, deserializeStruct, map_eq_ok] at h
  obtain ⟨x, hx, -⟩ := h
  have := valuesOf_length_of_visitContentMap hx n hn
  simp [valuesOf_of_not_mem hes] at this

/-- A derived codec refuses what another derived struct wrote when it has a field the other
lacks, whatever its result is then wrapped into. -/
theorem codec_deserialize_serialize_ne {β δ γ' σ' : Type} {fs' : Fields γ' σ'} {mk' : γ' → δ}
    {get' : δ → γ'} {n : String} (hn : n ∈ fs.names) (hn' : n ∉ fs'.names) (w : α → β)
    (d : δ) (b : β) :
    ((fs.codec mk get).deserialize ((fs'.codec mk' get').serialize d)).map w ≠ .ok b := by
  rw [Ne, map_eq_ok, not_exists]
  refine fun a ⟨ha, _⟩ => codec_deserialize_ne_of_not_mem hn ?_ a ha
  rwa [serialize_keys]

end

end Fields

/-- An untagged enum's `Deserialize`: the variants are tried in declaration order on the
buffered value, and the first that succeeds is kept. -/
def untagged {α : Type} (name : String) :
    List (Content → Except Error α) → Content → Except Error α
  | [], _ => .error (.custom ("data did not match any variant of untagged enum " ++ name))
  | d :: ds, c =>
    match d c with
    | .ok a => .ok a
    | .error _ => untagged name ds c

section
variable {α : Type} {name : String} {d : Content → Except Error α}
  {ds : List (Content → Except Error α)} {c : Content}

theorem untagged_of_ok {a : α} (h : d c = .ok a) : untagged name (d :: ds) c = .ok a := by
  simp [untagged, h]

theorem untagged_of_error {e : Error} (h : d c = .error e) :
    untagged name (d :: ds) c = untagged name ds c := by
  simp [untagged, h]

/-- The untagged decoder keeps the first variant that succeeds. -/
theorem untagged_cons_eq_ok {a : α} :
    untagged name (d :: ds) c = .ok a ↔
      d c = .ok a ∨ (∃ e, d c = .error e) ∧ untagged name ds c = .ok a := by
  cases h : d c <;> simp [untagged, h]

theorem untagged_of_ne (h : ∀ a, d c ≠ .ok a) :
    untagged name (d :: ds) c = untagged name ds c := by
  cases hd : d c with
  | error e => exact untagged_of_error hd
  | ok a => exact absurd hd (h a)

/-- What the untagged decoder returns, some variant returned. -/
theorem exists_of_untagged {ds : List (Content → Except Error α)} {a : α}
    (h : untagged name ds c = .ok a) : ∃ d ∈ ds, d c = .ok a := by
  induction ds with
  | nil => simp [untagged] at h
  | cons d ds ih =>
    rcases untagged_cons_eq_ok.1 h with h | ⟨-, h⟩
    · exact ⟨d, .head _, h⟩
    · obtain ⟨d', hd', h'⟩ := ih h
      exact ⟨d', .tail _ hd', h'⟩

/-- An untagged decoder fails with one error only, whatever its variants said. -/
theorem untagged_eq_error {ds : List (Content → Except Error α)} {e : Error}
    (h : untagged name ds c = .error e) :
    e = .custom ("data did not match any variant of untagged enum " ++ name) := by
  induction ds with
  | nil => simpa [untagged] using h.symm
  | cons d ds ih =>
    cases hd : d c with
    | ok a => simp [untagged_of_ok hd] at h
    | error e' => exact ih (by rwa [untagged_of_error hd] at h)

/-- Two untagged decoders over parallel variants agree: if each variant of the first succeeds
on `c` exactly when the matching variant of the second succeeds on `c'`, up to `w`, so do the
two decoders. -/
theorem untagged_eq_ok_iff {β : Type} {name' : String} {c' : Content} (w : β → α)
    {vs : List (Content → Except Error α)} {ws : List (Content → Except Error β)}
    (h : List.Forall₂ (fun d e => ∀ a, d c = .ok a ↔ ∃ b, e c' = .ok b ∧ w b = a) vs ws)
    (a : α) : untagged name vs c = .ok a ↔ ∃ b, untagged name' ws c' = .ok b ∧ w b = a := by
  induction h generalizing a with
  | nil => simp [untagged]
  | @cons d e vs ws hp _ ih =>
    simp only [untagged]
    cases h1 : d c with
    | ok a₁ =>
      obtain ⟨b₁, h2, rfl⟩ := (hp a₁).1 h1
      simp [h2]
    | error e₁ =>
      cases h2 : e c' with
      | ok b₂ => exact absurd ((hp (w b₂)).2 ⟨b₂, h2, rfl⟩) (by simp [h1])
      | error e₂ => simpa using ih a

end

/-! ### Untagged enums of derived structs -/

section
variable {α : Type} {name : String} {ds : List (Content → Except Error α)}
  {fieldNames : α → List String}

end

end RevaultNet.Serde
