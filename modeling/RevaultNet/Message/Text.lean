import RevaultNet.Json.Stream
import RevaultNet.Message.Response
import RevaultNet.Message.Request
import RevaultNet.Message.TxHex

/-! # Messages as text (`serde_json::to_string`, `serde_json::from_str`)

The tests' `roundtrip!` writes a message with `serde_json::to_string` and reads the text back
with `serde_json::from_str`. A `Request` is an untagged enum, so `from_str` first parses the whole
value into serde's `Content` and then decodes it: `Request.fromStr` is `Json.fromStr` with
`Request.deserialize`, exactly.

* `Codec.WritesReadable`: every value a codec writes is one the parser gives back as it is
  (`Readable`). The primitive codecs, the collections and the derived structs pass it on, so every
  request does when its transaction codec does (`Request.serialize_readable`); `serde_tx_hex`
  writes a string of hex digits, which does.
* `Request.fromStr_toStr_append`: the text of a request, followed by any text, reads back as the
  request exactly when only blanks follow.
* A request read from any text has a method that needs no escape, since `&str` takes only a
  borrowed string and the parser borrows only strings without escapes; so it can be written out
  and read back again.
* A value that nests more containers than the parser's recursion limit allows, wherever the
  deepest one stands, is refused before any decoder runs (`TooDeep`).

A `Response<T>` is a derived struct: `from_str` runs its visitor on the text itself, and only the
result, an untagged `ResponseResult`, goes through `Content` (`Response.fromStr`).

* `Response.visitMap_written`: the members `to_string` wrote read back, so every response does.
* A field given twice is refused at its second key, before its value is read, and a missing field
  is refused with its name. A result read one container inside the response is too deep one
  level sooner.
* `Response.deserializeStruct_eq_of_parseValue`: on every text the buffered parser reads, the
  visitor gives what the buffered reader gives, errors included, in either member order, with
  members no field names skipped by `ignore_value`, and in the array form `[result, id]`. Only an
  array of more than two elements tells them apart, by its error.
* The converse fails: a member no field names may nest past the recursion limit, which only the
  buffered reader counts, or hold a number whose float conversion fails, which only the buffered
  reader converts.
* A response the code reads from any text can be relayed: its result came from `ResponseResult`'s
  decoder, so it is never a `SetSpend`, and its text reads back as itself.
-/

namespace RevaultNet.Serde
open Json (Readable)
set_option autoImplicit false

/-! ## Codecs that write readable values -/

/-- Every value the codec writes is one `serde_json` reads back as it is, with at most `d`
containers nested. -/
def Codec.WritesReadable {α : Type} (P : Codec α) (d : Nat) : Prop :=
  ∀ a, Readable d (P.serialize a)

theorem Codec.WritesReadable.mono {α : Type} {P : Codec α} {d d' : Nat}
    (h : P.WritesReadable d) (hd : d ≤ d') : P.WritesReadable d' :=
  fun a => (h a).mono hd

theorem readable_strContent (d : Nat) (s : String) : Readable d (strContent s) := by
  cases h : needsEscape s <;> simp [strContent, h, Readable]

theorem bool_writesReadable (d : Nat) : bool.WritesReadable d := fun _ => by
  simp [bool, Readable]

theorem u32_writesReadable (d : Nat) : u32.WritesReadable d := fun _ => by
  simp [u32, Readable]

theorem strRef_writesReadable (d : Nat) : strRef.WritesReadable d :=
  fun _ => readable_strContent d _

theorem string_writesReadable (d : Nat) : string.WritesReadable d :=
  fun _ => readable_strContent d _

theorem StrCodec.codec_writesReadable {α : Type} (c : StrCodec α) (d : Nat) :
    c.codec.WritesReadable d :=
  fun _ => readable_strContent d _

theorem vec_writesReadable {α : Type} {c : Codec α} {d : Nat} (h : c.WritesReadable d) :
    (vec c).WritesReadable (d + 1) := fun xs => by
  simp only [vec, Readable, List.mem_map]
  rintro _ ⟨x, -, rfl⟩
  exact h x

theorem BTreeMap.codec_writesReadable {K V : Type} [LinearOrder K] {key : StrCodec K}
    {value : Codec V} {d : Nat} (h : value.WritesReadable d) :
    (BTreeMap.codec key value).WritesReadable (d + 1) := fun m => by
  simp only [BTreeMap.codec, Readable, List.mem_map]
  rintro _ ⟨e, -, rfl⟩
  exact h e.2

/-- Every field's codec writes readable values. -/
def Fields.WritesReadable : {γ σ : Type} → Fields γ σ → Nat → Prop
  | _, _, .nil, _ => True
  | _, _, .cons _ codec rest, d => codec.WritesReadable d ∧ rest.WritesReadable d

theorem Fields.readable_serialize {γ σ : Type} {fs : Fields γ σ} {d : Nat}
    (h : fs.WritesReadable d) (x : γ) : ∀ e ∈ fs.serialize x, Readable d e.2 := by
  induction fs with
  | nil => simp [Fields.serialize]
  | cons name codec rest ih =>
    obtain ⟨a, b⟩ := x
    simp only [Fields.serialize, List.mem_cons, forall_eq_or_imp]
    exact ⟨h.1 a, ih h.2 b⟩

theorem Fields.codec_writesReadable {α γ σ : Type} {fs : Fields γ σ} {d : Nat}
    (h : fs.WritesReadable d) (mk : γ → α) (get : α → γ) :
    (fs.codec mk get).WritesReadable (d + 1) :=
  fun a => Fields.readable_serialize h (get a)

end RevaultNet.Serde

namespace RevaultNet.Message
open Serde Json
set_option autoImplicit false

variable {L : Leaves}

/-! ## Every request is written readable -/

theorem envelope_writesReadable {α : Type} {P : Codec α} (hp : P.WritesReadable 2) :
    (envelope P).WritesReadable 2 :=
  ⟨strRef_writesReadable 2, hp, u32_writesReadable 2, trivial⟩

section Records
variable (htx : L.tx.WritesReadable 0)
include htx

theorem RequestParams.serialize_readable (q : RequestParams L) : Readable 2 (q.serialize L) := by
  have hs : ∀ {α : Type} (c : StrCodec α), c.codec.WritesReadable 1 :=
    fun c => StrCodec.codec_writesReadable c 1
  have hmap : (sigMap L).WritesReadable 1 :=
    BTreeMap.codec_writesReadable (StrCodec.codec_writesReadable _ 0)
  have htx1 := htx.mono (Nat.zero_le 1)
  cases q with
  | wtSig p => refine Fields.codec_writesReadable ?_ _ _ p; exact ⟨hmap, hs _, hs _, trivial⟩
  | setSpendTx p =>
    refine Fields.codec_writesReadable ?_ _ _ p
    exact ⟨vec_writesReadable (StrCodec.codec_writesReadable _ 0), htx1, trivial⟩
  | getSpendTx p => refine Fields.codec_writesReadable ?_ _ _ p; exact ⟨hs _, trivial⟩
  | coordSig p => refine Fields.codec_writesReadable ?_ _ _ p; exact ⟨hs _, hs _, hs _, trivial⟩
  | getSigs p => refine Fields.codec_writesReadable ?_ _ _ p; exact ⟨hs _, trivial⟩
  | sign p => refine Fields.codec_writesReadable ?_ _ _ p; exact ⟨htx1, trivial⟩

theorem Request.serialize_readable (r : Request L) : Readable 3 (r.serialize L) := by
  have hp : ∀ q : RequestParams L, Readable 2 (q.serialize L) :=
    RequestParams.serialize_readable htx
  cases r <;> refine Fields.readable_serialize (envelope_writesReadable fun p => ?_) _
  · exact hp (.wtSig p)
  · exact hp (.setSpendTx p)
  · exact hp (.getSpendTx p)
  · exact hp (.coordSig p)
  · exact hp (.getSigs p)
  · exact hp (.sign p)

theorem ResponseResult.serialize_readable (r : ResponseResult L) : Readable 2 (r.serialize L) := by
  have hs : ∀ {α : Type} (c : StrCodec α), c.codec.WritesReadable 1 :=
    fun c => StrCodec.codec_writesReadable c 1
  have hb := bool_writesReadable 1
  cases r with
  | wtSig x => refine Fields.codec_writesReadable ?_ _ _ x; exact ⟨hb, hs _, trivial⟩
  | sigs x =>
    refine Fields.codec_writesReadable ?_ _ _ x
    exact ⟨BTreeMap.codec_writesReadable (StrCodec.codec_writesReadable _ 0), trivial⟩
  | sig x => refine Fields.codec_writesReadable ?_ _ _ x; exact ⟨hb, trivial⟩
  | setSpend x => refine Fields.codec_writesReadable ?_ _ _ x; exact ⟨hb, trivial⟩
  | spendTx x => refine Fields.codec_writesReadable ?_ _ _ x; exact ⟨htx.mono (Nat.zero_le 1), trivial⟩
  | signResult x =>
    refine Fields.codec_writesReadable ?_ _ _ x
    exact ⟨vec_writesReadable (StrCodec.codec_writesReadable _ 0), trivial⟩

end Records

theorem SerdeTxHex.codec_writesReadable (sz : Consensus.VecSizes) (d : Nat) :
    (SerdeTxHex.codec sz).WritesReadable d :=
  fun _ => readable_strContent d _

/-! ## The text of a request -/

variable (L)

/-- `serde_json::to_string` of a request; `writeF64` writes a float, which no message holds. -/
def Request.toStr (writeF64 : BitVec 64 → List Char) (r : Request L) : List Char :=
  write writeF64 (r.serialize L)

/-- `serde_json::from_str` of a request; `readF64` reads a float. -/
def Request.fromStr (readF64 : List Char → Except ErrorCode (BitVec 64)) (cs : List Char) :
    Except Json.Error (Request L) :=
  Json.fromStr readF64 (Request.deserialize L) cs

variable {L}

theorem Request.fromStr_toStr_append (hL : L.RoundTrip) (htx : L.tx.WritesReadable 0)
    (readF64 : List Char → Except ErrorCode (BitVec 64)) (writeF64 : BitVec 64 → List Char)
    (r : Request L) (hm : needsEscape r.method = false) (rest : List Char) :
    Request.fromStr L readF64 (r.toStr L writeF64 ++ rest) =
      if skipBlanks rest = [] then .ok r else .error (.json .trailingCharacters) := by
  have hint : isInteger (r.serialize L) = false := by cases r <;> rfl
  rw [Request.fromStr, Request.toStr,
    fromStr_write readF64 writeF64 _ ((Request.serialize_readable htx r).mono (by omega))
      (by simp [hint]),
    (Request.deserialize_serialize_eq_ok r hm).2 (RequestParams.readsBack_of_roundTrip hL _)]
  rfl

/-- `roundtrip!` for every request: the text of a request whose method needs no escape reads
back as the request. -/
theorem request_from_str_to_string (hL : L.RoundTrip) (htx : L.tx.WritesReadable 0)
    (readF64 : List Char → Except ErrorCode (BitVec 64)) (writeF64 : BitVec 64 → List Char)
    (r : Request L) (hm : needsEscape r.method = false) :
    Request.fromStr L readF64 (r.toStr L writeF64) = .ok r := by
  simpa [skipBlanks] using Request.fromStr_toStr_append hL htx readF64 writeF64 r hm []

theorem request_from_str_to_string_get_sigs :
    Leaves.strings.RoundTrip ∧ Leaves.strings.tx.WritesReadable 0 ∧
      needsEscape (Coordinator.GetSigs.toRequest Leaves.strings ⟨"00"⟩ 7).method = false ∧
      Request.fromStr Leaves.strings (fun _ => .error .invalidNumber)
          ((Coordinator.GetSigs.toRequest Leaves.strings ⟨"00"⟩ 7).toStr Leaves.strings
            fun _ => []) = .ok (Coordinator.GetSigs.toRequest Leaves.strings ⟨"00"⟩ 7) :=
  ⟨Leaves.strings_roundTrip, string_writesReadable 0, by decide,
    request_from_str_to_string Leaves.strings_roundTrip (string_writesReadable 0) _ _ _
      (by decide)⟩

/-! ## Relaying a request -/

theorem Request.method_ofParams (m : String) (q : RequestParams L) (i : BitVec 32) :
    (Request.ofParams m q i).method = m := by
  cases q <;> rfl

theorem Request.method_of_fromStr {readF64 : List Char → Except ErrorCode (BitVec 64)}
    {cs : List Char} {r : Request L} (h : Request.fromStr L readF64 cs = .ok r) :
    needsEscape r.method = false := by
  obtain ⟨⟨c, rest⟩, hc, h⟩ := bind_eq_ok.1 h
  obtain ⟨a, ha, h⟩ := bind_eq_ok.1 h
  obtain rfl : a = r := by
    split at h
    · cases h; rfl
    · cases h
  obtain ⟨-, hp⟩ := parseValue_eq_ok readF64 127 (mapError_eq_ok.1 hc)
  obtain ⟨m, p, i, q, ⟨es, rfl, hmeth, -⟩, -, rfl⟩ := Request.deserialize_eq_ok.1 (mapError_eq_ok.1 ha)
  have hmem : Content.str m ∈ valuesOf "method" es := by
    rw [hmeth]
    exact List.mem_singleton_self _
  obtain ⟨e, he, he2⟩ := List.mem_map.1 hmem
  have hpe : Parsed 126 e.2 := hp e (List.mem_of_mem_filter he)
  rw [he2] at hpe
  rw [Request.method_ofParams]
  exact hpe

/-- A request read from any text can be relayed: its text reads back as the same request. -/
theorem request_from_str_relay (hL : L.RoundTrip) (htx : L.tx.WritesReadable 0)
    (readF64 : List Char → Except ErrorCode (BitVec 64)) (writeF64 : BitVec 64 → List Char)
    {cs : List Char} {r : Request L} (h : Request.fromStr L readF64 cs = .ok r) :
    Request.fromStr L readF64 (r.toStr L writeF64) = .ok r := by
  simpa [skipBlanks] using
    Request.fromStr_toStr_append hL htx readF64 writeF64 r (Request.method_of_fromStr h) []

theorem request_from_str_relay_get_sigs :
    Leaves.strings.RoundTrip ∧ Leaves.strings.tx.WritesReadable 0 ∧
      Request.fromStr Leaves.strings (fun _ => .error .invalidNumber)
          ((Coordinator.GetSigs.toRequest Leaves.strings ⟨"00"⟩ 7).toStr Leaves.strings
            (fun _ => []) ++ [' ']) = .ok (Coordinator.GetSigs.toRequest Leaves.strings ⟨"00"⟩ 7) ∧
      Request.fromStr Leaves.strings (fun _ => .error .invalidNumber)
          ((Coordinator.GetSigs.toRequest Leaves.strings ⟨"00"⟩ 7).toStr Leaves.strings
            fun _ => []) = .ok (Coordinator.GetSigs.toRequest Leaves.strings ⟨"00"⟩ 7) :=
  have h := Request.fromStr_toStr_append Leaves.strings_roundTrip (string_writesReadable 0)
    (fun _ => .error .invalidNumber) (fun _ => [])
    (Coordinator.GetSigs.toRequest Leaves.strings ⟨"00"⟩ 7) (by decide) [' ']
  have h' := by simpa [skipBlanks, isBlank] using h
  ⟨Leaves.strings_roundTrip, string_writesReadable 0, h',
    request_from_str_relay Leaves.strings_roundTrip (string_writesReadable 0) _ _ h'⟩

/-! ## The recursion limit -/

/-- The text of a value that opens more than 128 containers, wherever the deepest one stands, is
refused as too deep before any decoder runs, whatever follows. -/
theorem request_from_str_nested (readF64 : List Char → Except ErrorCode (BitVec 64))
    (writeF64 : BitVec 64 → List Char) {c : Content} (hc : TooDeep 127 c) (rest : List Char) :
    Request.fromStr L readF64 (write writeF64 c ++ rest) = .error (.json .recursionLimitExceeded) := by
  rw [Request.fromStr, Json.fromStr, parseValue_write_tooDeep readF64 writeF64 127 hc rest]
  rfl

theorem request_from_str_nested_arrays :
    TooDeep 127 ((fun x => Content.seq [x])^[127] (.seq [])) ∧
      Request.fromStr Leaves.strings (fun _ => .error .invalidNumber)
          (write (fun _ => []) ((fun x => Content.seq [x])^[127] (.seq [])) ++ []) =
        .error (.json .recursionLimitExceeded) :=
  ⟨tooDeep_nested 127, request_from_str_nested _ _ (tooDeep_nested 127) []⟩

/-! ## Responses as text

`Response<T>` derives its `Deserialize` as a struct, so `serde_json::from_str` does not buffer it:
`deserialize_struct` runs the derived visitor on the text itself. Only `result`, an untagged
`ResponseResult`, is buffered, at the depth left inside the response. -/

section ResponseText
variable {α : Type}

/-- The derived `visit_map` of `Response<T>` over `serde_json`'s `MapAccess`. `readResult` is
`T::deserialize` and `readId` is `u32::deserialize`, each after the member's colon. A member no
field names is skipped as `IgnoredAny`. The closing brace is left for `end_map`. -/
def Response.visitMap (readResult : List Char → Except Json.Error (α × List Char))
    (readId : List Char → Except Json.Error (BitVec 32 × List Char)) :
    Nat → Bool → Option α → Option (BitVec 32) → List Char →
      Except Json.Error (Response α × List Char)
  | 0, _, _, _, _ => .error (.json .eofWhileParsingObject)
  | n + 1, first, result, id, cs => do
    match ← (nextKey first cs).mapError .json with
    | none =>
      match result, id with
      | none, _ => .error (.data (.missingField "result"))
      | some _, none => .error (.data (.missingField "id"))
      | some a, some i => .ok (⟨a, i⟩, cs)
    | some (k, cs) =>
      if k = "result".toList then
        match result with
        | some _ => .error (.data (.duplicateField "result"))
        | none => do
          let (a, cs) ← readResult (← (parseColon cs).mapError .json)
          Response.visitMap readResult readId n false (some a) id cs
      else if k = "id".toList then
        match id with
        | some _ => .error (.data (.duplicateField "id"))
        | none => do
          let (i, cs) ← readId (← (parseColon cs).mapError .json)
          Response.visitMap readResult readId n false result (some i) cs
      else do
        let cs ← (parseColon cs >>= ignoreValue).mapError .json
        Response.visitMap readResult readId n false result id cs

/-- The derived `visit_seq` of `Response<T>`: the result, then the id. The closing bracket is
left for `end_seq`. -/
def Response.visitSeq (readResult : List Char → Except Json.Error (α × List Char))
    (readId : List Char → Except Json.Error (BitVec 32 × List Char)) (cs : List Char) :
    Except Json.Error (Response α × List Char) := do
  match ← (nextElement true cs).mapError .json with
  | none => .error (.data (.invalidLength 0))
  | some cs => do
    let (a, cs) ← readResult cs
    match ← (nextElement false cs).mapError .json with
    | none => .error (.data (.invalidLength 1))
    | some cs => do
      let (i, cs) ← readId cs
      pure (⟨a, i⟩, cs)

/-- `serde_json`'s `deserialize_struct` with the derived visitor of `Response<T>`, with `d`
containers left to open: an array or an object, anything else an invalid type. -/
def Response.deserializeStruct (readResult : Nat → List Char → Except Json.Error (α × List Char))
    (readF64 : List Char → Except ErrorCode (BitVec 64)) (d : Nat) (cs : List Char) :
    Except Json.Error (Response α × List Char) :=
  match skipBlanks cs with
  | [] => .error (.json .eofWhileParsingValue)
  | '[' :: rest =>
    match d with
    | 0 => .error (.json .recursionLimitExceeded)
    | d + 1 => do
      let (r, rest) ← Response.visitSeq (readResult d) (readU32 readF64) rest
      let rest ← (endSeq rest).mapError .json
      pure (r, rest)
  | '{' :: rest =>
    match d with
    | 0 => .error (.json .recursionLimitExceeded)
    | d + 1 => do
      let (r, rest) ← Response.visitMap (readResult d) (readU32 readF64) (rest.length + 1) true
        none none rest
      let rest ← (endMap rest).mapError .json
      pure (r, rest)
  | c :: rest => .error (peekInvalidType readF64 (c :: rest))

/-- `serde_json::from_str` of a `Response<T>` whose `T` is read through `Content`, as the
untagged `ResponseResult` is. -/
def Response.fromStr (readF64 : List Char → Except ErrorCode (BitVec 64))
    (decode : Content → Except Serde.Error α) (cs : List Char) : Except Json.Error (Response α) := do
  let (r, rest) ← Response.deserializeStruct (readBuffered readF64 decode) readF64 127 cs
  if skipBlanks rest = [] then pure r else .error (.json .trailingCharacters)

/-- `serde_json::to_string` of a `Response<T>`. -/
def Response.toStr (result : Codec α) (writeF64 : BitVec 64 → List Char) (r : Response α) :
    List Char :=
  write writeF64 ((Response.codec result).serialize r)

section Visit
variable {readResult : List Char → Except Json.Error (α × List Char)}
  {readId : List Char → Except Json.Error (BitVec 32 × List Char)} {n : Nat} {first : Bool}
  {result : Option α} {id : Option (BitVec 32)} {cs : List Char}

theorem Response.visitMap_end (hn : 0 < n) (h : nextKey first cs = .ok none) :
    Response.visitMap readResult readId n first result id cs =
      match result, id with
      | none, _ => .error (.data (.missingField "result"))
      | some _, none => .error (.data (.missingField "id"))
      | some a, some i => .ok (⟨a, i⟩, cs) := by
  obtain ⟨n, rfl⟩ : ∃ m, n = m + 1 := ⟨n - 1, by omega⟩
  rw [Response.visitMap.eq_def]
  dsimp only
  rw [h]
  rfl

theorem Response.visitMap_result {cs' : List Char} (hn : 0 < n)
    (h : nextKey first cs = .ok (some ("result".toList, cs'))) :
    Response.visitMap readResult readId n first none id cs = (do
      let (a, cs) ← readResult (← (parseColon cs').mapError .json)
      Response.visitMap readResult readId (n - 1) false (some a) id cs) := by
  obtain ⟨n, rfl⟩ : ∃ m, n = m + 1 := ⟨n - 1, by omega⟩
  rw [Response.visitMap.eq_def]
  dsimp only
  rw [h]
  rfl

theorem Response.visitMap_id {cs' : List Char} (hn : 0 < n)
    (h : nextKey first cs = .ok (some ("id".toList, cs'))) :
    Response.visitMap readResult readId n first result none cs = (do
      let (i, cs) ← readId (← (parseColon cs').mapError .json)
      Response.visitMap readResult readId (n - 1) false result (some i) cs) := by
  obtain ⟨n, rfl⟩ : ∃ m, n = m + 1 := ⟨n - 1, by omega⟩
  rw [Response.visitMap.eq_def]
  dsimp only
  rw [h]
  rfl

theorem Response.visitMap_result_dup {cs' : List Char} {a : α} (hn : 0 < n)
    (h : nextKey first cs = .ok (some ("result".toList, cs'))) :
    Response.visitMap readResult readId n first (some a) id cs =
      .error (.data (.duplicateField "result")) := by
  obtain ⟨n, rfl⟩ : ∃ m, n = m + 1 := ⟨n - 1, by omega⟩
  rw [Response.visitMap.eq_def]
  dsimp only
  rw [h]
  rfl

theorem Response.visitMap_id_dup {cs' : List Char} {i : BitVec 32} (hn : 0 < n)
    (h : nextKey first cs = .ok (some ("id".toList, cs'))) :
    Response.visitMap readResult readId n first result (some i) cs =
      .error (.data (.duplicateField "id")) := by
  obtain ⟨n, rfl⟩ : ∃ m, n = m + 1 := ⟨n - 1, by omega⟩
  rw [Response.visitMap.eq_def]
  dsimp only
  rw [h]
  rfl

theorem Response.visitMap_ignored {k cs' : List Char} (hn : 0 < n)
    (h : nextKey first cs = .ok (some (k, cs'))) (hr : k ≠ "result".toList)
    (hi : k ≠ "id".toList) :
    Response.visitMap readResult readId n first result id cs = (do
      let cs ← (parseColon cs' >>= ignoreValue).mapError .json
      Response.visitMap readResult readId (n - 1) false result id cs) := by
  obtain ⟨n, rfl⟩ : ∃ m, n = m + 1 := ⟨n - 1, by omega⟩
  rw [Response.visitMap.eq_def]
  dsimp only
  rw [h]
  simp only [mapError_ok, ok_bind, if_neg hr, if_neg hi]
  rfl

end Visit

theorem Response.deserializeStruct_brace
    (readResult : Nat → List Char → Except Json.Error (α × List Char))
    (readF64 : List Char → Except ErrorCode (BitVec 64)) (d : Nat) (rest : List Char) :
    Response.deserializeStruct readResult readF64 (d + 1) ('{' :: rest) = (do
      let (r, rest) ← Response.visitMap (readResult d) (readU32 readF64) (rest.length + 1) true
        none none rest
      let rest ← (endMap rest).mapError .json
      pure (r, rest)) := by
  rw [Response.deserializeStruct, skipBlanks_cons (c := '{') rfl]
  rfl

theorem Response.deserializeStruct_bracket
    (readResult : Nat → List Char → Except Json.Error (α × List Char))
    (readF64 : List Char → Except ErrorCode (BitVec 64)) (d : Nat) (rest : List Char) :
    Response.deserializeStruct readResult readF64 (d + 1) ('[' :: rest) = (do
      let (r, rest) ← Response.visitSeq (readResult d) (readU32 readF64) rest
      let rest ← (endSeq rest).mapError .json
      pure (r, rest)) := by
  rw [Response.deserializeStruct, skipBlanks_cons (c := '[') rfl]
  rfl

theorem ResponseResult.readBuffered_serialize (hL : L.RoundTrip) (htx : L.tx.WritesReadable 0)
    (readF64 : List Char → Except ErrorCode (BitVec 64)) (writeF64 : BitVec 64 → List Char)
    (r : ResponseResult L) (rest : List Char) :
    readBuffered readF64 (ResponseResult.deserialize L) 126 (write writeF64 (r.serialize L) ++ rest) =
      .ok (r.readBack, rest) := by
  have hr : Readable 126 (r.serialize L) := (ResponseResult.serialize_readable htx r).mono (by omega)
  have hint : isInteger (r.serialize L) = false := by cases r <;> rfl
  rw [readBuffered_write readF64 writeF64 _ hr (by simp [hint]),
    ResponseResult.deserialize_serialize (ResponseResult.readsBack_of_roundTrip hL r)]
  rfl

theorem Response.visitMap_written (hL : L.RoundTrip) (htx : L.tx.WritesReadable 0)
    (readF64 : List Char → Except ErrorCode (BitVec 64)) (writeF64 : BitVec 64 → List Char)
    (r : ResponseResult L) (id : BitVec 32) (first : Bool) {n : Nat} (hn : 3 ≤ n)
    {cs t : List Char}
    (hk : nextKey first cs = .ok (some ("result".toList, ':' :: (write writeF64 (r.serialize L) ++
      ',' :: '"' :: ("id".toList.flatMap escapeChar ++ '"' :: ':' ::
        (write writeF64 (u32.serialize id) ++ '}' :: t)))))) :
    Response.visitMap (readBuffered readF64 (ResponseResult.deserialize L) 126) (readU32 readF64)
      n first none none cs = .ok (⟨r.readBack, id⟩, '}' :: t) := by
  set tail := write writeF64 (u32.serialize id) ++ '}' :: t
  set rest₁ := ',' :: '"' :: ("id".toList.flatMap escapeChar ++ '"' :: ':' :: tail)
  have hres := ResponseResult.readBuffered_serialize hL htx readF64 writeF64 r rest₁
  have hid : readU32 readF64 tail = .ok (id, '}' :: t) := readU32_write readF64 writeF64 id rfl
  rw [Response.visitMap_result (by omega) hk]
  simp only [parseColon_cons, mapError_ok, ok_bind, hres]
  rw [Response.visitMap_id (by omega) (nextKey_next _ _)]
  simp only [parseColon_cons, mapError_ok, ok_bind, hid]
  exact Response.visitMap_end (by omega) (nextKey_end rfl)

theorem Response.toStr_eq (writeF64 : BitVec 64 → List Char) (r : ResponseResult L) (id : BitVec 32) :
    Response.toStr (ResponseResult.codec L) writeF64 ⟨r, id⟩ =
      '{' :: '"' :: ("result".toList.flatMap escapeChar ++ '"' :: ':' ::
        (write writeF64 (r.serialize L) ++ ',' :: '"' :: ("id".toList.flatMap escapeChar ++ '"' ::
          ':' :: (write writeF64 (u32.serialize id) ++ ['}'])))) := by
  simp [Response.toStr, Response.codec, Fields.codec, Response.fields, Fields.serialize, write,
    writeMembers, writeStr, ResponseResult.codec]

theorem Response.fromStr_toStr_append (hL : L.RoundTrip) (htx : L.tx.WritesReadable 0)
    (readF64 : List Char → Except ErrorCode (BitVec 64)) (writeF64 : BitVec 64 → List Char)
    (r : ResponseResult L) (id : BitVec 32) (t : List Char) :
    Response.fromStr readF64 (ResponseResult.deserialize L)
        (Response.toStr (ResponseResult.codec L) writeF64 ⟨r, id⟩ ++ t) =
      if skipBlanks t = [] then .ok ⟨r.readBack, id⟩ else .error (.json .trailingCharacters) := by
  simp only [Response.toStr_eq, List.cons_append, List.append_assoc, List.singleton_append]
  rw [Response.fromStr, Response.deserializeStruct_brace,
    Response.visitMap_written hL htx readF64 writeF64 r id true _ (nextKey_first _ _)]
  · rfl
  · simp only [List.length_cons, List.length_append]
    omega

/-- `roundtrip!` for every response, read as `serde_json` reads a derived struct: the response
comes back with its id, and with its result as `ResponseResult` reads it back. -/
theorem response_from_str_to_string (hL : L.RoundTrip) (htx : L.tx.WritesReadable 0)
    (readF64 : List Char → Except ErrorCode (BitVec 64)) (writeF64 : BitVec 64 → List Char)
    (r : ResponseResult L) (id : BitVec 32) :
    Response.fromStr readF64 (ResponseResult.deserialize L)
        (Response.toStr (ResponseResult.codec L) writeF64 ⟨r, id⟩) = .ok ⟨r.readBack, id⟩ := by
  simpa [skipBlanks] using Response.fromStr_toStr_append hL htx readF64 writeF64 r id []

theorem response_from_str_to_string_set_spend :
    Leaves.strings.RoundTrip ∧ Leaves.strings.tx.WritesReadable 0 ∧
      Response.fromStr (fun _ => .error .invalidNumber) (ResponseResult.deserialize Leaves.strings)
          (Response.toStr (ResponseResult.codec Leaves.strings) (fun _ => [])
            ⟨.setSpend ⟨true⟩, 0⟩) = .ok ⟨.sig ⟨true⟩, 0⟩ :=
  ⟨Leaves.strings_roundTrip, string_writesReadable 0,
    response_from_str_to_string Leaves.strings_roundTrip (string_writesReadable 0) _ _ _ _⟩

/-! ## Refused responses

The derived visitor names the field it misses or finds twice. -/

/-- A response that names `result` or `id` twice is refused with `duplicate_field` as soon as the
second key is read, whatever follows it: the derived visitor checks the field's slot before it
reads the value, so the rest of the text need not be JSON. -/
theorem response_from_str_duplicate_field (hL : L.RoundTrip) (htx : L.tx.WritesReadable 0)
    (readF64 : List Char → Except ErrorCode (BitVec 64)) (writeF64 : BitVec 64 → List Char)
    (r : ResponseResult L) (id : BitVec 32) (t : List Char) :
    Response.fromStr readF64 (ResponseResult.deserialize L) ('{' :: (writeStr "result" ++ ':' ::
        (write writeF64 (r.serialize L) ++ ',' :: (writeStr "result" ++ t)))) =
      .error (.data (.duplicateField "result")) ∧
    Response.fromStr readF64 (ResponseResult.deserialize L) ('{' :: (writeStr "id" ++ ':' ::
        (write writeF64 (u32.serialize id) ++ ',' :: (writeStr "id" ++ t)))) =
      .error (.data (.duplicateField "id")) := by
  simp only [writeStr_append]
  constructor
  · rw [Response.fromStr, Response.deserializeStruct_brace,
      Response.visitMap_result (Nat.succ_pos _) (nextKey_first _ _)]
    simp only [parseColon_cons, mapError_ok, ok_bind, ResponseResult.readBuffered_serialize hL htx]
    rw [Response.visitMap_result_dup _ (nextKey_next _ _)]
    · rfl
    · exact Nat.succ_pos _
  · rw [Response.fromStr, Response.deserializeStruct_brace,
      Response.visitMap_id (Nat.succ_pos _) (nextKey_first _ _)]
    simp only [parseColon_cons, mapError_ok, ok_bind, readU32_write readF64 writeF64 id
      (show endsNumber (',' :: _) = true from rfl)]
    rw [Response.visitMap_id_dup _ (nextKey_next _ _)]
    · rfl
    · exact Nat.succ_pos _

theorem response_from_str_duplicate_field_set_spend :
    Leaves.strings.RoundTrip ∧ Leaves.strings.tx.WritesReadable 0 ∧
      Response.fromStr (fun _ => .error .invalidNumber) (ResponseResult.deserialize Leaves.strings)
          ('{' :: (writeStr "result" ++ ':' :: (write (fun _ => [])
            ((ResponseResult.setSpend ⟨true⟩).serialize Leaves.strings) ++ ',' ::
              (writeStr "result" ++ ['{'])))) =
        .error (.data (.duplicateField "result")) :=
  ⟨Leaves.strings_roundTrip, string_writesReadable 0,
    (response_from_str_duplicate_field Leaves.strings_roundTrip (string_writesReadable 0)
      (fun _ => .error .invalidNumber) (fun _ => []) (.setSpend ⟨true⟩) 0 ['{']).1⟩

/-- A response that lacks a field is refused with the error that names it, whatever follows: an
object with only its result lacks `id`, one with only its id lacks `result`, and an array of one
element or none has an invalid length. -/
theorem response_from_str_missing_field (hL : L.RoundTrip) (htx : L.tx.WritesReadable 0)
    (readF64 : List Char → Except ErrorCode (BitVec 64)) (writeF64 : BitVec 64 → List Char)
    (r : ResponseResult L) (id : BitVec 32) (t : List Char) :
    Response.fromStr readF64 (ResponseResult.deserialize L)
        ('{' :: (writeStr "result" ++ ':' :: (write writeF64 (r.serialize L) ++ '}' :: t))) =
      .error (.data (.missingField "id")) ∧
    Response.fromStr readF64 (ResponseResult.deserialize L)
        ('{' :: (writeStr "id" ++ ':' :: (write writeF64 (u32.serialize id) ++ '}' :: t))) =
      .error (.data (.missingField "result")) ∧
    Response.fromStr readF64 (ResponseResult.deserialize L)
        ('[' :: (write writeF64 (r.serialize L) ++ ']' :: t)) =
      .error (.data (.invalidLength 1)) ∧
    Response.fromStr readF64 (ResponseResult.deserialize L) ('[' :: ']' :: t) =
      .error (.data (.invalidLength 0)) := by
  have hr : Readable 126 (r.serialize L) := (ResponseResult.serialize_readable htx r).mono (by omega)
  simp only [writeStr_append]
  have hend : nextKey false ('}' :: t) = .ok none :=
    nextKey_end (show skipBlanks ('}' :: t) = '}' :: t from rfl)
  refine ⟨?_, ?_, ?_, ?_⟩
  · rw [Response.fromStr, Response.deserializeStruct_brace,
      Response.visitMap_result (Nat.succ_pos _) (nextKey_first _ _)]
    simp only [parseColon_cons, mapError_ok, ok_bind, ResponseResult.readBuffered_serialize hL htx]
    rw [Response.visitMap_end _ hend]
    · rfl
    · exact Nat.succ_pos _
  · rw [Response.fromStr, Response.deserializeStruct_brace,
      Response.visitMap_id (Nat.succ_pos _) (nextKey_first _ _)]
    simp only [parseColon_cons, mapError_ok, ok_bind, readU32_write readF64 writeF64 id
      (show endsNumber ('}' :: _) = true from rfl)]
    rw [Response.visitMap_end _ hend]
    · rfl
    · exact Nat.succ_pos _
  · rw [Response.fromStr, Response.deserializeStruct_bracket, Response.visitSeq,
      show write writeF64 (r.serialize L) ++ ']' :: t =
        (if true then [] else [',']) ++ (write writeF64 (r.serialize L) ++ ']' :: t) from rfl,
      nextElement_written writeF64 true hr]
    simp only [mapError_ok, ok_bind, ResponseResult.readBuffered_serialize hL htx,
      nextElement_close (show skipBlanks (']' :: t) = ']' :: t from rfl), error_bind]
  · rw [Response.fromStr, Response.deserializeStruct_bracket, Response.visitSeq,
      nextElement_close (show skipBlanks (']' :: t) = ']' :: t from rfl)]
    rfl

theorem response_from_str_missing_field_set_spend :
    Leaves.strings.RoundTrip ∧ Leaves.strings.tx.WritesReadable 0 ∧
      Response.fromStr (fun _ => .error .invalidNumber) (ResponseResult.deserialize Leaves.strings)
          ('{' :: (writeStr "result" ++ ':' :: (write (fun _ => [])
            ((ResponseResult.setSpend ⟨true⟩).serialize Leaves.strings) ++ ['}']))) =
        .error (.data (.missingField "id")) :=
  ⟨Leaves.strings_roundTrip, string_writesReadable 0,
    (response_from_str_missing_field Leaves.strings_roundTrip (string_writesReadable 0)
      (fun _ => .error .invalidNumber) (fun _ => []) (.setSpend ⟨true⟩) 0 []).1⟩

theorem fromStr_first_member_error {β : Type} (readF64 : List Char → Except ErrorCode (BitVec 64))
    (decode : Content → Except Serde.Error β) (k : List Char) {t : List Char} {e : ErrorCode}
    (ht : parseValue readF64 126 t = .error e) :
    Json.fromStr readF64 decode ('{' :: '"' :: (k.flatMap escapeChar ++ '"' :: ':' :: t)) =
      .error (.json e) := by
  have hsep : afterSeparator .expectedObjectCommaOrEnd true '"'
      (k.flatMap escapeChar ++ '"' :: ':' :: t) = .ok ('"' :: (k.flatMap escapeChar ++ '"' :: ':' :: t)) := rfl
  rw [Json.fromStr, parseValue_brace, mapEntries_member (skipBlanks_cons (c := '"') rfl _)
    (by decide) hsep, parseStr_writeStr]
  simp only [ok_bind, parseColon_cons, ht, error_bind, map_error]
  rfl

/-- The result is read one container inside the response, whose own brace or bracket counts
against the recursion limit: a result that opens more than 127 containers, wherever the deepest
one stands, is refused as too deep, in the object form and in the array form, by the code and by
the buffered reader alike, whatever follows. -/
theorem response_from_str_result_nested {α : Type} (result : Codec α)
    (readF64 : List Char → Except ErrorCode (BitVec 64)) (writeF64 : BitVec 64 → List Char)
    {c : Content} (hc : TooDeep 126 c) (t : List Char) :
    Response.fromStr readF64 result.deserialize
        ('{' :: (writeStr "result" ++ ':' :: (write writeF64 c ++ t))) =
      .error (.json .recursionLimitExceeded) ∧
    Response.fromStr readF64 result.deserialize ('[' :: (write writeF64 c ++ t)) =
      .error (.json .recursionLimitExceeded) ∧
    Json.fromStr readF64 (Response.codec result).deserialize
        ('{' :: (writeStr "result" ++ ':' :: (write writeF64 c ++ t))) =
      .error (.json .recursionLimitExceeded) ∧
    Json.fromStr readF64 (Response.codec result).deserialize ('[' :: (write writeF64 c ++ t)) =
      .error (.json .recursionLimitExceeded) := by
  have hdeep := parseValue_write_tooDeep readF64 writeF64 126 hc t
  have hres : readBuffered readF64 result.deserialize 126 (write writeF64 c ++ t) =
      .error (.json .recursionLimitExceeded) := by
    rw [readBuffered, hdeep]
    rfl
  have hw := write_eq_cons_of_tooDeep writeF64 hc
  have hnext : nextElement true (write writeF64 c ++ t) = .ok (some (write writeF64 c ++ t)) := by
    obtain ⟨h, r, hw, hb, hne⟩ := hw
    rw [hw, List.cons_append]
    exact nextElement_elem (skipBlanks_cons hb _) hne (by simp [afterSeparator])
      (fun _ he => hne (List.cons.inj he).1) (List.cons_ne_nil _ _)
  simp only [writeStr_append]
  refine ⟨?_, ?_, fromStr_first_member_error readF64 _ _ hdeep, ?_⟩
  · rw [Response.fromStr, Response.deserializeStruct_brace,
      Response.visitMap_result (Nat.succ_pos _) (nextKey_first _ _)]
    simp only [parseColon_cons, mapError_ok, ok_bind, hres, error_bind]
  · rw [Response.fromStr, Response.deserializeStruct_bracket, Response.visitSeq]
    simp only [hnext, mapError_ok, ok_bind, hres, error_bind]
  · rw [Json.fromStr, parseValue_bracket,
      show write writeF64 c ++ t = (if true then [] else [',']) ++ write writeF64 c ++ t from rfl,
      seqElements_write writeF64 hw, hdeep]
    rfl

theorem response_from_str_result_nested_arrays :
    TooDeep 126 ((fun x => Content.seq [x])^[126] (.seq [])) ∧
      Response.fromStr (fun _ => .error .invalidNumber) (ResponseResult.deserialize Leaves.strings)
          ('[' :: (write (fun _ => []) ((fun x => Content.seq [x])^[126] (.seq [])) ++ [']'])) =
        .error (.json .recursionLimitExceeded) :=
  ⟨tooDeep_nested 126, (response_from_str_result_nested (ResponseResult.codec Leaves.strings)
    (fun _ => .error .invalidNumber) (fun _ => []) (tooDeep_nested 126) [']']).2.1⟩

/-! ## The reader of the code refines the buffered reader

The buffered model reads a `Response<T>` through `Content`, as `Json.fromStr` with the
derived codec; the code reads it in place, as `Response.fromStr`. On every text the buffered
reader takes, the reader of the code gives the same response: the members come in the same
order, a member no field names is skipped over exactly the text `parse_value` reads
(`ignoreValue_of_parseValue`), and the id is read in place as the value `parse_value` read
(`readU32_of_parseValue`). The errors agree as well, but for an array of more than two
elements, which the code refuses at the third and the buffered reader by its length. -/

section Agreement
variable {result : Codec α} {k : List Char} (v : Content) (es : List (String × Content))

/-! ### One member of the buffered `visit_map` -/

theorem Response.fields_visitMap_result (hk : k = "result".toList) (s₂ : Option (BitVec 32)) :
    (Response.fields result).visitMap ((⟨k⟩, v) :: es) (none, s₂, ()) =
      result.deserialize v >>= fun a => (Response.fields result).visitMap es (some a, s₂, ()) := by
  subst hk
  show ((result.deserialize v).map _ >>= _) = _
  cases result.deserialize v <;> rfl

theorem Response.fields_visitMap_result_dup (hk : k = "result".toList) (a : α)
    (s₂ : Option (BitVec 32)) :
    (Response.fields result).visitMap ((⟨k⟩, v) :: es) (some a, s₂, ()) =
      .error (.duplicateField "result") := by
  subst hk
  rfl

theorem Response.fields_visitMap_id (hk : k = "id".toList) (s₁ : Option α) :
    (Response.fields result).visitMap ((⟨k⟩, v) :: es) (s₁, none, ()) =
      u32.deserialize v >>= fun i => (Response.fields result).visitMap es (s₁, some i, ()) := by
  subst hk
  show (((u32.deserialize v).map _).map _ >>= _) = _
  cases u32.deserialize v <;> rfl

theorem Response.fields_visitMap_id_dup (hk : k = "id".toList) (s₁ : Option α) (i : BitVec 32) :
    (Response.fields result).visitMap ((⟨k⟩, v) :: es) (s₁, some i, ()) =
      .error (.duplicateField "id") := by
  subst hk
  rfl

theorem Response.fields_visitMap_ignored (hr : k ≠ "result".toList) (hi : k ≠ "id".toList)
    (σ : Option α × Option (BitVec 32) × Unit) :
    (Response.fields result).visitMap ((⟨k⟩, v) :: es) σ = (Response.fields result).visitMap es σ := by
  have hr' : (⟨k⟩ : String) ≠ "result" := fun h => hr (congrArg String.data h)
  have hi' : (⟨k⟩ : String) ≠ "id" := fun h => hi (congrArg String.data h)
  obtain ⟨s₁, s₂, ⟨⟩⟩ := σ
  have hkey : (Response.fields result).visitKey ⟨k⟩ v (s₁, s₂, ()) = none := by
    simp only [Response.fields, Fields.visitKey, if_neg hr', if_neg hi', Option.map_none']
  rw [Fields.visitMap, hkey]

/-! ### The loops side by side -/

section Loop
variable {readF64 : List Char → Except ErrorCode (BitVec 64)} {d : Nat}

theorem Response.visitMap_eq_of_mapEntries :
    ∀ {m : Nat} {first : Bool} {t : List Char} {es : List (String × Content)} {rest : List Char}
      {s₁ : Option α} {s₂ : Option (BitVec 32)},
      mapEntries (parseValue readF64 d) m first t = .ok (es, rest) →
      (do
        let (r, cs) ← Response.visitMap (readBuffered readF64 result.deserialize d) (readU32 readF64)
          m first s₁ s₂ t
        let cs ← (endMap cs).mapError .json
        pure (r, cs)) =
      ((((Response.fields result).visitMap es (s₁, s₂, ()) >>= (Response.fields result).finish).map
        fun x => (⟨x.1, x.2.1⟩ : Response α)).mapError .data).map (·, rest) := by
  intro m
  induction m with
  | zero => intro _ _ _ _ _ _ h; cases h
  | succ m ih =>
    intro first t es rest s₁ s₂ h
    rcases mapEntries_succ_eq_ok h with
      ⟨rfl, hk, he⟩ | ⟨k, r₁, r₂, v, r₃, es', rfl, hk, hcolon, hv, hes⟩
    · rw [Response.visitMap_end (Nat.succ_pos m) hk]
      cases s₁ <;> cases s₂ <;> simp [he, Fields.visitMap, Fields.finish, Response.fields]
    by_cases hr : k = "result".toList
    · subst hr
      cases s₁ with
      | some a =>
        rw [Response.visitMap_result_dup (Nat.succ_pos m) hk,
          Response.fields_visitMap_result_dup _ _ rfl]
        rfl
      | none =>
        rw [Response.visitMap_result (Nat.succ_pos m) hk, Response.fields_visitMap_result _ _ rfl]
        simp only [hcolon, mapError_ok, ok_bind, readBuffered_of_parseValue hv, Nat.add_sub_cancel]
        cases result.deserialize v with
        | error e => rfl
        | ok a => exact ih hes
    by_cases hi : k = "id".toList
    · subst hi
      cases s₂ with
      | some i =>
        rw [Response.visitMap_id_dup (Nat.succ_pos m) hk, Response.fields_visitMap_id_dup _ _ rfl]
        rfl
      | none =>
        rw [Response.visitMap_id (Nat.succ_pos m) hk, Response.fields_visitMap_id _ _ rfl]
        simp only [hcolon, mapError_ok, ok_bind, readU32_of_parseValue hv, Nat.add_sub_cancel]
        cases u32.deserialize v with
        | error e => rfl
        | ok i => exact ih hes
    rw [Response.visitMap_ignored (Nat.succ_pos m) hk hr hi, Response.fields_visitMap_ignored _ _ hr hi]
    simp only [hcolon, ok_bind, ignoreValue_of_parseValue readF64 d hv, mapError_ok,
      Nat.add_sub_cancel]
    exact ih hes

theorem Response.fields_visitContentSeq_eq_ok {xs : List Content} {a : α} {i : BitVec 32}
    (h : (Response.fields result).visitContentSeq xs = .ok (a, i, ())) :
    ∃ x₁ x₂, xs = [x₁, x₂] ∧ result.deserialize x₁ = .ok a ∧ u32.deserialize x₂ = .ok i := by
  obtain ⟨⟨y, ys⟩, hy, h⟩ := bind_eq_ok.1 h
  dsimp only at h
  split_ifs at h with he
  cases h
  match xs, hy with
  | [], hy => cases hy
  | [_], hy =>
    obtain ⟨_, -, hy⟩ := bind_eq_ok.1 hy
    obtain ⟨_, hb, -⟩ := bind_eq_ok.1 hy
    cases hb
  | x₁ :: x₂ :: xs, hy =>
    obtain ⟨a', ha, hy⟩ := bind_eq_ok.1 hy
    obtain ⟨⟨b, zs⟩, hb, hy⟩ := bind_eq_ok.1 hy
    obtain ⟨i', hi, hb⟩ := bind_eq_ok.1 hb
    cases hb
    cases hy
    cases List.isEmpty_iff.1 he
    exact ⟨x₁, x₂, rfl, ha, hi⟩

theorem Response.visitSeq_eq_of_seqElements {m : Nat} {t rest : List Char} {xs : List Content}
    (h : seqElements (parseValue readF64 d) m true t = .ok (xs, rest)) (hx : xs.length ≤ 2) :
    (do
      let (r, cs) ← Response.visitSeq (readBuffered readF64 result.deserialize d) (readU32 readF64) t
      let cs ← (endSeq cs).mapError .json
      pure (r, cs)) =
    (((Response.codec result).deserialize (.seq xs)).mapError .data).map (·, rest) := by
  match xs, h, hx with
  | [], h, _ =>
    obtain ⟨hn, -⟩ := seqElements_nil_eq_ok h
    simp only [Response.visitSeq, hn, mapError_ok, ok_bind]
    rfl
  | [x₁], h, _ =>
    obtain ⟨_, cs₁, r₁, -, hn₁, hp₁, h⟩ := seqElements_cons_eq_ok h
    obtain ⟨hn₂, -⟩ := seqElements_nil_eq_ok h
    simp only [Response.visitSeq, hn₁, mapError_ok, ok_bind, readBuffered_of_parseValue hp₁]
    rcases h₁ : result.deserialize x₁ with e | a <;>
      simp [h₁, hn₂, Response.codec, Fields.codec, Fields.deserializeStruct, Fields.visitContentSeq,
        Fields.visitSeq, Response.fields]
  | [x₁, x₂], h, _ =>
    obtain ⟨_, cs₁, r₁, -, hn₁, hp₁, h⟩ := seqElements_cons_eq_ok h
    obtain ⟨_, cs₂, r₂, -, hn₂, hp₂, h⟩ := seqElements_cons_eq_ok h
    obtain ⟨-, he⟩ := seqElements_nil_eq_ok h
    simp only [Response.visitSeq, hn₁, mapError_ok, ok_bind, readBuffered_of_parseValue hp₁]
    rcases h₁ : result.deserialize x₁ with e | a
    · simp [h₁, Response.codec, Fields.codec, Fields.deserializeStruct, Fields.visitContentSeq,
        Fields.visitSeq, Response.fields]
    · rcases h₂ : u32.deserialize x₂ with e | i <;>
        simp [h₁, h₂, hn₂, he, readU32_of_parseValue hp₂, Response.codec, Fields.codec,
          Fields.deserializeStruct, Fields.visitContentSeq, Fields.visitSeq, Response.fields]

theorem Response.deserializeStruct_eq_of_parseValue {cs rest : List Char} {c : Content}
    (h : parseValue readF64 d cs = .ok (c, rest)) (hc : ∀ xs, c = .seq xs → xs.length ≤ 2) :
    Response.deserializeStruct (readBuffered readF64 result.deserialize) readF64 d cs =
      (((Response.codec result).deserialize c).mapError .data).map (·, rest) := by
  rcases parseValue_eq_ok_cases h with
    ⟨hopen, hseq, hmap⟩ | ⟨d', t, xs, rfl, rfl, hs, hxs⟩ | ⟨d', t, es, rfl, rfl, hs, hes⟩
  · obtain ⟨x, r, hs, hp⟩ := peekInvalidType_of_parseValue h
    have hdec : (Response.codec result).deserialize c = .error .invalidType := by
      cases c <;> first | rfl | exact absurd rfl (hseq _) | exact absurd rfl (hmap _)
    rw [← ignoreOpen_skipBlanks, hs] at hopen
    rw [Response.deserializeStruct, hs, hdec]
    split
    · rename_i he; cases he
    · rename_i he; cases he; cases hopen
    · rename_i he; cases he; cases hopen
    · rename_i he; cases he; rw [hp]; rfl
  · rw [Response.deserializeStruct, hs]
    exact Response.visitSeq_eq_of_seqElements hxs (hc _ rfl)
  · rw [Response.deserializeStruct, hs]
    refine (Response.visitMap_eq_of_mapEntries hes).trans ?_
    show _ = ((((Response.fields result).visitMap es (none, none, ()) >>=
      (Response.fields result).finish).map _).mapError _).map _
    congr

theorem Response.deserializeStruct_of_parseValue {cs rest : List Char} {c : Content}
    {r : Response α} (h : parseValue readF64 d cs = .ok (c, rest))
    (hr : (Response.codec result).deserialize c = .ok r) :
    Response.deserializeStruct (readBuffered readF64 result.deserialize) readF64 d cs =
      .ok (r, rest) := by
  have hc : ∀ xs, c = .seq xs → xs.length ≤ 2 := by
    rintro xs rfl
    obtain ⟨⟨a, i, ⟨⟩⟩, hx, -⟩ := map_eq_ok.1 hr
    obtain ⟨x₁, x₂, rfl, -⟩ := Response.fields_visitContentSeq_eq_ok hx
    exact le_rfl
  rw [Response.deserializeStruct_eq_of_parseValue h hc, hr]
  rfl

end Loop

/-- Every text the buffered model of a response reads, the code reads to the same response:
`serde_json` driving the derived visitor of `Response<ResponseResult>` in place refines reading
the text into `Content` and decoding that. -/
theorem response_from_str_of_content (readF64 : List Char → Except ErrorCode (BitVec 64))
    {cs : List Char} {r : Response (ResponseResult L)}
    (h : Json.fromStr readF64 (Response.codec (ResponseResult.codec L)).deserialize cs = .ok r) :
    Response.fromStr readF64 (ResponseResult.deserialize L) cs = .ok r := by
  obtain ⟨⟨c, rest⟩, hp, h⟩ := bind_eq_ok.1 h
  obtain ⟨a, hdec, h⟩ := bind_eq_ok.1 h
  rw [mapError_eq_ok] at hp hdec
  split_ifs at h with hrest
  cases h
  show (Response.deserializeStruct (readBuffered readF64 (ResponseResult.codec L).deserialize)
    readF64 127 cs >>= _) = _
  rw [Response.deserializeStruct_of_parseValue hp hdec, ok_bind]
  exact if_pos hrest

theorem response_from_str_of_content_reordered :
    Json.fromStr (fun _ => .error .invalidNumber)
        (Response.codec (ResponseResult.codec Leaves.strings)).deserialize
        "\x7b\"id\":7,\"x\":[1,\x7b\"y\":null\x7d],\"result\":\x7b\"ack\":true\x7d\x7d".toList =
      .ok ⟨.sig ⟨true⟩, 7⟩ ∧
    Response.fromStr (fun _ => .error .invalidNumber) (ResponseResult.deserialize Leaves.strings)
        "\x7b\"id\":7,\"x\":[1,\x7b\"y\":null\x7d],\"result\":\x7b\"ack\":true\x7d\x7d".toList =
      .ok ⟨.sig ⟨true⟩, 7⟩ :=
  have h : Json.fromStr (fun _ => .error .invalidNumber)
      (Response.codec (ResponseResult.codec Leaves.strings)).deserialize
      "\x7b\"id\":7,\"x\":[1,\x7b\"y\":null\x7d],\"result\":\x7b\"ack\":true\x7d\x7d".toList =
        .ok ⟨.sig ⟨true⟩, 7⟩ := by
    have hc : Readable 127 (.map [("id", .u64 7), ("x", .seq [.u64 1, .map [("y", .unit)]]),
        ("result", .map [("ack", .bool true)])]) := by simp [Readable]
    rw [show "\x7b\"id\":7,\"x\":[1,\x7b\"y\":null\x7d],\"result\":\x7b\"ack\":true\x7d\x7d".toList =
      write (fun _ => []) (.map [("id", .u64 7), ("x", .seq [.u64 1, .map [("y", .unit)]]),
        ("result", .map [("ack", .bool true)])]) ++ [] by decide, fromStr_write _ _ _ hc nofun]
    rfl
  ⟨h, response_from_str_of_content _ h⟩

/-- On every text the buffered parser reads, the code's reader of a response and the buffered
reader give the same answer, errors included, unless the text is an array of more than two
elements: both run the derived visitor over the same members in the same order, and the only
check one makes and the other does not is on the elements after the second. -/
theorem response_from_str_eq_buffered {α : Type} (result : Codec α)
    (readF64 : List Char → Except ErrorCode (BitVec 64)) {cs rest : List Char} {c : Content}
    (h : parseValue readF64 127 cs = .ok (c, rest)) (hc : ∀ xs, c = .seq xs → xs.length ≤ 2) :
    Response.fromStr readF64 result.deserialize cs =
      Json.fromStr readF64 (Response.codec result).deserialize cs := by
  rw [Response.fromStr, Response.deserializeStruct_eq_of_parseValue h hc, Json.fromStr, h]
  simp only [mapError_ok, ok_bind]
  cases (Response.codec result).deserialize c <;> rfl

theorem response_from_str_eq_buffered_string_id :
    parseValue (fun _ => .error .invalidNumber) 127
        "\x7b\"result\":\x7b\"ack\":true\x7d,\"id\":\"7\"\x7d".toList =
      .ok (.map [("result", .map [("ack", .bool true)]), ("id", .str "7")], []) ∧
    (∀ xs, Content.map [("result", .map [("ack", .bool true)]), ("id", .str "7")] = .seq xs →
      xs.length ≤ 2) ∧
    Response.fromStr (fun _ => .error .invalidNumber) (ResponseResult.deserialize Leaves.strings)
        "\x7b\"result\":\x7b\"ack\":true\x7d,\"id\":\"7\"\x7d".toList =
      Json.fromStr (fun _ => .error .invalidNumber)
        (Response.codec (ResponseResult.codec Leaves.strings)).deserialize
        "\x7b\"result\":\x7b\"ack\":true\x7d,\"id\":\"7\"\x7d".toList :=
  have h : parseValue (fun _ => .error .invalidNumber) 127
      "\x7b\"result\":\x7b\"ack\":true\x7d,\"id\":\"7\"\x7d".toList =
        .ok (.map [("result", .map [("ack", .bool true)]), ("id", .str "7")], []) := by
    have hc : Readable 127 (.map [("result", .map [("ack", .bool true)]), ("id", .str "7")]) := by
      simp [Readable]
      decide
    rw [show "\x7b\"result\":\x7b\"ack\":true\x7d,\"id\":\"7\"\x7d".toList =
      write (fun _ => []) (.map [("result", .map [("ack", .bool true)]), ("id", .str "7")]) ++ []
        by decide, parseValue_write _ _ _ hc nofun]
  have hc : ∀ xs, Content.map [("result", .map [("ack", .bool true)]), ("id", .str "7")] = .seq xs →
      xs.length ≤ 2 := nofun
  ⟨h, hc, response_from_str_eq_buffered (ResponseResult.codec Leaves.strings) _ h hc⟩

/-- On an array of more than two elements whose first two are a result and an id, the readers
differ only in their error: the code's `visit_seq` stops after the id and `end_seq` finds the
third element as trailing characters, where the buffered reader counts the elements and reports
an invalid length. -/
theorem response_from_str_long_array {α : Type} (result : Codec α)
    (readF64 : List Char → Except ErrorCode (BitVec 64)) {cs rest : List Char}
    {x₁ x₂ x₃ : Content} {xs : List Content} {a : α} {i : BitVec 32}
    (h : parseValue readF64 127 cs = .ok (.seq (x₁ :: x₂ :: x₃ :: xs), rest))
    (ha : result.deserialize x₁ = .ok a) (hi : u32.deserialize x₂ = .ok i) :
    Response.fromStr readF64 result.deserialize cs = .error (.json .trailingCharacters) ∧
    Json.fromStr readF64 (Response.codec result).deserialize cs =
      .error (.data (.invalidLength (xs.length + 3))) := by
  rcases parseValue_eq_ok_cases h with
    ⟨-, hseq, -⟩ | ⟨d', t, ys, hd, hys, hs, hxs⟩ | ⟨_, _, _, _, hc, _⟩
  · exact absurd rfl (hseq _)
  · cases hd
    cases hys
    obtain ⟨_, cs₁, r₁, -, hn₁, hp₁, h₂⟩ := seqElements_cons_eq_ok hxs
    obtain ⟨_, cs₂, r₂, -, hn₂, hp₂, h₃⟩ := seqElements_cons_eq_ok h₂
    obtain ⟨_, cs₃, -, -, hn₃, -⟩ := seqElements_cons_eq_ok h₃
    constructor
    · simp only [Response.fromStr, Response.deserializeStruct, hs, Response.visitSeq, hn₁, hn₂,
        mapError_ok, ok_bind, readBuffered_of_parseValue hp₁, ha, readU32_of_parseValue hp₂, hi,
        map_ok, pure_eq_ok, endSeq_of_nextElement hn₃]
      rfl
    · simp [Json.fromStr, h, ha, hi, Response.codec, Fields.codec, Fields.deserializeStruct,
        Fields.visitContentSeq, Fields.visitSeq, Response.fields]
  · cases hc

theorem response_from_str_long_array_three :
    parseValue (fun _ => .error .invalidNumber) 127 "[\x7b\"ack\":true\x7d,7,null]".toList =
      .ok (.seq [.map [("ack", .bool true)], .u64 7, .unit], []) ∧
    (ResponseResult.codec Leaves.strings).deserialize (.map [("ack", .bool true)]) =
      .ok (.sig ⟨true⟩) ∧
    u32.deserialize (.u64 7) = .ok 7 ∧
    Response.fromStr (fun _ => .error .invalidNumber) (ResponseResult.codec Leaves.strings).deserialize
        "[\x7b\"ack\":true\x7d,7,null]".toList = .error (.json .trailingCharacters) ∧
    Json.fromStr (fun _ => .error .invalidNumber)
        (Response.codec (ResponseResult.codec Leaves.strings)).deserialize
        "[\x7b\"ack\":true\x7d,7,null]".toList = .error (.data (.invalidLength 3)) :=
  have h : parseValue (fun _ => .error .invalidNumber) 127 "[\x7b\"ack\":true\x7d,7,null]".toList =
      .ok (.seq [.map [("ack", .bool true)], .u64 7, .unit], []) := by
    have hc : Readable 127 (.seq [.map [("ack", .bool true)], .u64 7, .unit]) := by simp [Readable]
    rw [show "[\x7b\"ack\":true\x7d,7,null]".toList =
      write (fun _ => []) (.seq [.map [("ack", .bool true)], .u64 7, .unit]) ++ [] by decide,
      parseValue_write _ _ _ hc nofun]
  have ha : (ResponseResult.codec Leaves.strings).deserialize (.map [("ack", .bool true)]) =
      .ok (.sig ⟨true⟩) := rfl
  have hi : u32.deserialize (.u64 7) = .ok 7 := rfl
  ⟨h, ha, hi, response_from_str_long_array (ResponseResult.codec Leaves.strings) _ h ha hi⟩

/-! ### Texts only the code reads -/

theorem Response.fromStr_after_ignored (hL : L.RoundTrip) (htx : L.tx.WritesReadable 0)
    (readF64 : List Char → Except ErrorCode (BitVec 64)) (writeF64 : BitVec 64 → List Char)
    (r : ResponseResult L) (id : BitVec 32) {v : List Char}
    (hv : ignoreValue (v ++ ',' :: (Response.toStr (ResponseResult.codec L) writeF64 ⟨r, id⟩).tail) =
      .ok (',' :: (Response.toStr (ResponseResult.codec L) writeF64 ⟨r, id⟩).tail)) :
    Response.fromStr readF64 (ResponseResult.deserialize L) ('{' :: '"' :: 'x' :: '"' :: ':' ::
      (v ++ ',' :: (Response.toStr (ResponseResult.codec L) writeF64 ⟨r, id⟩).tail)) =
        .ok ⟨r.readBack, id⟩ := by
  set body := (Response.toStr (ResponseResult.codec L) writeF64 ⟨r, id⟩).tail with hbody
  have hk : nextKey true ('"' :: 'x' :: '"' :: ':' :: (v ++ ',' :: body)) =
      .ok (some (['x'], ':' :: (v ++ ',' :: body))) := nextKey_first ['x'] _
  have hk₂ : nextKey false (',' :: body) = .ok (some ("result".toList, ':' ::
      (write writeF64 (r.serialize L) ++ ',' :: '"' :: ("id".toList.flatMap escapeChar ++ '"' ::
        ':' :: (write writeF64 (u32.serialize id) ++ ['}']))))) := by
    rw [hbody, Response.toStr_eq]
    exact nextKey_next _ _
  rw [Response.fromStr, Response.deserializeStruct_brace,
    Response.visitMap_ignored (Nat.succ_pos _) hk (by decide) (by decide)]
  simp only [parseColon_cons, ok_bind, hv, mapError_ok]
  rw [Response.visitMap_written hL htx readF64 writeF64 r id false _ hk₂]
  · rfl
  · rw [hbody, Response.toStr_eq]
    simp only [List.tail_cons, List.length_cons, List.length_append]
    omega

/-- A member no field names may nest arrays to any depth: the code skips it with
`ignore_value`, which counts no depth, and reads the response. The buffered reader refuses the
same text once the member nests past the recursion limit, so the code reads strictly more texts
than the buffered model. -/
theorem response_from_str_nested_member (hL : L.RoundTrip) (htx : L.tx.WritesReadable 0)
    (readF64 : List Char → Except ErrorCode (BitVec 64)) (writeF64 : BitVec 64 → List Char)
    (r : ResponseResult L) (id : BitVec 32) (k : Nat) :
    Response.fromStr readF64 (ResponseResult.deserialize L)
        ('{' :: '"' :: 'x' :: '"' :: ':' :: (List.replicate (k + 1) '[' ++
          List.replicate (k + 1) ']' ++ ',' :: (Response.toStr (ResponseResult.codec L) writeF64
            ⟨r, id⟩).tail)) = .ok ⟨r.readBack, id⟩ ∧
    (126 ≤ k → Json.fromStr readF64 (Response.codec (ResponseResult.codec L)).deserialize
        ('{' :: '"' :: 'x' :: '"' :: ':' :: (List.replicate (k + 1) '[' ++
          List.replicate (k + 1) ']' ++ ',' :: (Response.toStr (ResponseResult.codec L) writeF64
            ⟨r, id⟩).tail)) = .error (.json .recursionLimitExceeded)) := by
  refine ⟨Response.fromStr_after_ignored hL htx readF64 writeF64 r id (ignoreValue_nested k _),
    fun hk => fromStr_first_member_error readF64 _ ['x'] ?_⟩
  obtain ⟨j, rfl⟩ : ∃ j, k = 126 + j := ⟨k - 126, by omega⟩
  rw [show 126 + j + 1 = 126 + 1 + j by omega, List.replicate_add, List.append_assoc,
    List.append_assoc, parseValue_nested]

theorem response_from_str_nested_member_set_spend :
    Leaves.strings.RoundTrip ∧ Leaves.strings.tx.WritesReadable 0 ∧
      Response.fromStr (fun _ => .error .invalidNumber) (ResponseResult.deserialize Leaves.strings)
          ('{' :: '"' :: 'x' :: '"' :: ':' :: (List.replicate 127 '[' ++ List.replicate 127 ']' ++
            ',' :: (Response.toStr (ResponseResult.codec Leaves.strings) (fun _ => [])
              ⟨.setSpend ⟨true⟩, 0⟩).tail)) = .ok ⟨.sig ⟨true⟩, 0⟩ ∧
      Json.fromStr (fun _ => .error .invalidNumber)
          (Response.codec (ResponseResult.codec Leaves.strings)).deserialize
          ('{' :: '"' :: 'x' :: '"' :: ':' :: (List.replicate 127 '[' ++ List.replicate 127 ']' ++
            ',' :: (Response.toStr (ResponseResult.codec Leaves.strings) (fun _ => [])
              ⟨.setSpend ⟨true⟩, 0⟩).tail)) = .error (.json .recursionLimitExceeded) :=
  have h := response_from_str_nested_member Leaves.strings_roundTrip (string_writesReadable 0)
    (fun _ => .error .invalidNumber) (fun _ => []) (.setSpend ⟨true⟩) 0 126
  ⟨Leaves.strings_roundTrip, string_writesReadable 0, h.1, h.2 le_rfl⟩

/-- A member no field names may hold a number whose float conversion fails, as `1e400` fails,
out of the range of `f64`: `ignore_value` checks the number's grammar without converting it, and
the code reads the response; the buffered reader converts the number and refuses the text with
the conversion's error. -/
theorem response_from_str_unconverted_member (hL : L.RoundTrip) (htx : L.tx.WritesReadable 0)
    (readF64 : List Char → Except ErrorCode (BitVec 64)) (writeF64 : BitVec 64 → List Char)
    (r : ResponseResult L) (id : BitVec 32) {ds : List Char} {e : ErrorCode} (hne : ds ≠ [])
    (hds : ∀ c ∈ ds, c.isDigit = true) (hf : readF64 ('1' :: 'e' :: ds) = .error e) :
    Response.fromStr readF64 (ResponseResult.deserialize L)
        ('{' :: '"' :: 'x' :: '"' :: ':' :: '1' :: 'e' :: (ds ++ ',' ::
          (Response.toStr (ResponseResult.codec L) writeF64 ⟨r, id⟩).tail)) = .ok ⟨r.readBack, id⟩ ∧
    Json.fromStr readF64 (Response.codec (ResponseResult.codec L)).deserialize
        ('{' :: '"' :: 'x' :: '"' :: ':' :: '1' :: 'e' :: (ds ++ ',' ::
          (Response.toStr (ResponseResult.codec L) writeF64 ⟨r, id⟩).tail)) = .error (.json e) :=
  ⟨Response.fromStr_after_ignored hL htx readF64 writeF64 r id (v := '1' :: 'e' :: ds)
      (ignoreValue_exponent hne hds rfl),
    fromStr_first_member_error readF64 _ ['x'] <| by
      rw [parseValue_digit _ _ _ (c := '1') rfl,
        parseNumber_exponent _ hne hds (show endsNumber (',' :: _) = true from rfl), hf]
      rfl⟩

theorem response_from_str_unconverted_member_set_spend :
    Leaves.strings.RoundTrip ∧ Leaves.strings.tx.WritesReadable 0 ∧ ['4', '0', '0'] ≠ [] ∧
      (∀ c ∈ ['4', '0', '0'], c.isDigit = true) ∧
      Response.fromStr (fun _ => .error .numberOutOfRange) (ResponseResult.deserialize Leaves.strings)
          ('{' :: '"' :: 'x' :: '"' :: ':' :: '1' :: 'e' :: (['4', '0', '0'] ++ ',' ::
            (Response.toStr (ResponseResult.codec Leaves.strings) (fun _ => [])
              ⟨.setSpend ⟨true⟩, 0⟩).tail)) = .ok ⟨.sig ⟨true⟩, 0⟩ ∧
      Json.fromStr (fun _ => .error .numberOutOfRange)
          (Response.codec (ResponseResult.codec Leaves.strings)).deserialize
          ('{' :: '"' :: 'x' :: '"' :: ':' :: '1' :: 'e' :: (['4', '0', '0'] ++ ',' ::
            (Response.toStr (ResponseResult.codec Leaves.strings) (fun _ => [])
              ⟨.setSpend ⟨true⟩, 0⟩).tail)) = .error (.json .numberOutOfRange) :=
  ⟨Leaves.strings_roundTrip, string_writesReadable 0, by decide, by decide,
    response_from_str_unconverted_member Leaves.strings_roundTrip (string_writesReadable 0)
      (fun _ => .error .numberOutOfRange) (fun _ => []) (.setSpend ⟨true⟩) 0 (by decide) (by decide)
      rfl⟩

end Agreement

/-! ## Relaying a response -/

section Relay
variable {readResult : List Char → Except Json.Error (α × List Char)}
  {readId : List Char → Except Json.Error (BitVec 32 × List Char)}

theorem Response.visitMap_eq_ok_result :
    ∀ {n : Nat} {first : Bool} {s₁ : Option α} {s₂ : Option (BitVec 32)} {cs rest : List Char}
      {a : α} {i : BitVec 32},
      Response.visitMap readResult readId n first s₁ s₂ cs = .ok (⟨a, i⟩, rest) →
      s₁ = some a ∨ ∃ cs' rest', readResult cs' = .ok (a, rest') := by
  intro n
  induction n with
  | zero => intro _ _ _ _ _ _ _ h; cases h
  | succ n ih =>
    intro first s₁ s₂ cs rest a i h
    rw [Response.visitMap.eq_def] at h
    dsimp only at h
    obtain ⟨o, -, h⟩ := bind_eq_ok.1 h
    rcases o with _ | ⟨k, cs⟩
    · dsimp only at h
      split at h
      · cases h
      · cases h
      · cases h
        exact .inl rfl
    · dsimp only at h
      split_ifs at h
      · split at h
        · cases h
        · obtain ⟨cs₁, -, h⟩ := bind_eq_ok.1 h
          obtain ⟨⟨a', cs₂⟩, ha', h⟩ := bind_eq_ok.1 h
          rcases ih h with h' | h'
          · cases h'
            exact .inr ⟨_, _, ha'⟩
          · exact .inr h'
      · split at h
        · cases h
        · obtain ⟨cs₁, -, h⟩ := bind_eq_ok.1 h
          obtain ⟨⟨i', cs₂⟩, -, h⟩ := bind_eq_ok.1 h
          exact ih h
      · obtain ⟨cs₁, -, h⟩ := bind_eq_ok.1 h
        exact ih h

theorem Response.visitSeq_eq_ok_result {cs rest : List Char} {a : α} {i : BitVec 32}
    (h : Response.visitSeq readResult readId cs = .ok (⟨a, i⟩, rest)) :
    ∃ cs' rest', readResult cs' = .ok (a, rest') := by
  obtain ⟨o, -, h⟩ := bind_eq_ok.1 h
  rcases o with _ | cs₁
  · cases h
  obtain ⟨⟨a', cs₂⟩, ha', h⟩ := bind_eq_ok.1 h
  obtain ⟨o, -, h⟩ := bind_eq_ok.1 h
  rcases o with _ | cs₃
  · cases h
  obtain ⟨⟨i', cs₄⟩, -, h⟩ := bind_eq_ok.1 h
  cases h
  exact ⟨_, _, ha'⟩

end Relay

theorem Response.fromStr_eq_ok_result {readF64 : List Char → Except ErrorCode (BitVec 64)}
    {decode : Content → Except Serde.Error α} {cs : List Char} {r : Response α}
    (h : Response.fromStr readF64 decode cs = .ok r) : ∃ c, decode c = .ok r.result := by
  obtain ⟨⟨⟨a, i⟩, rest⟩, hs, hr⟩ := bind_eq_ok.1 h
  dsimp only at hr
  split_ifs at hr
  cases hr
  unfold Response.deserializeStruct at hs
  split at hs
  · cases hs
  · split at hs
    · cases hs
    · obtain ⟨⟨⟨a', i'⟩, cs₁⟩, hv, hs⟩ := bind_eq_ok.1 hs
      obtain ⟨cs₂, -, hs⟩ := bind_eq_ok.1 hs
      cases hs
      obtain ⟨_, _, hb⟩ := Response.visitSeq_eq_ok_result hv
      exact readBuffered_eq_ok hb
  · split at hs
    · cases hs
    · obtain ⟨⟨⟨a', i'⟩, cs₁⟩, hv, hs⟩ := bind_eq_ok.1 hs
      obtain ⟨cs₂, -, hs⟩ := bind_eq_ok.1 hs
      cases hs
      rcases Response.visitMap_eq_ok_result hv with h | ⟨_, _, hb⟩
      · cases h
      · exact readBuffered_eq_ok hb
  · cases hs

/-- A response the code reads from any text can be relayed: its text reads back as the same
response. The result was read by `ResponseResult`'s decoder, so it is not a `SetSpend`, the one
result that reads back as another. -/
theorem response_from_str_relay (hL : L.RoundTrip) (htx : L.tx.WritesReadable 0)
    (readF64 : List Char → Except ErrorCode (BitVec 64)) (writeF64 : BitVec 64 → List Char)
    {cs : List Char} {r : Response (ResponseResult L)}
    (h : Response.fromStr readF64 (ResponseResult.deserialize L) cs = .ok r) :
    Response.fromStr readF64 (ResponseResult.deserialize L)
      (Response.toStr (ResponseResult.codec L) writeF64 r) = .ok r := by
  obtain ⟨c, hc⟩ := Response.fromStr_eq_ok_result h
  obtain ⟨a, i⟩ := r
  simpa [skipBlanks, ResponseResult.readBack_of_deserialize hc] using
    Response.fromStr_toStr_append hL htx readF64 writeF64 a i []

theorem response_from_str_relay_set_spend :
    Leaves.strings.RoundTrip ∧ Leaves.strings.tx.WritesReadable 0 ∧
      Response.fromStr (fun _ => .error .invalidNumber) (ResponseResult.deserialize Leaves.strings)
          (Response.toStr (ResponseResult.codec Leaves.strings) (fun _ => [])
            ⟨.setSpend ⟨true⟩, 0⟩) = .ok ⟨.sig ⟨true⟩, 0⟩ ∧
      Response.fromStr (fun _ => .error .invalidNumber) (ResponseResult.deserialize Leaves.strings)
          (Response.toStr (ResponseResult.codec Leaves.strings) (fun _ => [])
            ⟨.sig ⟨true⟩, 0⟩) = .ok ⟨.sig ⟨true⟩, 0⟩ :=
  have h : Response.fromStr (fun _ => .error .invalidNumber)
      (ResponseResult.deserialize Leaves.strings)
      (Response.toStr (ResponseResult.codec Leaves.strings) (fun _ => [])
        ⟨.setSpend ⟨true⟩, 0⟩) = .ok ⟨.sig ⟨true⟩, 0⟩ := by
    simpa [skipBlanks, ResponseResult.readBack] using
      Response.fromStr_toStr_append Leaves.strings_roundTrip (string_writesReadable 0)
        (fun _ => .error .invalidNumber) (fun _ => []) (.setSpend ⟨true⟩) 0 []
  ⟨Leaves.strings_roundTrip, string_writesReadable 0, h,
    response_from_str_relay Leaves.strings_roundTrip (string_writesReadable 0) _ _ h⟩

end ResponseText

end RevaultNet.Message
