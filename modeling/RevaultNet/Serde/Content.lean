import RevaultNet.Bitcoin.Hex
import RevaultNet.Bitcoin.Encode

/-! # JSON values as serde sees them

The messages of `src/src/message.rs` go through `serde_json`. An untagged enum first buffers the
whole value into serde's `Content` and then replays it to each variant's deserializer, so every
decoder of the repository reads a `Content`:

* `Content`: the constructors a JSON text produces. A string literal without escape sequences
  is borrowed from the input (`Content::Str`), one with an escape is copied (`Content::String`);
  object keys are kept as plain strings, since every visitor of keys here (the derived field
  identifiers, `PublicKey`'s string visitor) reads both alike.
* `Error`: `serde::de::Error` as the decoders here raise it.
* `strContent s`: what the parser gives back for a string `serde_json` wrote: the writer escapes
  exactly `"`, `\` and the control characters below `0x20` (`needsEscape`).
* `Codec`: a type's `Serialize` and `Deserialize`, with the primitive ones the messages use:
  `bool`, `u32`, the borrowed `&str`, `String`, and the types written as strings (`StrCodec`).
-/

namespace RevaultNet.Serde
set_option autoImplicit false

/-- A JSON value as buffered by serde (`serde::__private::de::Content`). -/
inductive Content where
  | unit
  | bool (b : Bool)
  | u64 (n : BitVec 64)
  /-- A negative integer, as its two's-complement bits. -/
  | i64 (n : BitVec 64)
  /-- A number with a fraction or an exponent, as its IEEE bits. -/
  | f64 (bits : BitVec 64)
  /-- A string literal without escapes, borrowed from the input. -/
  | str (s : String)
  /-- A string literal with an escape, copied out of the input. -/
  | string (s : String)
  | seq (xs : List Content)
  | map (entries : List (String × Content))
  deriving Repr, Inhabited

/-- `serde::de::Error` as the decoders of the messages raise it. -/
inductive Error where
  | custom (msg : String)
  | invalidType
  | invalidValue
  | invalidLength (len : Nat)
  | missingField (field : String)
  | duplicateField (field : String)
  /-- `Error::custom` on a `hex::Error`, in `serde_tx_hex`. -/
  | hex (e : Hex.Error)
  /-- `Error::custom` on an `encode::Error`, in `serde_tx_hex`. -/
  | consensus (e : Consensus.Error)
  deriving Repr, DecidableEq

/-- The value of the first member named `k` of an object. -/
def Content.lookup (k : String) : Content → Option Content
  | .map es => (es.find? (·.1 = k)).map (·.2)
  | _ => none

/-- The values of the members named `k`, in order. -/
def valuesOf (k : String) (es : List (String × Content)) : List Content :=
  (es.filter (·.1 = k)).map (·.2)

/-- The members not named `k`. -/
def others (k : String) (es : List (String × Content)) : List (String × Content) :=
  es.filter (·.1 ≠ k)

@[simp] theorem valuesOf_nil (k : String) : valuesOf k [] = [] := rfl

@[simp] theorem others_nil (k : String) : others k [] = [] := rfl

theorem valuesOf_cons (k k' : String) (v : Content) (es : List (String × Content)) :
    valuesOf k ((k', v) :: es) = if k' = k then v :: valuesOf k es else valuesOf k es := by
  by_cases h : k' = k <;> simp [valuesOf, List.filter_cons, h]

theorem others_cons (k k' : String) (v : Content) (es : List (String × Content)) :
    others k ((k', v) :: es) = if k' = k then others k es else (k', v) :: others k es := by
  by_cases h : k' = k <;> simp [others, List.filter_cons, h]

theorem valuesOf_others {k k' : String} (h : k ≠ k') (es : List (String × Content)) :
    valuesOf k (others k' es) = valuesOf k es := by
  simp only [valuesOf, others, List.filter_filter]
  congr 2
  funext e
  by_cases he : e.1 = k <;> simp [he, h]

theorem valuesOf_of_not_mem {k : String} {es : List (String × Content)}
    (h : k ∉ es.map (·.1)) : valuesOf k es = [] := by
  simp only [valuesOf, List.map_eq_nil_iff, List.filter_eq_nil_iff, decide_eq_true_eq]
  exact fun e he hk => h (List.mem_map.2 ⟨e, he, hk⟩)

theorem others_of_not_mem {k : String} {es : List (String × Content)}
    (h : k ∉ es.map (·.1)) : others k es = es := by
  simp only [others, List.filter_eq_self, decide_eq_true_eq]
  exact fun e he hk => h (List.mem_map.2 ⟨e, he, hk⟩)

theorem lookup_of_valuesOf {k : String} {es : List (String × Content)} {v : Content}
    (h : valuesOf k es = [v]) : (Content.map es).lookup k = some v := by
  induction es with
  | nil => simp at h
  | cons e es ih =>
    obtain ⟨k', w⟩ := e
    rw [valuesOf_cons] at h
    by_cases hk : k' = k
    · simp only [hk, if_true, List.cons.injEq] at h
      simp [Content.lookup, hk, h.1]
    · simp only [hk, if_false] at h
      simpa [Content.lookup, List.find?_cons, hk] using ih h

/-! ## Strings through the text -/

/-- Whether `serde_json` writes an escape inside the string: a quote, a backslash, or a control
character below `0x20` (its `ESCAPE` table). -/
def needsEscape (s : String) : Bool :=
  s.toList.any fun c => c.toNat < 0x20 || c = '"' || c = '\\'

/-- The string `serde_json` wrote, as its parser reads it back: borrowed exactly when the text
holds no escape. -/
def strContent (s : String) : Content := if needsEscape s then .string s else .str s

/-! ## Codecs -/

/-- A type's `Serialize` (to the value the JSON text is read back as) and `Deserialize`. -/
structure Codec (α : Type) where
  serialize : α → Content
  deserialize : Content → Except Error α

/-- Deserializing what was serialized gives `a` back. -/
def Codec.ReadsBack {α : Type} (c : Codec α) (a : α) : Prop := c.deserialize (c.serialize a) = .ok a

/-- Deserializing what was serialized gives the value back. -/
def Codec.RoundTrip {α : Type} (c : Codec α) : Prop := ∀ a, c.deserialize (c.serialize a) = .ok a

/-- `bool`. -/
def bool : Codec Bool where
  serialize := .bool
  deserialize
    | .bool b => .ok b
    | _ => .error .invalidType

/-- `u32`: written as its decimal digits, read back as a `U64`; the visitor accepts any integer
in range. -/
def u32 : Codec (BitVec 32) where
  serialize n := .u64 (n.setWidth 64)
  deserialize
    | .u64 n => if n.toNat ≤ 4294967295 then .ok (n.setWidth 32) else .error .invalidValue
    | .i64 n =>
      if 0 ≤ n.toInt ∧ n.toInt ≤ 4294967295 then .ok (BitVec.ofInt 32 n.toInt)
      else .error .invalidValue
    | _ => .error .invalidType

/-- `&'a str`: only a borrowed string can be handed out without a copy. -/
def strRef : Codec String where
  serialize := strContent
  deserialize
    | .str s => .ok s
    | _ => .error .invalidType

/-- `String`, which takes a borrowed or a copied string. -/
def string : Codec String where
  serialize := strContent
  deserialize
    | .str s | .string s => .ok s
    | _ => .error .invalidType

/-- A type written as a string (`collect_str`) and read back by a visitor of strings, as the
`bitcoin` and `secp256k1` types are in human-readable formats. -/
structure StrCodec (α : Type) where
  toStr : α → String
  fromStr : String → Except Error α

/-- The string parser reads back every string the printer writes. -/
def StrCodec.RoundTrip {α : Type} (c : StrCodec α) : Prop := ∀ a, c.fromStr (c.toStr a) = .ok a

/-- The `Serialize` and `Deserialize` of a type written as a string. -/
def StrCodec.codec {α : Type} (c : StrCodec α) : Codec α where
  serialize a := strContent (c.toStr a)
  deserialize
    | .str s | .string s => c.fromStr s
    | _ => .error .invalidType

theorem strContent_eq (s : String) : strContent s = .str s ∨ strContent s = .string s := by
  unfold strContent
  split <;> simp

theorem bool_roundTrip : bool.RoundTrip := fun _ => rfl

theorem u32_roundTrip : u32.RoundTrip := fun n => by
  have hn : n.toNat < 4294967296 := n.isLt
  simp only [u32, BitVec.toNat_setWidth, Nat.mod_eq_of_lt (show n.toNat < 2 ^ 64 by omega)]
  rw [if_pos (by omega)]
  congr 1
  exact BitVec.eq_of_toNat_eq (by simp [Nat.mod_eq_of_lt hn])

theorem strRef_roundTrip {s : String} (h : needsEscape s = false) :
    strRef.deserialize (strRef.serialize s) = .ok s := by
  simp [strRef, strContent, h]

theorem string_roundTrip : string.RoundTrip := fun s => by
  rcases strContent_eq s with h | h <;> simp [string, h]

/-- `&str` takes only a borrowed string. -/
theorem strRef_deserialize_eq_ok {c : Content} {m : String} :
    strRef.deserialize c = .ok m ↔ c = .str m := by
  cases c <;> simp [strRef]

/-- `String` takes a borrowed or a copied string. -/
theorem string_deserialize_eq_ok {c : Content} {s : String} :
    string.deserialize c = .ok s ↔ c = .str s ∨ c = .string s := by
  cases c <;> simp [string]

theorem StrCodec.codec_roundTrip {α : Type} {c : StrCodec α} (h : c.RoundTrip) :
    c.codec.RoundTrip := fun a => by
  rcases strContent_eq (c.toStr a) with e | e <;> simp [StrCodec.codec, e, h a]

end RevaultNet.Serde
