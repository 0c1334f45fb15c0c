import RevaultNet.Serde.Content
import RevaultNet.Bitcoin.Transaction

/-! # `serde_tx_hex`: a transaction as the hex of its consensus bytes

`#[serde(with = "serde_tx_hex")]` on `SetSpendTx::transaction`, `SpendTx::transaction` and
`SignRequest::tx` (`src/src/message.rs`, `mod serde_tx_hex`):

* `serialize`: `encode::serialize(tx).to_hex()`, written as a JSON string; the digits need no
  escape, so the string comes back borrowed.
* `deserialize`: a string (borrowed or copied), `Vec::from_hex` of it, `encode::deserialize` of
  the bytes, each failure wrapped by `Error::custom`.

`serde_tx_hex_deserialize_serialize`: every transaction whose vectors pass the decoder's
allocation checks, and whose consensus bytes fit the `MAX_VEC_SIZE` bytes the decoder reads,
comes back as it was. The allocation checks alone are not enough: two output scripts of
2,000,000 bytes each pass them, and the decoder stops at the end of its window
(`serde_tx_hex_two_large_scripts_refused`). `serde_tx_hex_deserialize_eq_ok`: the strings read
are exactly the hex, in either case, of such a transaction's consensus bytes, and
`serde_tx_hex_serialize_deserialize`: writing a transaction read from a string gives that
string back in lowercase. `serde_tx_hex_deserialize_cut`: the hex of the first bytes of an encoding
is refused with `Io(UnexpectedEof)`, since every read of the decoder meets the end of its input.
-/

namespace RevaultNet.Message.SerdeTxHex
open Serde
open Consensus (Transaction VecSizes)
set_option autoImplicit false

/-- `serde_tx_hex::serialize`. -/
def serialize (tx : Transaction) : Content := strContent (Hex.toHex tx.serialize)

/-- `serde_tx_hex::deserialize`. -/
def deserialize (sz : VecSizes) (c : Content) : Except Serde.Error Transaction := do
  let s ← string.deserialize c
  let bytes ← (Hex.fromHex s).mapError .hex
  (Consensus.deserialize sz bytes).mapError .consensus

/-- The codec `#[serde(with = "serde_tx_hex")]` gives a transaction field. -/
def codec (sz : VecSizes) : Codec Transaction := ⟨serialize, deserialize sz⟩

/-- Hex digits need no escape. -/
theorem needsEscape_toHex (bytes : List (BitVec 8)) : needsEscape (Hex.toHex bytes) = false := by
  have digits : ∀ c ∈ Hex.hexDigits, ¬(c.toNat < 0x20 || c = '"' || c = '\\') = true := by
    decide
  simp only [needsEscape, List.any_eq_false]
  exact fun c hc => digits c (Hex.mem_toHex hc)

/-- What `serde_tx_hex` reads from what it wrote is what the consensus decoder reads from the
transaction's bytes. -/
theorem deserialize_serialize_eq (sz : VecSizes) (t : Transaction) :
    deserialize sz (serialize t) = (Consensus.deserialize sz t.serialize).mapError .consensus := by
  simp [deserialize, serialize, strContent, needsEscape_toHex, string, Hex.fromHex_toHex,
    Except.mapError]

/-- `serde_tx_hex` reads a transaction back exactly when it passes the allocation checks and its
consensus bytes fit the window. -/
theorem codec_readsBack_iff (sz : VecSizes) (t : Transaction) :
    (codec sz).ReadsBack t ↔ t.FitsAlloc sz ∧ t.serialize.length ≤ Consensus.maxVecSize := by
  rw [Codec.ReadsBack, show (codec sz).deserialize ((codec sz).serialize t) =
    deserialize sz (serialize t) from rfl, deserialize_serialize_eq, mapError_eq_ok,
    Consensus.deserialize_eq_ok]
  simp

theorem serde_tx_hex_deserialize_serialize (sz : VecSizes) (t : Transaction)
    (h : t.FitsAlloc sz) (hlen : t.serialize.length ≤ Consensus.maxVecSize) :
    deserialize sz (serialize t) = .ok t :=
  (codec_readsBack_iff sz t).2 ⟨h, hlen⟩

/-- A transaction with no input, where the empty input list is written as the segwit marker. -/
theorem serde_tx_hex_deserialize_serialize_no_input :
    Transaction.FitsAlloc .x86_64 ⟨2, 0, [], [⟨0, []⟩]⟩ ∧
      (Transaction.serialize ⟨2, 0, [], [⟨0, []⟩]⟩).length ≤ Consensus.maxVecSize ∧
      deserialize .x86_64 (serialize ⟨2, 0, [], [⟨0, []⟩]⟩) = .ok ⟨2, 0, [], [⟨0, []⟩]⟩ :=
  ⟨by decide, by decide, serde_tx_hex_deserialize_serialize _ _ (by decide) (by decide)⟩

/-- One input and two outputs whose scripts are 2,000,000 bytes each: every vector passes its
allocation check, but the encoding is longer than the window the decoder reads, and the read of the
second script meets its end. -/
theorem serde_tx_hex_two_large_scripts_refused :
    Transaction.FitsAlloc .x86_64
        ⟨2, 0, [⟨⟨⟨List.replicate 32 0, List.length_replicate _ _⟩, 0⟩, [], 0xFFFFFFFF, []⟩],
          [⟨0, List.replicate 2000000 0⟩, ⟨0, List.replicate 2000000 0⟩]⟩ ∧
      deserialize .x86_64 (serialize
        ⟨2, 0, [⟨⟨⟨List.replicate 32 0, List.length_replicate _ _⟩, 0⟩, [], 0xFFFFFFFF, []⟩],
          [⟨0, List.replicate 2000000 0⟩, ⟨0, List.replicate 2000000 0⟩]⟩) =
        .error (.consensus .io) := by
  have hfit : Transaction.FitsAlloc .x86_64
      ⟨2, 0, [⟨⟨⟨List.replicate 32 0, List.length_replicate _ _⟩, 0⟩, [], 0xFFFFFFFF, []⟩],
        [⟨0, List.replicate 2000000 0⟩, ⟨0, List.replicate 2000000 0⟩]⟩ := by
    simp [Transaction.FitsAlloc, Consensus.TxIn.FitsAlloc, Consensus.maxVecSize, VecSizes.x86_64,
      -List.reduceReplicate]
  have hlen : Consensus.maxVecSize < (Transaction.serialize
      ⟨2, 0, [⟨⟨⟨List.replicate 32 0, List.length_replicate _ _⟩, 0⟩, [], 0xFFFFFFFF, []⟩],
        [⟨0, List.replicate 2000000 0⟩, ⟨0, List.replicate 2000000 0⟩]⟩).length := by
    -- the input is kept abstract: only its missing witness matters to the layout
    generalize hi : (⟨⟨⟨List.replicate 32 0, List.length_replicate _ _⟩, 0⟩, [], 0xFFFFFFFF, []⟩ :
      Consensus.TxIn) = i
    have hwit : i.witness = [] := by subst hi; rfl
    simp only [Transaction.serialize, Transaction.haveWitness, List.isEmpty_cons, List.any_cons,
      List.any_nil, hwit, List.isEmpty_nil, Bool.not_true, Bool.or_false, Bool.false_eq_true,
      if_false, List.length_append, Consensus.emitU32, Consensus.leBytes_length, Consensus.emitVec,
      List.flatMap_cons, List.flatMap_nil, List.append_nil, Consensus.emitBytes,
      Consensus.TxOut.encode, List.length_replicate, Consensus.maxVecSize]
    omega
  refine ⟨hfit, ?_⟩
  rw [deserialize_serialize_eq, Consensus.deserialize_serialize_of_length _ hfit hlen]
  rfl

/-- `serde_tx_hex::deserialize` accepts exactly a string, borrowed or copied, that `from_hex`
reads, in either case, as the consensus bytes of a transaction passing the allocation checks and
fitting the window. -/
theorem serde_tx_hex_deserialize_eq_ok (sz : VecSizes) (c : Content) (t : Transaction) :
    deserialize sz c = .ok t ↔ t.FitsAlloc sz ∧ t.serialize.length ≤ Consensus.maxVecSize ∧
      ∃ s, (c = .str s ∨ c = .string s) ∧ Hex.fromHex s = .ok t.serialize := by
  simp only [deserialize, bind_eq_ok, mapError_eq_ok, Consensus.deserialize_eq_ok,
    string_deserialize_eq_ok]
  constructor
  · rintro ⟨s, hs, _, hb, hfit, hlen, rfl⟩
    exact ⟨hfit, hlen, s, hs, hb⟩
  · rintro ⟨hfit, hlen, s, hs, hb⟩
    exact ⟨s, hs, _, hb, hfit, hlen, rfl⟩

/-- A string holding the hex of only the first bytes of a transaction's encoding, the empty string
included, is refused with `Io(UnexpectedEof)`. -/
theorem serde_tx_hex_deserialize_cut (sz : VecSizes) {t : Transaction} (h : t.FitsAlloc sz)
    {k : Nat} (hk : k < t.serialize.length) :
    deserialize sz (.str (Hex.toHex (t.serialize.take k))) = .error (.consensus .io) := by
  simp only [deserialize, string, Hex.fromHex_toHex, mapError_ok, ok_bind,
    Consensus.deserialize_take sz h hk]
  rfl

/-- The first three bytes of a transaction with no input. -/
theorem serde_tx_hex_deserialize_cut_three :
    Transaction.FitsAlloc .x86_64 ⟨2, 0, [], [⟨0, []⟩]⟩ ∧
      3 < (Transaction.serialize ⟨2, 0, [], [⟨0, []⟩]⟩).length ∧
      deserialize .x86_64 (.str (Hex.toHex ((Transaction.serialize ⟨2, 0, [], [⟨0, []⟩]⟩).take 3))) =
        .error (.consensus .io) :=
  ⟨by decide, by decide, serde_tx_hex_deserialize_cut .x86_64 (by decide) (by decide)⟩

/-- Writing a transaction read from a string gives the string back, in lowercase and borrowed. -/
theorem serde_tx_hex_serialize_deserialize (sz : VecSizes) {c : Content} {t : Transaction}
    (h : deserialize sz c = .ok t) :
    ∃ s, (c = .str s ∨ c = .string s) ∧ serialize t = .str s.toLower := by
  obtain ⟨s, hs, bytes, hb, ht⟩ := by simpa only [deserialize, bind_eq_ok, mapError_eq_ok,
    string_deserialize_eq_ok] using h
  obtain ⟨-, -, rfl⟩ := (Consensus.deserialize_eq_ok sz).1 ht
  refine ⟨s, hs, ?_⟩
  rw [serialize, strContent, needsEscape_toHex, Hex.toHex_fromHex hb]
  rfl

/-- An uppercase string is read, and written back in lowercase. -/
theorem serde_tx_hex_serialize_deserialize_upper :
    deserialize .x86_64 (.str "FE0000000001000100000000000000000000000000") =
        .ok ⟨0xFE, 0, [], [⟨0, []⟩]⟩ ∧
      ∃ s, (Content.str "FE0000000001000100000000000000000000000000" = .str s ∨
        Content.str "FE0000000001000100000000000000000000000000" = .string s) ∧
        serialize ⟨0xFE, 0, [], [⟨0, []⟩]⟩ = .str s.toLower :=
  ⟨rfl, serde_tx_hex_serialize_deserialize .x86_64 rfl⟩

end RevaultNet.Message.SerdeTxHex
