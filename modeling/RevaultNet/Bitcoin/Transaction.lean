import RevaultNet.Bitcoin.Encode

/-! # Transactions and their consensus codec (`bitcoin::Transaction`)

The value `serde_tx_hex` carries. Its codec, as the crate writes it:

* `serialize`: version, then, when some input has a witness or there is no input at all, the
  BIP144 marker and flag `0x00 0x01`, the inputs, the outputs and one witness per input;
  otherwise the inputs and the outputs alone; then the lock time. An input is written without
  its witness.
* `consensusDecode`: the fields are read through `d.take(MAX_VEC_SIZE)`, a window of the first
  `MAX_VEC_SIZE` bytes (`decodeFields`): version and inputs; an empty input list is read as the
  segwit marker, so the next byte must be the flag `1`, after which inputs, outputs and
  witnesses are read, and a non-empty input list whose witnesses are all empty is refused.
* `deserialize`: `consensusDecode` and then the check that no byte is left over.

`deserialize_serialize` is the round trip, over every transaction whose vectors pass the
decoder's allocation checks (`FitsAlloc`) and whose encoding fits the window.
`deserialize_eq_ok` is the converse: the decoder accepts exactly the serializations of those
transactions, so no transaction has a second encoding. The window is a bound of its own: the
allocation checks look at one vector at a time, and a transaction whose vectors all pass them
can still be longer than `MAX_VEC_SIZE`, and every cut of an encoding is refused with
`Io(UnexpectedEof)` (`deserialize_serialize_of_length`).
-/

namespace RevaultNet.Consensus
set_option autoImplicit false

/-- A `sha256d` transaction id: 32 bytes. -/
structure Txid where
  bytes : List (BitVec 8)
  length_eq : bytes.length = 32
  deriving DecidableEq

/-- `OutPoint`: the transaction and the output it points at. -/
structure OutPoint where
  txid : Txid
  vout : BitVec 32
  deriving DecidableEq

/-- `TxIn`; the script is `Script`, a byte string. -/
structure TxIn where
  previousOutput : OutPoint
  scriptSig : List (BitVec 8)
  sequence : BitVec 32
  witness : List (List (BitVec 8))
  deriving DecidableEq

/-- `TxOut`. -/
structure TxOut where
  value : BitVec 64
  scriptPubkey : List (BitVec 8)
  deriving DecidableEq

/-- `Transaction`; the version is the `i32`'s two's-complement bits. -/
structure Transaction where
  version : BitVec 32
  lockTime : BitVec 32
  input : List TxIn
  output : List TxOut
  deriving DecidableEq

/-- `mem::size_of` of the element types `impl_vec!` checks allocations with: `TxIn`, `TxOut`
and `Vec<u8>` (a witness item). They depend on the target, so they are parameters. -/
structure VecSizes where
  txIn : Nat
  txOut : Nat
  bytes : Nat
  txIn_pos : 0 < txIn
  txOut_pos : 0 < txOut
  bytes_pos : 0 < bytes

/-- The sizes on x86_64: `TxIn` takes 80 bytes, `TxOut` 24 and `Vec<u8>` 24. -/
def VecSizes.x86_64 : VecSizes := ⟨80, 24, 24, by decide, by decide, by decide⟩

/-! ## Writing -/

/-- A txid is written as its 32 bytes. -/
def Txid.encode (t : Txid) : List (BitVec 8) := t.bytes

def OutPoint.encode (o : OutPoint) : List (BitVec 8) := o.txid.encode ++ emitU32 o.vout

/-- An input is written without its witness. -/
def TxIn.encode (i : TxIn) : List (BitVec 8) :=
  i.previousOutput.encode ++ emitBytes i.scriptSig ++ emitU32 i.sequence

def TxOut.encode (o : TxOut) : List (BitVec 8) := emitU64 o.value ++ emitBytes o.scriptPubkey

/-- `Vec<Vec<u8>>::consensus_encode`, one input's witness. -/
def encodeWitness (w : List (List (BitVec 8))) : List (BitVec 8) := emitVec emitBytes w

/-- Whether `serialize` takes the BIP144 layout: some input has a witness, or there is none. -/
def Transaction.haveWitness (t : Transaction) : Bool :=
  t.input.isEmpty || t.input.any (!·.witness.isEmpty)

/-- `encode::serialize` of a transaction. -/
def Transaction.serialize (t : Transaction) : List (BitVec 8) :=
  emitU32 t.version ++
    (if t.haveWitness then
      emitU8 0 ++ emitU8 1 ++ emitVec TxIn.encode t.input ++ emitVec TxOut.encode t.output ++
        t.input.flatMap (encodeWitness ·.witness)
    else emitVec TxIn.encode t.input ++ emitVec TxOut.encode t.output) ++
    emitU32 t.lockTime

/-! ## Reading -/

/-- `read_slice` into a 32-byte array. -/
def Txid.decode : Decoder Txid := fun bs =>
  if h : 32 ≤ bs.length then .ok (⟨bs.take 32, by simp [h]⟩, bs.drop 32) else .error .io

def OutPoint.decode : Decoder OutPoint := fun bs => do
  let (txid, bs) ← Txid.decode bs
  let (vout, bs) ← readU32 bs
  pure (⟨txid, vout⟩, bs)

/-- `TxIn::consensus_decode`; the witness is not part of the encoding and is left empty. -/
def TxIn.decode : Decoder TxIn := fun bs => do
  let (previousOutput, bs) ← OutPoint.decode bs
  let (scriptSig, bs) ← readBytes bs
  let (sequence, bs) ← readU32 bs
  pure (⟨previousOutput, scriptSig, sequence, []⟩, bs)

def TxOut.decode : Decoder TxOut := fun bs => do
  let (value, bs) ← readU64 bs
  let (scriptPubkey, bs) ← readBytes bs
  pure (⟨value, scriptPubkey⟩, bs)

/-- The witness loop of the BIP144 branch: `txin.witness = Decodable::consensus_decode(d)?`. -/
def readWitnesses (sz : VecSizes) : List TxIn → Decoder (List TxIn)
  | [], bs => .ok ([], bs)
  | i :: is, bs => do
    let (w, bs) ← readVec sz.bytes readBytes bs
    let (is, bs) ← readWitnesses sz is bs
    pure ({ i with witness := w } :: is, bs)

/-- The body of `Transaction::consensus_decode`, reading from `d.take(MAX_VEC_SIZE)`. -/
def Transaction.decodeFields (sz : VecSizes) : Decoder Transaction := fun bs => do
  let (version, bs) ← readU32 bs
  let (input, bs) ← readVec sz.txIn TxIn.decode bs
  if input.isEmpty then
    let (flag, bs) ← readU8 bs
    if flag = 1 then
      let (input, bs) ← readVec sz.txIn TxIn.decode bs
      let (output, bs) ← readVec sz.txOut TxOut.decode bs
      let (input, bs) ← readWitnesses sz input bs
      if !input.isEmpty && input.all (·.witness.isEmpty) then
        .error (.parseFailed "witness flag set but no witnesses present")
      else
        let (lockTime, bs) ← readU32 bs
        pure (⟨version, lockTime, input, output⟩, bs)
    else .error (.unsupportedSegwitFlag flag)
  else
    let (output, bs) ← readVec sz.txOut TxOut.decode bs
    let (lockTime, bs) ← readU32 bs
    pure (⟨version, lockTime, input, output⟩, bs)

/-- `Transaction::consensus_decode`: the fields are read from the window of the first
`MAX_VEC_SIZE` bytes, where a read past its end is `Io(UnexpectedEof)`; what the fields leave of the
window comes back followed by the bytes after it. -/
def Transaction.consensusDecode (sz : VecSizes) : Decoder Transaction := fun bs => do
  let (t, rest) ← Transaction.decodeFields sz (bs.take maxVecSize)
  pure (t, rest ++ bs.drop maxVecSize)

/-- `encode::deserialize`: decode, then refuse leftover bytes. -/
def deserialize (sz : VecSizes) (data : List (BitVec 8)) : Except Error Transaction := do
  let (t, rest) ← Transaction.consensusDecode sz data
  if rest.isEmpty then pure t
  else .error (.parseFailed "data not consumed entirely when explicitly deserializing")

/-! ## Allocation bound -/

/-- An input's vectors pass the decoder's allocation checks: its script, its witness stack and
each witness item. -/
def TxIn.FitsAlloc (sz : VecSizes) (i : TxIn) : Prop :=
  i.scriptSig.length ≤ maxVecSize ∧ i.witness.length * sz.bytes ≤ maxVecSize ∧
    ∀ w ∈ i.witness, w.length ≤ maxVecSize

/-- Every vector of the transaction passes the decoder's allocation checks. -/
def Transaction.FitsAlloc (sz : VecSizes) (t : Transaction) : Prop :=
  t.input.length * sz.txIn ≤ maxVecSize ∧ t.output.length * sz.txOut ≤ maxVecSize ∧
    (∀ i ∈ t.input, i.FitsAlloc sz) ∧ ∀ o ∈ t.output, o.scriptPubkey.length ≤ maxVecSize

instance (sz : VecSizes) (i : TxIn) : Decidable (i.FitsAlloc sz) :=
  inferInstanceAs (Decidable (_ ∧ _ ∧ _))

instance (sz : VecSizes) (t : Transaction) : Decidable (t.FitsAlloc sz) :=
  inferInstanceAs (Decidable (_ ∧ _ ∧ _ ∧ _))

/-! ## Reading back what was written -/

/-- An input as `TxIn::consensus_decode` returns it: without its witness. -/
def TxIn.clearWitness (i : TxIn) : TxIn := { i with witness := [] }

theorem TxIn.clearWitness_eq_self {i : TxIn} (h : i.witness = []) : i.clearWitness = i := by
  cases i
  simp_all [TxIn.clearWitness]

/-- The legacy layout is taken exactly when there is an input and no input has a witness. -/
theorem Transaction.haveWitness_eq_false {t : Transaction} :
    t.haveWitness = false ↔ t.input ≠ [] ∧ ∀ i ∈ t.input, i.witness = [] := by
  simp [Transaction.haveWitness]

/-- The legacy layout has no witness to clear. -/
theorem Transaction.map_clearWitness {t : Transaction} (hw : t.haveWitness = false) :
    t.input.map TxIn.clearWitness = t.input :=
  (List.map_congr_left (g := id) fun i hi =>
    TxIn.clearWitness_eq_self ((Transaction.haveWitness_eq_false.1 hw).2 i hi)).trans (List.map_id _)

/-- The decoder's refusal of all-empty witnesses is the writer's choice of layout, negated. -/
theorem Transaction.allWitnessesEmpty_eq (t : Transaction) :
    (!t.input.isEmpty && t.input.all fun i => i.witness.isEmpty) = !t.haveWitness := by
  simp [Transaction.haveWitness, List.all_eq_not_any_not]

theorem Txid.decode_encode (t : Txid) (rest : List (BitVec 8)) :
    Txid.decode (t.encode ++ rest) = .ok (t, rest) := by
  have h := t.length_eq
  simp [Txid.decode, Txid.encode, h, List.take_left', List.drop_left']

theorem OutPoint.decode_encode (o : OutPoint) (rest : List (BitVec 8)) :
    OutPoint.decode (o.encode ++ rest) = .ok (o, rest) := by
  simp [OutPoint.decode, OutPoint.encode, Txid.decode_encode]

theorem TxIn.decode_encode (i : TxIn) (h : i.scriptSig.length ≤ maxVecSize)
    (rest : List (BitVec 8)) : TxIn.decode (i.encode ++ rest) = .ok (i.clearWitness, rest) := by
  simp [TxIn.decode, TxIn.encode, OutPoint.decode_encode, readBytes_emitBytes h,
    TxIn.clearWitness]

theorem TxOut.decode_encode (o : TxOut) (h : o.scriptPubkey.length ≤ maxVecSize)
    (rest : List (BitVec 8)) : TxOut.decode (o.encode ++ rest) = .ok (o, rest) := by
  simp [TxOut.decode, TxOut.encode, readBytes_emitBytes h]

/-- The witness loop puts every input's witness back. -/
theorem readWitnesses_encodeWitness (sz : VecSizes) {is : List TxIn}
    (h : ∀ i ∈ is, i.FitsAlloc sz) (rest : List (BitVec 8)) :
    readWitnesses sz (is.map TxIn.clearWitness) (is.flatMap (encodeWitness ·.witness) ++ rest) =
      .ok (is, rest) := by
  induction is with
  | nil => rfl
  | cons i is ih =>
    obtain ⟨-, hw, hitems⟩ := h i (.head _)
    have stack := readVec_emitVec id sz.bytes_pos hw
      (fun w hw' rest => readBytes_emitBytes (hitems w hw') rest)
    simp only [encodeWitness] at ih
    simp only [List.map_cons, List.flatMap_cons, List.append_assoc, readWitnesses, encodeWitness,
      stack, ok_bind, List.map_id, ih fun j hj => h j (.tail _ hj), pure_eq_ok]
    cases i
    rfl

theorem decodeFields_serialize (sz : VecSizes) {t : Transaction} (h : t.FitsAlloc sz)
    (rest : List (BitVec 8)) :
    Transaction.decodeFields sz (t.serialize ++ rest) = .ok (t, rest) := by
  obtain ⟨hin, hout, hins, houts⟩ := h
  have inputs := readVec_emitVec TxIn.clearWitness sz.txIn_pos hin
    fun i hi => TxIn.decode_encode i (hins i hi).1
  have outputs := readVec_emitVec id sz.txOut_pos hout
    fun o ho => TxOut.decode_encode o (houts o ho)
  have witnesses := readWitnesses_encodeWitness sz hins
  cases hw : t.haveWitness
  · -- the legacy layout: some input, and no input has a witness
    simp only [Transaction.serialize, hw, Bool.false_eq_true, if_false, List.append_assoc,
      Transaction.decodeFields, readU32_emitU32, ok_bind, inputs, Transaction.map_clearWitness hw,
      outputs, List.map_id, List.isEmpty_eq_false.2 (Transaction.haveWitness_eq_false.1 hw).1,
      pure_eq_ok]
  · -- the BIP144 layout: the empty input list is the marker, then the flag
    have marker : emitU8 0 = emitVec TxIn.encode [] := rfl
    have empty := @readVec_emitVec _ _ TxIn.decode TxIn.encode TxIn.clearWitness []
      sz.txIn_pos (by simp) (by simp)
    simp only [Transaction.serialize, hw, if_true, marker, List.append_assoc,
      Transaction.decodeFields, readU32_emitU32, ok_bind, empty, List.map_nil,
      List.isEmpty_nil, readU8_emitU8, inputs, outputs, witnesses, List.map_id,
      Transaction.allWitnessesEmpty_eq, Bool.not_true, Bool.false_eq_true, if_false, pure_eq_ok]

/-- The window holds an encoding that fits it, and the rest after it. -/
theorem take_append_drop_window {xs : List (BitVec 8)} (h : xs.length ≤ maxVecSize)
    (rest : List (BitVec 8)) :
    (xs ++ rest).take maxVecSize = xs ++ rest.take (maxVecSize - xs.length) ∧
      (xs ++ rest).drop maxVecSize = rest.drop (maxVecSize - xs.length) := by
  rw [List.take_append_eq_append_take, List.take_of_length_le h, List.drop_append_eq_append_drop,
    List.drop_eq_nil_of_le h, List.nil_append]
  exact ⟨rfl, rfl⟩

theorem consensusDecode_serialize (sz : VecSizes) {t : Transaction} (h : t.FitsAlloc sz)
    (hlen : t.serialize.length ≤ maxVecSize) (rest : List (BitVec 8)) :
    Transaction.consensusDecode sz (t.serialize ++ rest) = .ok (t, rest) := by
  obtain ⟨window, after⟩ := take_append_drop_window hlen rest
  simp only [Transaction.consensusDecode, window, decodeFields_serialize sz h, ok_bind, after,
    List.take_append_drop, pure_eq_ok]

/-- `encode::deserialize` reads back what `encode::serialize` wrote, for every transaction whose
vectors pass the allocation checks and whose encoding fits the window: no input, inputs with and
without witnesses, and counts on either side of every `VarInt` width. -/
theorem deserialize_serialize (sz : VecSizes) {t : Transaction} (h : t.FitsAlloc sz)
    (hlen : t.serialize.length ≤ maxVecSize) : deserialize sz t.serialize = .ok t := by
  have decoded := consensusDecode_serialize sz h hlen []
  rw [List.append_nil] at decoded
  simp [deserialize, decoded]

/-! ## Reading only what was written

`deserialize` accepts only the bytes `serialize` writes: a byte string it reads as `t` is
`t.serialize`, and `t` passes the allocation checks. The decoder cannot read one transaction from
two byte strings: the `VarInt`s are minimal, and the layout is fixed by the transaction, since
the BIP144 branch refuses inputs whose witnesses are all empty. -/

theorem Txid.decode_eq_ok {bs rest : List (BitVec 8)} {t : Txid} :
    Txid.decode bs = .ok (t, rest) ↔ bs = t.encode ++ rest := by
  refine ⟨fun h => ?_, by rintro rfl; exact Txid.decode_encode t rest⟩
  unfold Txid.decode at h
  split at h
  next => cases h; exact (List.take_append_drop 32 bs).symm
  next => cases h

theorem OutPoint.decode_eq_ok {bs rest : List (BitVec 8)} {o : OutPoint} :
    OutPoint.decode bs = .ok (o, rest) ↔ bs = o.encode ++ rest := by
  refine ⟨fun h => ?_, by rintro rfl; exact OutPoint.decode_encode o rest⟩
  obtain ⟨⟨txid, r⟩, ht, h⟩ := bind_eq_ok.1 h
  obtain ⟨⟨vout, r'⟩, hv, h⟩ := bind_eq_ok.1 h
  simp only [pure_eq_ok, Except.ok.injEq, Prod.mk.injEq] at h
  obtain ⟨rfl, rfl⟩ := h
  rw [Txid.decode_eq_ok.1 ht, readU32_eq_ok.1 hv, OutPoint.encode, List.append_assoc]

theorem TxIn.decode_eq_ok {bs rest : List (BitVec 8)} {i : TxIn} :
    TxIn.decode bs = .ok (i, rest) ↔
      (i.witness = [] ∧ i.scriptSig.length ≤ maxVecSize) ∧ bs = i.encode ++ rest := by
  constructor
  · intro h
    obtain ⟨⟨o, r⟩, ho, h⟩ := bind_eq_ok.1 h
    obtain ⟨⟨script, r⟩, hs, h⟩ := bind_eq_ok.1 h
    obtain ⟨⟨seq, r⟩, hq, h⟩ := bind_eq_ok.1 h
    simp only [pure_eq_ok, Except.ok.injEq, Prod.mk.injEq] at h
    obtain ⟨rfl, rfl⟩ := h
    obtain ⟨hfit, rfl⟩ := readBytes_eq_ok.1 hs
    rw [OutPoint.decode_eq_ok.1 ho, readU32_eq_ok.1 hq]
    exact ⟨⟨rfl, hfit⟩, by simp [TxIn.encode]⟩
  · rintro ⟨⟨hw, hfit⟩, rfl⟩
    rw [TxIn.decode_encode i hfit]
    cases i
    simp_all [TxIn.clearWitness]

theorem TxOut.decode_eq_ok {bs rest : List (BitVec 8)} {o : TxOut} :
    TxOut.decode bs = .ok (o, rest) ↔ o.scriptPubkey.length ≤ maxVecSize ∧ bs = o.encode ++ rest := by
  refine ⟨fun h => ?_, fun ⟨hfit, h⟩ => h ▸ TxOut.decode_encode o hfit rest⟩
  obtain ⟨⟨value, r⟩, hv, h⟩ := bind_eq_ok.1 h
  obtain ⟨⟨script, r⟩, hs, h⟩ := bind_eq_ok.1 h
  simp only [pure_eq_ok, Except.ok.injEq, Prod.mk.injEq] at h
  obtain ⟨rfl, rfl⟩ := h
  obtain ⟨hfit, rfl⟩ := readBytes_eq_ok.1 hs
  rw [readU64_eq_ok.1 hv]
  exact ⟨hfit, by simp [TxOut.encode]⟩

/-- The witness loop reads only witness stacks, and changes nothing but the witnesses. -/
theorem readWitnesses_eq_ok (sz : VecSizes) {is is' : List TxIn} {bs rest : List (BitVec 8)}
    (h : readWitnesses sz is bs = .ok (is', rest)) :
    is'.map TxIn.clearWitness = is.map TxIn.clearWitness ∧
      (∀ i ∈ is', i.witness.length * sz.bytes ≤ maxVecSize ∧
        ∀ w ∈ i.witness, w.length ≤ maxVecSize) ∧
      bs = is'.flatMap (encodeWitness ·.witness) ++ rest := by
  induction is generalizing bs is' with
  | nil =>
    cases h
    exact ⟨rfl, by simp, rfl⟩
  | cons i is ih =>
    obtain ⟨⟨w, r⟩, hw, h⟩ := bind_eq_ok.1 h
    obtain ⟨⟨is'', r'⟩, his, h⟩ := bind_eq_ok.1 h
    simp only [pure_eq_ok, Except.ok.injEq, Prod.mk.injEq] at h
    obtain ⟨rfl, rfl⟩ := h
    obtain ⟨hstack, hitems, rfl⟩ := readVec_eq_ok (fun h => readBytes_eq_ok.1 h) hw
    obtain ⟨hclear, hfit, rfl⟩ := ih his
    refine ⟨by simp [hclear, TxIn.clearWitness], List.forall_mem_cons.2 ⟨⟨hstack, hitems⟩, hfit⟩,
      by simp [encodeWitness]⟩

/-- An input's encoding leaves its witness out. -/
theorem emitVec_clearWitness (is : List TxIn) :
    emitVec TxIn.encode (is.map TxIn.clearWitness) = emitVec TxIn.encode is := by
  simp only [emitVec, List.length_map, List.flatMap_map]
  rfl

theorem decodeFields_eq_ok (sz : VecSizes) {bs rest : List (BitVec 8)} {t : Transaction}
    (h : Transaction.decodeFields sz bs = .ok (t, rest)) :
    t.FitsAlloc sz ∧ bs = t.serialize ++ rest := by
  obtain ⟨⟨version, r⟩, hv, h1⟩ := bind_eq_ok.1 h
  obtain ⟨⟨input, r₁⟩, hin, h2⟩ := bind_eq_ok.1 h1
  obtain ⟨hinFit, hinP, rfl⟩ := readVec_eq_ok (fun h => (TxIn.decode_eq_ok.1 h)) hin
  obtain rfl := readU32_eq_ok.1 hv
  dsimp only at h2
  split_ifs at h2 with hempty
  · -- the BIP144 layout: the empty input list was the marker
    obtain rfl : input = [] := List.isEmpty_iff.1 hempty
    obtain ⟨⟨flag, r₂⟩, hf, h3⟩ := bind_eq_ok.1 h2
    dsimp only at h3
    split_ifs at h3 with hflag
    obtain ⟨⟨input', r₃⟩, hin', h4⟩ := bind_eq_ok.1 h3
    obtain ⟨⟨output, r₄⟩, hout, h5⟩ := bind_eq_ok.1 h4
    obtain ⟨⟨input'', r₅⟩, hwit, h6⟩ := bind_eq_ok.1 h5
    dsimp only at h6
    split_ifs at h6 with hall
    obtain ⟨⟨lockTime, r₆⟩, hlt, h7⟩ := bind_eq_ok.1 h6
    simp only [pure_eq_ok, Except.ok.injEq, Prod.mk.injEq] at h7
    obtain ⟨rfl, rfl⟩ := h7
    obtain rfl := readU32_eq_ok.1 hlt
    obtain ⟨hclear, hwFit, rfl⟩ := readWitnesses_eq_ok sz hwit
    obtain ⟨houtFit, houtP, rfl⟩ := readVec_eq_ok (fun h => TxOut.decode_eq_ok.1 h) hout
    obtain ⟨hin'Fit, hin'P, rfl⟩ := readVec_eq_ok (fun h => TxIn.decode_eq_ok.1 h) hin'
    obtain rfl := readU8_eq_ok.1 hf
    subst hflag
    have inputs : emitVec TxIn.encode input' = emitVec TxIn.encode input'' := by
      rw [← emitVec_clearWitness input', ← hclear, emitVec_clearWitness]
    have hw : Transaction.haveWitness ⟨version, lockTime, input'', output⟩ = true :=
      Bool.ne_false_iff.1 fun h => hall (by simpa using Transaction.haveWitness_eq_false.1 h)
    have scripts : ∀ i ∈ input'', i.scriptSig.length ≤ maxVecSize := fun i hi => by
      obtain ⟨j, hj, hji⟩ := List.mem_map.1 (hclear ▸ List.mem_map_of_mem TxIn.clearWitness hi)
      exact congrArg TxIn.scriptSig hji ▸ (hin'P j hj).2
    refine ⟨⟨?_, houtFit, fun i hi => ⟨scripts i hi, hwFit i hi⟩, houtP⟩, ?_⟩
    · simpa [← List.length_map input'' TxIn.clearWitness, hclear] using hin'Fit
    · simp [Transaction.serialize, hw, inputs]
      rfl
  · -- the legacy layout
    obtain ⟨⟨output, r₂⟩, hout, h3⟩ := bind_eq_ok.1 h2
    obtain ⟨⟨lockTime, r₃⟩, hlt, h4⟩ := bind_eq_ok.1 h3
    simp only [pure_eq_ok, Except.ok.injEq, Prod.mk.injEq] at h4
    obtain ⟨rfl, rfl⟩ := h4
    obtain rfl := readU32_eq_ok.1 hlt
    obtain ⟨houtFit, houtP, rfl⟩ := readVec_eq_ok (fun h => TxOut.decode_eq_ok.1 h) hout
    have hw : Transaction.haveWitness ⟨version, lockTime, input, output⟩ = false :=
      Transaction.haveWitness_eq_false.2 ⟨by simpa using hempty, fun i hi => (hinP i hi).1⟩
    refine ⟨⟨hinFit, houtFit, fun i hi => ⟨(hinP i hi).2, by simp [(hinP i hi).1]⟩, houtP⟩, ?_⟩
    simp [Transaction.serialize, hw]

/-- What the decoder read lay inside the window. -/
theorem consensusDecode_eq_ok (sz : VecSizes) {bs rest : List (BitVec 8)} {t : Transaction}
    (h : Transaction.consensusDecode sz bs = .ok (t, rest)) :
    t.FitsAlloc sz ∧ t.serialize.length ≤ maxVecSize ∧ bs = t.serialize ++ rest := by
  obtain ⟨⟨t', r⟩, hd, h'⟩ := bind_eq_ok.1 h
  simp only [pure_eq_ok, Except.ok.injEq, Prod.mk.injEq] at h'
  obtain ⟨rfl, rfl⟩ := h'
  obtain ⟨hfit, hwin⟩ := decodeFields_eq_ok sz hd
  have hlen := congrArg List.length hwin
  rw [List.length_take, List.length_append] at hlen
  exact ⟨hfit, by omega, by rw [← List.append_assoc, ← hwin, List.take_append_drop]⟩

/-- `encode::deserialize` accepts exactly the serializations of the transactions that pass the
allocation checks and fit the window. -/
theorem deserialize_eq_ok (sz : VecSizes) {data : List (BitVec 8)} {t : Transaction} :
    deserialize sz data = .ok t ↔
      t.FitsAlloc sz ∧ t.serialize.length ≤ maxVecSize ∧ data = t.serialize := by
  refine ⟨fun h => ?_, fun ⟨hfit, hlen, h⟩ => h ▸ deserialize_serialize sz hfit hlen⟩
  obtain ⟨⟨t', rest⟩, hd, h'⟩ := bind_eq_ok.1 h
  dsimp only at h'
  split_ifs at h' with hrest
  cases h'
  obtain ⟨hfit, hlen, rfl⟩ := consensusDecode_eq_ok sz hd
  exact ⟨hfit, hlen, by simp [List.isEmpty_iff.1 hrest]⟩

/-! ## Cut encodings

Every cut of a transaction's encoding is refused with `Io(UnexpectedEof)` (`RefusesCuts`). The
window cuts the encoding of a transaction longer than `MAX_VEC_SIZE`, so such a transaction is
refused with that error, however its vectors fit (`deserialize_serialize_of_length`). -/

theorem Txid.decode_refusesCuts (t : Txid) : RefusesCuts Txid.decode t.encode := fun k hk => by
  have hk' : k < 32 := t.length_eq ▸ hk
  simp [Txid.decode, Txid.encode, t.length_eq, Nat.min_eq_left hk'.le, Nat.not_le.2 hk']

theorem OutPoint.decode_refusesCuts (o : OutPoint) : RefusesCuts OutPoint.decode o.encode := by
  unfold OutPoint.decode OutPoint.encode
  exact refusesCuts_bind (Txid.decode_encode _) (Txid.decode_refusesCuts _)
    (refusesCuts_map (readU32_refusesCuts _) _)

theorem TxIn.decode_refusesCuts (i : TxIn) (h : i.scriptSig.length ≤ maxVecSize) :
    RefusesCuts TxIn.decode i.encode := by
  unfold TxIn.decode TxIn.encode
  rw [List.append_assoc]
  exact refusesCuts_bind (OutPoint.decode_encode _) (OutPoint.decode_refusesCuts _)
    (refusesCuts_bind (readBytes_emitBytes h) (readBytes_refusesCuts h)
      (refusesCuts_map (readU32_refusesCuts _) _))

theorem TxOut.decode_refusesCuts (o : TxOut) (h : o.scriptPubkey.length ≤ maxVecSize) :
    RefusesCuts TxOut.decode o.encode := by
  unfold TxOut.decode TxOut.encode
  exact refusesCuts_bind (readU64_emitU64 _) (readU64_refusesCuts _)
    (refusesCuts_map (readBytes_refusesCuts h) _)

theorem readWitnesses_refusesCuts (sz : VecSizes) {is : List TxIn} (h : ∀ i ∈ is, i.FitsAlloc sz) :
    RefusesCuts (readWitnesses sz (is.map TxIn.clearWitness))
      (is.flatMap (encodeWitness ·.witness)) := by
  induction is with
  | nil => exact refusesCuts_nil _
  | cons i is ih =>
    obtain ⟨-, hw, hitems⟩ := h i (.head _)
    have items : ∀ w ∈ i.witness, ∀ rest, readBytes (emitBytes w ++ rest) = .ok (id w, rest) :=
      fun w hw' rest => readBytes_emitBytes (hitems w hw') rest
    simp only [List.map_cons, List.flatMap_cons]
    exact refusesCuts_bind (readVec_emitVec id sz.bytes_pos hw items)
      (readVec_refusesCuts id sz.bytes_pos hw items fun w hw' => readBytes_refusesCuts (hitems w hw'))
      (refusesCuts_map (ih fun j hj => h j (.tail _ hj)) _)

theorem decodeFields_refusesCuts (sz : VecSizes) {t : Transaction} (h : t.FitsAlloc sz) :
    RefusesCuts (Transaction.decodeFields sz) t.serialize := by
  obtain ⟨hin, hout, hins, houts⟩ := h
  have inputs := fun i hi => TxIn.decode_encode i (hins i hi).1
  have outputs := fun o ho => TxOut.decode_encode o (houts o ho)
  have inputsCut := readVec_refusesCuts TxIn.clearWitness sz.txIn_pos hin inputs
    fun i hi => TxIn.decode_refusesCuts i (hins i hi).1
  have outputsCut := readVec_refusesCuts id sz.txOut_pos hout outputs
    fun o ho => TxOut.decode_refusesCuts o (houts o ho)
  unfold Transaction.decodeFields Transaction.serialize
  rw [List.append_assoc]
  refine refusesCuts_bind (readU32_emitU32 _) (readU32_refusesCuts _) ?_
  cases hw : t.haveWitness
  · -- the legacy layout: some input, and no input has a witness
    simp only [Bool.false_eq_true, if_false, List.append_assoc]
    refine refusesCuts_bind (readVec_emitVec _ sz.txIn_pos hin inputs) inputsCut ?_
    simp only [Transaction.map_clearWitness hw,
      List.isEmpty_eq_false.2 (Transaction.haveWitness_eq_false.1 hw).1, Bool.false_eq_true, if_false]
    refine refusesCuts_bind (readVec_emitVec _ sz.txOut_pos hout outputs) outputsCut ?_
    dsimp only
    exact refusesCuts_map (readU32_refusesCuts _) _
  · -- the BIP144 layout: the empty input list is the marker, then the flag
    have marker : emitU8 0 = emitVec TxIn.encode [] := rfl
    simp only [if_true, List.append_assoc, marker]
    refine refusesCuts_bind (readVec_emitVec TxIn.clearWitness sz.txIn_pos (by simp) (by simp))
      (readVec_refusesCuts TxIn.clearWitness sz.txIn_pos (by simp) (by simp) (by simp)) ?_
    simp only [List.map_nil, List.isEmpty_nil, if_true]
    refine refusesCuts_bind (readU8_emitU8 1) (readU8_refusesCuts 1) ?_
    simp only [if_true]
    refine refusesCuts_bind (readVec_emitVec _ sz.txIn_pos hin inputs) inputsCut ?_
    dsimp only
    refine refusesCuts_bind (readVec_emitVec _ sz.txOut_pos hout outputs) outputsCut ?_
    dsimp only
    refine refusesCuts_bind (readWitnesses_encodeWitness sz hins)
      (readWitnesses_refusesCuts sz hins) ?_
    simp only [Transaction.allWitnessesEmpty_eq, hw, Bool.not_true, Bool.false_eq_true, if_false]
    exact refusesCuts_map (readU32_refusesCuts _) _

/-- Every cut of a transaction's encoding is refused with `Io(UnexpectedEof)`: the window of a cut
is a cut. -/
theorem deserialize_take (sz : VecSizes) {t : Transaction} (h : t.FitsAlloc sz) {k : Nat}
    (hk : k < t.serialize.length) : deserialize sz (t.serialize.take k) = .error .io := by
  simp only [deserialize, Transaction.consensusDecode, List.take_take,
    decodeFields_refusesCuts sz h _ (lt_of_le_of_lt (Nat.min_le_right _ _) hk), error_bind]

/-- A transaction whose vectors all pass the allocation checks but whose encoding is longer than
`MAX_VEC_SIZE` is refused with `Io(UnexpectedEof)`: the window cuts it. -/
theorem deserialize_serialize_of_length (sz : VecSizes) {t : Transaction} (h : t.FitsAlloc sz)
    (hlen : maxVecSize < t.serialize.length) : deserialize sz t.serialize = .error .io := by
  simp only [deserialize, Transaction.consensusDecode, decodeFields_refusesCuts sz h _ hlen,
    error_bind]

end RevaultNet.Consensus