import RevaultNet.Serde.Derive
import Mathlib.Data.String.Basic
import RevaultNet.Serde.Collections

/-! # The records of each role (`mod watchtower`, `mod coordinator`, `mod cosigner`)

Every record of `src/src/message.rs` is a plain struct with derived codecs; here each is a
structure, its derived `Fields` in declaration order and its codec.

* `Leaves`: the types taken from `bitcoin` and `secp256k1` (`Txid`, `OutPoint`, `PublicKey`,
  `Signature`, `Transaction`). The first four are written as strings; the transaction goes through
  `#[serde(with = "serde_tx_hex")]`, whose codec is a field here (`SerdeTxHex.codec` is the one
  the code uses). `PublicKey` comes with the order `BTreeMap` sorts it by.
* The records, with the JSON names of their fields exactly as the derive writes them.
* `SetSpendTx::from_spend_tx` and `spend_tx`.

Every record's field names are distinct and every record's codec reads back what it writes
when the leaf codecs do (`*.codec_roundTrip`).
-/

namespace RevaultNet.Message
open Serde
set_option autoImplicit false

/-- The types the messages take from `bitcoin` and `secp256k1`, and their codecs. -/
structure Leaves where
  Txid : Type
  OutPoint : Type
  PublicKey : Type
  Signature : Type
  Transaction : Type
  [order : LinearOrder PublicKey]
  txid : StrCodec Txid
  outPoint : StrCodec OutPoint
  publicKey : StrCodec PublicKey
  signature : StrCodec Signature
  /-- The codec `#[serde(with = "serde_tx_hex")]` gives. -/
  tx : Codec Transaction

attribute [instance] Leaves.order

/-- The four leaves written as strings read back what they write. -/
structure Leaves.StrRoundTrip (L : Leaves) : Prop where
  txid : L.txid.RoundTrip
  outPoint : L.outPoint.RoundTrip
  publicKey : L.publicKey.RoundTrip
  signature : L.signature.RoundTrip

/-- Every leaf codec reads back what it writes. -/
structure Leaves.RoundTrip (L : Leaves) extends L.StrRoundTrip : Prop where
  tx : L.tx.RoundTrip

variable (L : Leaves)

/-- `BTreeMap<PublicKey, Signature>`. -/
def sigMap : Codec (BTreeMap L.PublicKey L.Signature) :=
  BTreeMap.codec L.publicKey L.signature.codec

namespace Watchtower

/-- `watchtower::Sig`: the signatures of a revocation transaction, its txid, and the vault. -/
structure Sig where
  signatures : BTreeMap L.PublicKey L.Signature
  txid : L.Txid
  depositOutpoint : L.OutPoint

def Sig.fields :=
  Fields.cons "signatures" (sigMap L) <| .cons "txid" L.txid.codec <|
    .cons "deposit_outpoint" L.outPoint.codec .nil

@[simp] theorem Sig.names : (Sig.fields L).names = ["signatures", "txid", "deposit_outpoint"] := rfl

def Sig.codec : Codec (Sig L) :=
  (Sig.fields L).codec (fun (a, b, c, ()) => ⟨a, b, c⟩) fun m => (m.signatures, m.txid, m.depositOutpoint, ())

/-- `watchtower::SigResult`. -/
structure SigResult where
  ack : Bool
  txid : L.Txid

def SigResult.fields := Fields.cons "ack" bool <| .cons "txid" L.txid.codec .nil

@[simp] theorem SigResult.names : (SigResult.fields L).names = ["ack", "txid"] := rfl

def SigResult.codec : Codec (SigResult L) :=
  (SigResult.fields L).codec (fun (a, b, ()) => ⟨a, b⟩) fun m => (m.ack, m.txid, ())

end Watchtower

namespace Coordinator

/-- `coordinator::GetSigs`. -/
structure GetSigs where
  id : L.Txid

def GetSigs.fields := Fields.cons "id" L.txid.codec .nil

@[simp] theorem GetSigs.names : (GetSigs.fields L).names = ["id"] := rfl

def GetSigs.codec : Codec (GetSigs L) :=
  (GetSigs.fields L).codec (fun (a, ()) => ⟨a⟩) fun m => (m.id, ())

/-- `coordinator::Sigs`, possibly empty. -/
structure Sigs where
  signatures : BTreeMap L.PublicKey L.Signature

def Sigs.fields := Fields.cons "signatures" (sigMap L) .nil

@[simp] theorem Sigs.names : (Sigs.fields L).names = ["signatures"] := rfl

def Sigs.codec : Codec (Sigs L) :=
  (Sigs.fields L).codec (fun (a, ()) => ⟨a⟩) fun m => (m.signatures, ())

/-- `coordinator::SetSpendTx`. -/
structure SetSpendTx where
  depositOutpoints : List L.OutPoint
  transaction : L.Transaction

def SetSpendTx.fields :=
  Fields.cons "deposit_outpoints" (vec L.outPoint.codec) <| .cons "transaction" L.tx .nil

@[simp] theorem SetSpendTx.names : (SetSpendTx.fields L).names = ["deposit_outpoints", "transaction"] := rfl

def SetSpendTx.codec : Codec (SetSpendTx L) :=
  (SetSpendTx.fields L).codec (fun (a, b, ()) => ⟨a, b⟩) fun m => (m.depositOutpoints, m.transaction, ())

/-- `SetSpendTx::from_spend_tx`: the spend transaction must be finalized, or the call panics
(`none`); the message carries the transaction extracted from its PSBT. -/
def SetSpendTx.fromSpendTx {Spend : Type} (isFinalized : Spend → Bool)
    (extractTx : Spend → L.Transaction) (depositOutpoints : List L.OutPoint) (tx : Spend) :
    Option (SetSpendTx L) :=
  if isFinalized tx then some ⟨depositOutpoints, extractTx tx⟩ else none

/-- `SetSpendTx::spend_tx`. -/
def SetSpendTx.spendTx (m : SetSpendTx L) : L.Transaction := m.transaction

/-- `coordinator::SetSpendResult`. -/
structure SetSpendResult where
  ack : Bool

def SetSpendResult.fields := Fields.cons "ack" bool .nil

@[simp] theorem SetSpendResult.names : (SetSpendResult.fields).names = ["ack"] := rfl

def SetSpendResult.codec : Codec SetSpendResult :=
  SetSpendResult.fields.codec (fun (a, ()) => ⟨a⟩) fun m => (m.ack, ())

/-- `coordinator::GetSpendTx`. -/
structure GetSpendTx where
  depositOutpoint : L.OutPoint

def GetSpendTx.fields := Fields.cons "deposit_outpoint" L.outPoint.codec .nil

@[simp] theorem GetSpendTx.names : (GetSpendTx.fields L).names = ["deposit_outpoint"] := rfl

def GetSpendTx.codec : Codec (GetSpendTx L) :=
  (GetSpendTx.fields L).codec (fun (a, ()) => ⟨a⟩) fun m => (m.depositOutpoint, ())

/-- `coordinator::SpendTx`. -/
structure SpendTx where
  transaction : L.Transaction

def SpendTx.fields := Fields.cons "transaction" L.tx .nil

@[simp] theorem SpendTx.names : (SpendTx.fields L).names = ["transaction"] := rfl

def SpendTx.codec : Codec (SpendTx L) :=
  (SpendTx.fields L).codec (fun (a, ()) => ⟨a⟩) fun m => (m.transaction, ())

/-- `coordinator::Sig`. -/
structure Sig where
  pubkey : L.PublicKey
  signature : L.Signature
  id : L.Txid

def Sig.fields :=
  Fields.cons "pubkey" L.publicKey.codec <| .cons "signature" L.signature.codec <|
    .cons "id" L.txid.codec .nil

@[simp] theorem Sig.names : (Sig.fields L).names = ["pubkey", "signature", "id"] := rfl

def Sig.codec : Codec (Sig L) :=
  (Sig.fields L).codec (fun (a, b, c, ()) => ⟨a, b, c⟩) fun m => (m.pubkey, m.signature, m.id, ())

/-- `coordinator::SigResult`. -/
structure SigResult where
  ack : Bool

def SigResult.fields := Fields.cons "ack" bool .nil

@[simp] theorem SigResult.names : (SigResult.fields).names = ["ack"] := rfl

def SigResult.codec : Codec SigResult :=
  SigResult.fields.codec (fun (a, ()) => ⟨a⟩) fun m => (m.ack, ())

end Coordinator

namespace Cosigner

/-- `cosigner::SignRequest`. -/
structure SignRequest where
  tx : L.Transaction

def SignRequest.fields := Fields.cons "tx" L.tx .nil

@[simp] theorem SignRequest.names : (SignRequest.fields L).names = ["tx"] := rfl

def SignRequest.codec : Codec (SignRequest L) :=
  (SignRequest.fields L).codec (fun (a, ()) => ⟨a⟩) fun m => (m.tx, ())

/-- `cosigner::SignResult`, possibly empty. -/
structure SignResult where
  signatures : List L.Signature

def SignResult.fields := Fields.cons "signatures" (vec L.signature.codec) .nil

@[simp] theorem SignResult.names : (SignResult.fields L).names = ["signatures"] := rfl

def SignResult.codec : Codec (SignResult L) :=
  (SignResult.fields L).codec (fun (a, ()) => ⟨a⟩) fun m => (m.signatures, ())

end Cosigner

/-- Leaves whose values are their own string forms, for evaluating the model on examples. -/
def Leaves.strings : Leaves where
  Txid := String
  OutPoint := String
  PublicKey := String
  Signature := String
  Transaction := String
  txid := ⟨fun s => s, .ok⟩
  outPoint := ⟨fun s => s, .ok⟩
  publicKey := ⟨fun s => s, .ok⟩
  signature := ⟨fun s => s, .ok⟩
  tx := string

theorem Leaves.strings_roundTrip : Leaves.strings.RoundTrip :=
  ⟨⟨fun _ => rfl, fun _ => rfl, fun _ => rfl, fun _ => rfl⟩, string_roundTrip⟩

/-! ## The signature map -/

/-- The signature map is written from its entries alone: inserting the same signatures, one per
key, in any order writes one object, whose members are exactly those entries in ascending key
order. -/
theorem sig_map_serialize_insert_perm {xs ys : List (L.PublicKey × L.Signature)}
    (hp : xs.Perm ys) (hnd : (xs.map Prod.fst).Nodup) :
    ∃ es : List (L.PublicKey × L.Signature), es.Perm xs ∧ es.Pairwise (·.1 < ·.1) ∧
      (sigMap L).serialize (xs.foldl (fun m e => m.insert e.1 e.2) .empty) =
        .map (es.map fun e => (L.publicKey.toStr e.1, L.signature.codec.serialize e.2)) ∧
      (sigMap L).serialize (ys.foldl (fun m e => m.insert e.1 e.2) .empty) =
        .map (es.map fun e => (L.publicKey.toStr e.1, L.signature.codec.serialize e.2)) :=
  ⟨_, BTreeMap.foldl_insert_entries_perm hnd, BTreeMap.sorted _, rfl,
    by rw [← BTreeMap.foldl_insert_perm hp hnd]; rfl⟩

theorem sig_map_serialize_insert_perm_two :
    [("b", "2"), ("a", "1")].Perm [("a", "1"), ("b", "2")] ∧
      ([("b", "2"), ("a", "1")].map Prod.fst).Nodup ∧
      ∃ es : List (Leaves.strings.PublicKey × Leaves.strings.Signature),
        es.Perm [("b", "2"), ("a", "1")] ∧ es.Pairwise (·.1 < ·.1) ∧
        (sigMap Leaves.strings).serialize
            ([("b", "2"), ("a", "1")].foldl (fun m e => m.insert e.1 e.2) .empty) =
          .map (es.map fun e => (Leaves.strings.publicKey.toStr e.1,
            Leaves.strings.signature.codec.serialize e.2)) ∧
        (sigMap Leaves.strings).serialize
            ([("a", "1"), ("b", "2")].foldl (fun m e => m.insert e.1 e.2) .empty) =
          .map (es.map fun e => (Leaves.strings.publicKey.toStr e.1,
            Leaves.strings.signature.codec.serialize e.2)) :=
  have hp : [("b", "2"), ("a", "1")].Perm [("a", "1"), ("b", "2")] := .swap ("a", "1") ("b", "2") []
  have hnd : ([("b", "2"), ("a", "1")].map Prod.fst).Nodup := by simp
  ⟨hp, hnd, sig_map_serialize_insert_perm Leaves.strings hp hnd⟩

/-- A signature map read from an object that repeats a public key keeps the signature of the
key's last member. The visitor of `BTreeMap` inserts member after member and raises no
`duplicate_field`, as the derived visitor of a struct does, so the object and the same object
without the earlier member read as one map. -/
theorem sig_map_deserialize_repeated_key {es₁ es₂ es₃ : List (String × Content)} {ks : String}
    {c₁ c₂ : Content} {k : L.PublicKey} {v : L.Signature} (hk : L.publicKey.fromStr ks = .ok k)
    (hv : L.signature.codec.deserialize c₁ = .ok v) :
    (sigMap L).deserialize (.map (es₁ ++ (ks, c₁) :: (es₂ ++ (ks, c₂) :: es₃))) =
      (sigMap L).deserialize (.map (es₁ ++ es₂ ++ (ks, c₂) :: es₃)) := by
  simp only [sigMap, BTreeMap.codec, List.append_assoc]
  rw [BTreeMap.visitMap_append_eq_bind _ _ _ es₁, BTreeMap.visitMap_append_eq_bind _ _ _ es₁]
  exact bind_congr_ok fun m _ => BTreeMap.visitMap_shadowed hk hv es₃ es₂ m

/-- `{"a":"1","b":"3","a":"2"}` reads as `{"b":"3","a":"2"}`. -/
theorem sig_map_deserialize_repeated_key_ab :
    Leaves.strings.publicKey.fromStr "a" = .ok "a" ∧
      Leaves.strings.signature.codec.deserialize (.str "1") = .ok "1" ∧
      (sigMap Leaves.strings).deserialize (.map [("a", .str "1"), ("b", .str "3"), ("a", .str "2")]) =
        (sigMap Leaves.strings).deserialize (.map [("b", .str "3"), ("a", .str "2")]) :=
  ⟨rfl, rfl, @sig_map_deserialize_repeated_key Leaves.strings [] [("b", .str "3")] [] "a" (.str "1")
    (.str "2") "a" "1" rfl rfl⟩

/-- A signature map read from an object does not depend on the order of its members, once every
member's public key and signature decode and no two members name one key: a peer may send the
signatures in any order. -/
theorem sig_map_deserialize_perm {xs ys : List (String × Content)} (hp : xs.Perm ys)
    (hdec : ∀ x ∈ xs, ∃ k v, L.publicKey.fromStr x.1 = .ok k ∧
      L.signature.codec.deserialize x.2 = .ok v)
    (hnd : (xs.map fun x => L.publicKey.fromStr x.1).Nodup) :
    (sigMap L).deserialize (.map xs) = (sigMap L).deserialize (.map ys) :=
  BTreeMap.visitMap_perm hp hdec hnd _

/-- `{"b":"2","a":"1"}` and `{"a":"1","b":"2"}` read as one map. -/
theorem sig_map_deserialize_perm_ba :
    [("b", Content.str "2"), ("a", .str "1")].Perm [("a", .str "1"), ("b", .str "2")] ∧
      (∀ x ∈ [("b", Content.str "2"), ("a", .str "1")], ∃ k v,
        Leaves.strings.publicKey.fromStr x.1 = .ok k ∧
          Leaves.strings.signature.codec.deserialize x.2 = .ok v) ∧
      ([("b", Content.str "2"), ("a", .str "1")].map fun x =>
        Leaves.strings.publicKey.fromStr x.1).Nodup ∧
      (sigMap Leaves.strings).deserialize (.map [("b", .str "2"), ("a", .str "1")]) =
        (sigMap Leaves.strings).deserialize (.map [("a", .str "1"), ("b", .str "2")]) :=
  have hp : [("b", Content.str "2"), ("a", .str "1")].Perm [("a", .str "1"), ("b", .str "2")] :=
    .swap _ _ []
  have hdec : ∀ x ∈ [("b", Content.str "2"), ("a", .str "1")], ∃ k v,
      Leaves.strings.publicKey.fromStr x.1 = .ok k ∧
        Leaves.strings.signature.codec.deserialize x.2 = .ok v := by
    simp only [List.mem_cons, List.mem_singleton, List.not_mem_nil, or_false]
    rintro x (rfl | rfl) <;> exact ⟨_, _, rfl, rfl⟩
  have hnd : ([("b", Content.str "2"), ("a", .str "1")].map fun x =>
      Leaves.strings.publicKey.fromStr x.1).Nodup := by
    simp [Leaves.strings]
  ⟨hp, hdec, hnd, sig_map_deserialize_perm Leaves.strings hp hdec hnd⟩

/-! ## Round trips -/

section
variable {L} (hL : L.StrRoundTrip)
include hL

theorem sigMap_roundTrip : (sigMap L).RoundTrip :=
  BTreeMap.codec_roundTrip hL.publicKey (StrCodec.codec_roundTrip hL.signature)

theorem Watchtower.Sig.codec_roundTrip : (Watchtower.Sig.codec L).RoundTrip :=
  Fields.codec_roundTrip (fun _ => rfl) (by simp) ⟨sigMap_roundTrip hL,
    StrCodec.codec_roundTrip hL.txid, StrCodec.codec_roundTrip hL.outPoint, trivial⟩

theorem Watchtower.SigResult.codec_roundTrip : (Watchtower.SigResult.codec L).RoundTrip :=
  Fields.codec_roundTrip (fun _ => rfl) (by simp)
    ⟨bool_roundTrip, StrCodec.codec_roundTrip hL.txid, trivial⟩

theorem Coordinator.GetSigs.codec_roundTrip : (Coordinator.GetSigs.codec L).RoundTrip :=
  Fields.codec_roundTrip (fun _ => rfl) (by simp) ⟨StrCodec.codec_roundTrip hL.txid, trivial⟩

theorem Coordinator.Sigs.codec_roundTrip : (Coordinator.Sigs.codec L).RoundTrip :=
  Fields.codec_roundTrip (fun _ => rfl) (by simp) ⟨sigMap_roundTrip hL, trivial⟩

theorem Coordinator.GetSpendTx.codec_roundTrip : (Coordinator.GetSpendTx.codec L).RoundTrip :=
  Fields.codec_roundTrip (fun _ => rfl) (by simp) ⟨StrCodec.codec_roundTrip hL.outPoint, trivial⟩

theorem Coordinator.Sig.codec_roundTrip : (Coordinator.Sig.codec L).RoundTrip :=
  Fields.codec_roundTrip (fun _ => rfl) (by simp) ⟨StrCodec.codec_roundTrip hL.publicKey,
    StrCodec.codec_roundTrip hL.signature, StrCodec.codec_roundTrip hL.txid, trivial⟩

theorem Cosigner.SignResult.codec_roundTrip : (Cosigner.SignResult.codec L).RoundTrip :=
  Fields.codec_roundTrip (fun _ => rfl) (by simp)
    ⟨vec_roundTrip (StrCodec.codec_roundTrip hL.signature), trivial⟩

/-- A `SetSpendTx` reads back exactly when its transaction does. -/
theorem Coordinator.SetSpendTx.readsBack_iff (p : Coordinator.SetSpendTx L) :
    (Coordinator.SetSpendTx.codec L).ReadsBack p ↔ L.tx.ReadsBack p.transaction := by
  rw [Codec.ReadsBack, Coordinator.SetSpendTx.codec, Fields.codec_deserialize_serialize_eq_ok (by simp)]
  constructor
  · rintro ⟨⟨_, _, ⟨⟩⟩, ⟨-, h, -⟩, rfl⟩
    exact h
  · exact fun h => ⟨(p.depositOutpoints, p.transaction, ()),
      ⟨vec_roundTrip (StrCodec.codec_roundTrip hL.outPoint) _, h, trivial⟩, rfl⟩

end

/-- A `SpendTx` reads back exactly when its transaction does. -/
theorem Coordinator.SpendTx.readsBack_iff {L : Leaves} (r : Coordinator.SpendTx L) :
    (Coordinator.SpendTx.codec L).ReadsBack r ↔ L.tx.ReadsBack r.transaction := by
  rw [Codec.ReadsBack, Coordinator.SpendTx.codec, Fields.codec_deserialize_serialize_eq_ok (by simp)]
  constructor
  · rintro ⟨⟨_, ⟨⟩⟩, ⟨h, -⟩, rfl⟩
    exact h
  · exact fun h => ⟨(r.transaction, ()), ⟨h, trivial⟩, rfl⟩

/-- A `SignRequest` reads back exactly when its transaction does. -/
theorem Cosigner.SignRequest.readsBack_iff {L : Leaves} (p : Cosigner.SignRequest L) :
    (Cosigner.SignRequest.codec L).ReadsBack p ↔ L.tx.ReadsBack p.tx := by
  rw [Codec.ReadsBack, Cosigner.SignRequest.codec, Fields.codec_deserialize_serialize_eq_ok (by simp)]
  constructor
  · rintro ⟨⟨_, ⟨⟩⟩, ⟨h, -⟩, rfl⟩
    exact h
  · exact fun h => ⟨(p.tx, ()), ⟨h, trivial⟩, rfl⟩

section
variable {L} (hL : L.RoundTrip)
include hL

theorem Coordinator.SetSpendTx.codec_roundTrip : (Coordinator.SetSpendTx.codec L).RoundTrip :=
  fun p => (Coordinator.SetSpendTx.readsBack_iff hL.toStrRoundTrip p).2 (hL.tx _)

theorem Coordinator.SpendTx.codec_roundTrip : (Coordinator.SpendTx.codec L).RoundTrip :=
  fun r => (Coordinator.SpendTx.readsBack_iff r).2 (hL.tx _)

theorem Cosigner.SignRequest.codec_roundTrip : (Cosigner.SignRequest.codec L).RoundTrip :=
  fun p => (Cosigner.SignRequest.readsBack_iff p).2 (hL.tx _)

end

theorem Coordinator.SetSpendResult.codec_roundTrip : Coordinator.SetSpendResult.codec.RoundTrip :=
  Fields.codec_roundTrip (fun _ => rfl) (by simp) ⟨bool_roundTrip, trivial⟩

theorem Coordinator.SigResult.codec_roundTrip : Coordinator.SigResult.codec.RoundTrip :=
  Fields.codec_roundTrip (fun _ => rfl) (by simp) ⟨bool_roundTrip, trivial⟩

end RevaultNet.Message
