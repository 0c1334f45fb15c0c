import RevaultNet.Message.TxHex
import RevaultNet.Message.Request
import RevaultNet.Message.Response

/-! # The allocation bound is a limit of the protocol

The records of `mod coordinator` and `mod cosigner` carry a `bitcoin::Transaction` through
`#[serde(with = "serde_tx_hex")]`. With that codec in place of an abstract one:

* `Leaves.withTx`: leaves whose transaction is `bitcoin::Transaction`, read and written by
  `serde_tx_hex` (`SerdeTxHex.codec`);
* `request_read_back_iff_fits`: a request reads back as itself exactly when the transaction it
  carries (in `SetSpendTx` and `Sign`) passes the consensus decoder's allocation checks and its
  encoding fits the `MAX_VEC_SIZE` bytes the decoder reads;
* `response_read_back_iff_fits`: a response reads back (as `response_deserialize_serialize`
  says) exactly when the transaction of a `SpendTx` result passes the same two bounds.

A transaction over either bound is written like any other, but the receiver refuses the whole
message: the variant that should read it fails, and so do all the others.
-/

namespace RevaultNet.Message
open Serde
open Consensus (Transaction VecSizes)
set_option autoImplicit false

/-- The leaves of `L` with the transaction of the code: `bitcoin::Transaction` through
`serde_tx_hex`, for the element sizes `sz` of the target. -/
def Leaves.withTx (L : Leaves) (sz : VecSizes) : Leaves :=
  { L with Transaction := Consensus.Transaction, tx := SerdeTxHex.codec sz }

variable {L : Leaves} {sz : VecSizes}

/-- The string leaves are those of `L`. -/
theorem Leaves.StrRoundTrip.withTx (hL : L.StrRoundTrip) : (L.withTx sz).StrRoundTrip :=
  ⟨hL.txid, hL.outPoint, hL.publicKey, hL.signature⟩

/-- The transaction a request's params carry. -/
def RequestParams.transaction? : RequestParams (L.withTx sz) → Option Transaction
  | .setSpendTx p => some p.transaction
  | .sign p => some p.tx
  | _ => none

/-- The transaction a result carries. -/
def ResponseResult.transaction? : ResponseResult (L.withTx sz) → Option Transaction
  | .spendTx r => some r.transaction
  | _ => none

section
variable (hL : L.StrRoundTrip)
include hL

theorem RequestParams.readsBack_withTx (q : RequestParams (L.withTx sz)) :
    q.ReadsBack ↔ ∀ t ∈ q.transaction?, t.FitsAlloc sz ∧ t.serialize.length ≤ Consensus.maxVecSize := by
  cases q with
  | wtSig p => simpa [transaction?] using Watchtower.Sig.codec_roundTrip hL.withTx p
  | setSpendTx p =>
    simpa [transaction?] using (Coordinator.SetSpendTx.readsBack_iff hL.withTx p).trans
      (SerdeTxHex.codec_readsBack_iff sz p.transaction)
  | getSpendTx p => simpa [transaction?] using Coordinator.GetSpendTx.codec_roundTrip hL.withTx p
  | coordSig p => simpa [transaction?] using Coordinator.Sig.codec_roundTrip hL.withTx p
  | getSigs p => simpa [transaction?] using Coordinator.GetSigs.codec_roundTrip hL.withTx p
  | sign p =>
    simpa [transaction?] using (Cosigner.SignRequest.readsBack_iff p).trans
      (SerdeTxHex.codec_readsBack_iff sz p.tx)

theorem ResponseResult.readsBack_withTx (r : ResponseResult (L.withTx sz)) :
    r.ReadsBack ↔ ∀ t ∈ r.transaction?, t.FitsAlloc sz ∧ t.serialize.length ≤ Consensus.maxVecSize := by
  cases r with
  | wtSig x => simpa [transaction?] using Watchtower.SigResult.codec_roundTrip hL.withTx x
  | sigs x => simpa [transaction?] using Coordinator.Sigs.codec_roundTrip hL.withTx x
  | sig x => simpa [transaction?] using Coordinator.SigResult.codec_roundTrip x
  | setSpend x => simpa [transaction?] using Coordinator.SetSpendResult.codec_roundTrip x
  | spendTx x =>
    simpa [transaction?] using (Coordinator.SpendTx.readsBack_iff x).trans
      (SerdeTxHex.codec_readsBack_iff sz x.transaction)
  | signResult x => simpa [transaction?] using Cosigner.SignResult.codec_roundTrip hL.withTx x

/-- With the transaction codec of the code, a response reads back exactly when the transaction
of a `SpendTx` result passes the allocation checks and fits the window. -/
theorem response_read_back_iff_fits (r : ResponseResult (L.withTx sz)) (id : BitVec 32) :
    (Response.codec (ResponseResult.codec _)).deserialize
        ((Response.codec (ResponseResult.codec _)).serialize ⟨r, id⟩) = .ok ⟨r.readBack, id⟩ ↔
      ∀ t ∈ r.transaction?, t.FitsAlloc sz ∧ t.serialize.length ≤ Consensus.maxVecSize :=
  (Response.deserialize_serialize_eq_ok r id).trans (ResponseResult.readsBack_withTx hL r)

end

theorem response_read_back_iff_fits_spend_tx :
    Leaves.strings.StrRoundTrip ∧
      ((Response.codec (ResponseResult.codec (Leaves.strings.withTx .x86_64))).deserialize
          ((Response.codec (ResponseResult.codec _)).serialize
            ⟨.spendTx (L := Leaves.strings.withTx .x86_64)
              ⟨Consensus.Transaction.mk 2 0 [] [⟨0, []⟩]⟩, 7⟩) =
          .ok ⟨.spendTx ⟨Consensus.Transaction.mk 2 0 [] [⟨0, []⟩]⟩, 7⟩ ↔
        Consensus.Transaction.FitsAlloc .x86_64 ⟨2, 0, [], [⟨0, []⟩]⟩ ∧
          (Consensus.Transaction.serialize ⟨2, 0, [], [⟨0, []⟩]⟩).length ≤ Consensus.maxVecSize) :=
  ⟨Leaves.strings_roundTrip.toStrRoundTrip,
    (response_read_back_iff_fits Leaves.strings_roundTrip.toStrRoundTrip _ 7).trans
      (by simp [ResponseResult.transaction?])⟩

end RevaultNet.Message
