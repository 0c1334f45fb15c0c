import RevaultNet.Message.Catalog

/-! # Responses (`ResponseResult`, `Response<T>`)

`Response<T>` is a plain struct `{result, id}`; `ResponseResult` is `#[serde(untagged)]` over six
newtype variants, tried in the order `WtSig`, `Sigs`, `Sig`, `SetSpend`, `SpendTx`,
`SignResult`. Responses carry no method: the reader has to know what it asked for.

`coordinator::SigResult` and `coordinator::SetSpendResult` are both `{ack: bool}`, so they are
written alike, and `Sig` comes first: a `SetSpend` result reads back as a `Sig` result with the
same `ack` (`ResponseResult.readBack`). Every other result reads back as itself
(`response_deserialize_serialize`), `Sigs` and `SignResult` included, which share the field
name `signatures` but not its type.
-/

namespace RevaultNet.Message
open Serde
set_option autoImplicit false

variable (L : Leaves)

/-- `ResponseResult`. -/
inductive ResponseResult where
  | wtSig (r : Watchtower.SigResult L)
  | sigs (r : Coordinator.Sigs L)
  | sig (r : Coordinator.SigResult)
  | setSpend (r : Coordinator.SetSpendResult)
  | spendTx (r : Coordinator.SpendTx L)
  | signResult (r : Cosigner.SignResult L)

/-- `ResponseResult`'s derived `Serialize`: a newtype variant is written as its record. -/
def ResponseResult.serialize : ResponseResult L → Content
  | .wtSig r => (Watchtower.SigResult.codec L).serialize r
  | .sigs r => (Coordinator.Sigs.codec L).serialize r
  | .sig r => Coordinator.SigResult.codec.serialize r
  | .setSpend r => Coordinator.SetSpendResult.codec.serialize r
  | .spendTx r => (Coordinator.SpendTx.codec L).serialize r
  | .signResult r => (Cosigner.SignResult.codec L).serialize r

/-- `ResponseResult`'s variants, in declaration order. -/
def ResponseResult.variants : List (Content → Except Error (ResponseResult L)) :=
  [fun c => ((Watchtower.SigResult.codec L).deserialize c).map .wtSig,
   fun c => ((Coordinator.Sigs.codec L).deserialize c).map .sigs,
   fun c => (Coordinator.SigResult.codec.deserialize c).map .sig,
   fun c => (Coordinator.SetSpendResult.codec.deserialize c).map .setSpend,
   fun c => ((Coordinator.SpendTx.codec L).deserialize c).map .spendTx,
   fun c => ((Cosigner.SignResult.codec L).deserialize c).map .signResult]

/-- `ResponseResult`'s derived `Deserialize`. -/
def ResponseResult.deserialize (c : Content) : Except Error (ResponseResult L) :=
  untagged "ResponseResult" (ResponseResult.variants L) c

def ResponseResult.codec : Codec (ResponseResult L) :=
  ⟨ResponseResult.serialize L, ResponseResult.deserialize L⟩

/-- `Response<T>`. -/
structure Response (α : Type) where
  result : α
  id : BitVec 32

def Response.fields {α : Type} (result : Codec α) := Fields.cons "result" result <| .cons "id" u32 .nil

@[simp] theorem Response.names {α : Type} (result : Codec α) :
    (Response.fields result).names = ["result", "id"] := rfl

/-- `Response<T>`'s derived codec. -/
def Response.codec {α : Type} (result : Codec α) : Codec (Response α) :=
  (Response.fields result).codec (fun (r, i, ()) => ⟨r, i⟩) fun m => (m.result, m.id, ())

/-! ## Round trip -/

variable {L}

/-- What a result reads back as: a `SetSpend` result as the `Sig` result with its `ack`. -/
def ResponseResult.readBack : ResponseResult L → ResponseResult L
  | .setSpend r => .sig ⟨r.ack⟩
  | r => r

/-- `Sigs` refuses what `SignResult` wrote: its `signatures` is an array, not a map. -/
theorem sigs_deserialize_signResult (x : Cosigner.SignResult L) :
    (Coordinator.Sigs.codec L).deserialize ((Cosigner.SignResult.codec L).serialize x) =
      .error .invalidType := rfl

/-- `Sig` reads what `SetSpend` wrote. -/
theorem sigResult_deserialize_setSpendResult (x : Coordinator.SetSpendResult) :
    Coordinator.SigResult.codec.deserialize (Coordinator.SetSpendResult.codec.serialize x) =
      .ok ⟨x.ack⟩ := rfl

/-- The record a `ResponseResult` holds reads back as itself through its codec. -/
def ResponseResult.ReadsBack : ResponseResult L → Prop
  | .wtSig x => (Watchtower.SigResult.codec L).ReadsBack x
  | .sigs x => (Coordinator.Sigs.codec L).ReadsBack x
  | .sig x => Coordinator.SigResult.codec.ReadsBack x
  | .setSpend x => Coordinator.SetSpendResult.codec.ReadsBack x
  | .spendTx x => (Coordinator.SpendTx.codec L).ReadsBack x
  | .signResult x => (Cosigner.SignResult.codec L).ReadsBack x

theorem ResponseResult.readsBack_of_roundTrip (hL : L.RoundTrip) (r : ResponseResult L) :
    r.ReadsBack := by
  cases r with
  | wtSig x => exact Watchtower.SigResult.codec_roundTrip hL.toStrRoundTrip x
  | sigs x => exact Coordinator.Sigs.codec_roundTrip hL.toStrRoundTrip x
  | sig x => exact Coordinator.SigResult.codec_roundTrip x
  | setSpend x => exact Coordinator.SetSpendResult.codec_roundTrip x
  | spendTx x => exact Coordinator.SpendTx.codec_roundTrip hL x
  | signResult x => exact Cosigner.SignResult.codec_roundTrip hL.toStrRoundTrip x

theorem ResponseResult.deserialize_serialize {r : ResponseResult L} (h : r.ReadsBack) :
    ResponseResult.deserialize L (r.serialize L) = .ok r.readBack := by
  cases r with
  | wtSig x =>
    exact untagged_of_ok (congrArg (Except.map _) h)
  | sigs x =>
    refine (untagged_of_ne ?_).trans (untagged_of_ok ?_)
    · exact Fields.codec_deserialize_serialize_ne (n := "ack") (by simp) (by simp) _ _
    · exact congrArg (Except.map _) h
  | sig x =>
    refine (untagged_of_ne ?_).trans <| (untagged_of_ne ?_).trans (untagged_of_ok ?_)
    · exact Fields.codec_deserialize_serialize_ne (n := "txid") (by simp) (by simp) _ _
    · exact Fields.codec_deserialize_serialize_ne (n := "signatures") (by simp) (by simp) _ _
    · exact congrArg (Except.map _) h
  | setSpend x =>
    refine (untagged_of_ne ?_).trans <| (untagged_of_ne ?_).trans (untagged_of_ok ?_)
    · exact Fields.codec_deserialize_serialize_ne (n := "txid") (by simp) (by simp) _ _
    · exact Fields.codec_deserialize_serialize_ne (n := "signatures") (by simp) (by simp) _ _
    · simp [serialize, readBack, sigResult_deserialize_setSpendResult x]
  | spendTx x =>
    refine (untagged_of_ne ?_).trans <| (untagged_of_ne ?_).trans <|
      (untagged_of_ne ?_).trans <| (untagged_of_ne ?_).trans (untagged_of_ok ?_)
    · exact Fields.codec_deserialize_serialize_ne (n := "ack") (by simp) (by simp) _ _
    · exact Fields.codec_deserialize_serialize_ne (n := "signatures") (by simp) (by simp) _ _
    · exact Fields.codec_deserialize_serialize_ne (n := "ack") (by simp) (by simp) _ _
    · exact Fields.codec_deserialize_serialize_ne (n := "ack") (by simp) (by simp) _ _
    · exact congrArg (Except.map _) h
  | signResult x =>
    refine (untagged_of_ne ?_).trans <| (untagged_of_ne ?_).trans <|
      (untagged_of_ne ?_).trans <| (untagged_of_ne ?_).trans <|
      (untagged_of_ne ?_).trans (untagged_of_ok ?_)
    · exact Fields.codec_deserialize_serialize_ne (n := "ack") (by simp) (by simp) _ _
    · intro a
      simp [serialize, sigs_deserialize_signResult x]
    · exact Fields.codec_deserialize_serialize_ne (n := "ack") (by simp) (by simp) _ _
    · exact Fields.codec_deserialize_serialize_ne (n := "ack") (by simp) (by simp) _ _
    · exact Fields.codec_deserialize_serialize_ne (n := "transaction") (by simp) (by simp) _ _
    · exact congrArg (Except.map _) h

/-- A result that reads back was read by its own variant, or, for `SetSpend`, by `Sig`. -/
theorem ResponseResult.readsBack_of_deserialize {r : ResponseResult L}
    (h : ResponseResult.deserialize L (r.serialize L) = .ok r.readBack) : r.ReadsBack := by
  cases r with
  | setSpend x => exact Coordinator.SetSpendResult.codec_roundTrip x
  | wtSig _ | sigs _ | sig _ | spendTx _ | signResult _ =>
    obtain ⟨d, hd, hdr⟩ := exists_of_untagged h
    simp only [ResponseResult.variants, List.mem_cons, List.mem_singleton, List.not_mem_nil,
      or_false] at hd
    rcases hd with rfl | rfl | rfl | rfl | rfl | rfl <;>
    · obtain ⟨x, hx, hr⟩ := map_eq_ok.1 hdr
      cases hr
      all_goals exact hx

theorem ResponseResult.deserialize_serialize_eq_ok (r : ResponseResult L) :
    ResponseResult.deserialize L (r.serialize L) = .ok r.readBack ↔ r.ReadsBack :=
  ⟨ResponseResult.readsBack_of_deserialize, ResponseResult.deserialize_serialize⟩

/-- `Sig` reads every object `SetSpend` reads: both are the one field `ack`. -/
theorem sigResult_deserialize_eq (c : Content) :
    Coordinator.SigResult.codec.deserialize c =
      (Coordinator.SetSpendResult.codec.deserialize c).map fun x => ⟨x.ack⟩ := by
  show (Coordinator.SetSpendResult.fields.deserializeStruct c).map _ =
    ((Coordinator.SetSpendResult.fields.deserializeStruct c).map _).map _
  cases Coordinator.SetSpendResult.fields.deserializeStruct c <;> rfl

/-- A result read from any value is never `SetSpend`, which `Sig` shadows, so it is what it reads
back as. -/
theorem ResponseResult.readBack_of_deserialize {c : Content} {r : ResponseResult L}
    (h : ResponseResult.deserialize L c = .ok r) : r.readBack = r := by
  cases r with
  | setSpend x =>
    obtain ⟨d, hd, hdx⟩ := exists_of_untagged h
    simp only [ResponseResult.variants, List.mem_cons, List.mem_singleton, List.not_mem_nil,
      or_false] at hd
    rcases hd with rfl | rfl | rfl | rfl | rfl | rfl <;> obtain ⟨y, hy, hyx⟩ := map_eq_ok.1 hdx <;>
      cases hyx
    have hsig : (Coordinator.SigResult.codec.deserialize c).map ResponseResult.sig =
        .ok (.sig ⟨x.ack⟩ : ResponseResult L) := by
      rw [sigResult_deserialize_eq, hy]
      rfl
    rcases untagged_cons_eq_ok.1 h with h | ⟨-, h⟩
    · obtain ⟨_, -, h⟩ := map_eq_ok.1 h; cases h
    rcases untagged_cons_eq_ok.1 h with h | ⟨-, h⟩
    · obtain ⟨_, -, h⟩ := map_eq_ok.1 h; cases h
    cases (untagged_of_ok hsig).symm.trans h
  | wtSig _ | sigs _ | sig _ | spendTx _ | signResult _ => rfl

/-- A response reads back, with its id, exactly when its result does. -/
theorem Response.deserialize_serialize_eq_ok (r : ResponseResult L) (id : BitVec 32) :
    (Response.codec (ResponseResult.codec L)).deserialize
        ((Response.codec (ResponseResult.codec L)).serialize ⟨r, id⟩) = .ok ⟨r.readBack, id⟩ ↔
      r.ReadsBack := by
  rw [Response.codec, Fields.codec_deserialize_serialize_eq_ok (by simp),
    ← ResponseResult.deserialize_serialize_eq_ok]
  constructor
  · rintro ⟨⟨r', i', _⟩, ⟨hr, -, -⟩, he⟩
    cases he
    exact hr
  · exact fun hr => ⟨(r.readBack, id, ()), ⟨hr, u32_roundTrip id, trivial⟩, rfl⟩

/-- Every response reads back with its id and its result, except that a `SetSpend` result comes
back as the `Sig` result with the same `ack`. -/
theorem response_deserialize_serialize (hL : L.RoundTrip) (r : ResponseResult L) (id : BitVec 32) :
    (Response.codec (ResponseResult.codec L)).deserialize
        ((Response.codec (ResponseResult.codec L)).serialize ⟨r, id⟩) = .ok ⟨r.readBack, id⟩ :=
  (Response.deserialize_serialize_eq_ok r id).2 (ResponseResult.readsBack_of_roundTrip hL r)

/-- The tests' `SetSpend` acknowledgement, `{"result":{"ack":false},"id":4294967295}`, reads
back as a `Sig` acknowledgement. -/
theorem response_deserialize_serialize_set_spend :
    Leaves.strings.RoundTrip ∧
      (Response.codec (ResponseResult.codec Leaves.strings)).deserialize
          ((Response.codec (ResponseResult.codec Leaves.strings)).serialize
            ⟨.setSpend ⟨false⟩, 4294967295⟩) = .ok ⟨.sig ⟨false⟩, 4294967295⟩ :=
  ⟨Leaves.strings_roundTrip, response_deserialize_serialize Leaves.strings_roundTrip _ _⟩

/-- The tests' other `SetSpend` acknowledgement, `{"result":{"ack":true},"id":0}`, does not read
back as itself. -/
theorem set_spend_response_not_read_back :
    (Response.codec (ResponseResult.codec Leaves.strings)).deserialize
        ((Response.codec (ResponseResult.codec Leaves.strings)).serialize ⟨.setSpend ⟨true⟩, 0⟩) ≠
      .ok ⟨.setSpend ⟨true⟩, 0⟩ := by
  have h : (Response.codec (ResponseResult.codec Leaves.strings)).deserialize
      ((Response.codec (ResponseResult.codec Leaves.strings)).serialize ⟨.setSpend ⟨true⟩, 0⟩) =
        .ok ⟨.sig ⟨true⟩, 0⟩ := rfl
  exact fun h' => by cases h.symm.trans h'

end RevaultNet.Message
