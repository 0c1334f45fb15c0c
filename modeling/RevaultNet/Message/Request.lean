import RevaultNet.Message.Catalog

/-! # Requests and their untagged dispatch (`Request`, `RequestParams`, `impl_to_request!`)

`Request` is `#[serde(untagged)]` over six struct variants, each a `method`, the params of one
kind and an `id`; `RequestParams` is `#[serde(untagged)]` over the six params records alone.

* `Request.serialize`: an untagged struct variant is written as a plain struct.
* `Request.deserialize`: the variants are tried in the order `WtSig`, `SetSpendTx`, `GetSpendTx`,
  `CoordSig`, `GetSigs`, `Sign`; each reads an object with the envelope's fields (`envelope`).
* `Request.params`, `Request.id`, and the `From` conversions of `impl_to_request!`.

Since the six variants share the envelope, only `params` tells them apart, and the two untagged
decoders try the params records in the same order. `Request.deserialize_eq_ok`: a value decodes
as a request exactly when its envelope is there (`Envelope`) and its params decode as a
`RequestParams`, of the same kind. The round trips `RequestParams.deserialize_serialize` and
`Request.deserialize_serialize` follow: no earlier record accepts the object a later one writes,
since each earlier record has a field the later one lacks.
-/

namespace RevaultNet.Message
open Serde
set_option autoImplicit false

variable (L : Leaves)

/-- `Request`. -/
inductive Request where
  | wtSig (method : String) (params : Watchtower.Sig L) (id : BitVec 32)
  | setSpendTx (method : String) (params : Coordinator.SetSpendTx L) (id : BitVec 32)
  | getSpendTx (method : String) (params : Coordinator.GetSpendTx L) (id : BitVec 32)
  | coordSig (method : String) (params : Coordinator.Sig L) (id : BitVec 32)
  | getSigs (method : String) (params : Coordinator.GetSigs L) (id : BitVec 32)
  | sign (method : String) (params : Cosigner.SignRequest L) (id : BitVec 32)

/-- `RequestParams`. -/
inductive RequestParams where
  | wtSig (params : Watchtower.Sig L)
  | setSpendTx (params : Coordinator.SetSpendTx L)
  | getSpendTx (params : Coordinator.GetSpendTx L)
  | coordSig (params : Coordinator.Sig L)
  | getSigs (params : Coordinator.GetSigs L)
  | sign (params : Cosigner.SignRequest L)

namespace Request
variable {L}

/-- `Request::params`. -/
def params : Request L → RequestParams L
  | .wtSig _ p _ => .wtSig p
  | .setSpendTx _ p _ => .setSpendTx p
  | .getSpendTx _ p _ => .getSpendTx p
  | .coordSig _ p _ => .coordSig p
  | .getSigs _ p _ => .getSigs p
  | .sign _ p _ => .sign p

/-- `Request::id`. -/
def id : Request L → BitVec 32
  | .wtSig _ _ i | .setSpendTx _ _ i | .getSpendTx _ _ i | .coordSig _ _ i | .getSigs _ _ i
  | .sign _ _ i => i

/-- The `method` of any variant. -/
def method : Request L → String
  | .wtSig m _ _ | .setSpendTx m _ _ | .getSpendTx m _ _ | .coordSig m _ _ | .getSigs m _ _
  | .sign m _ _ => m

/-- The request of the params' kind with this method and id. -/
def ofParams (m : String) (q : RequestParams L) (i : BitVec 32) : Request L :=
  match q with
  | .wtSig p => .wtSig m p i
  | .setSpendTx p => .setSpendTx m p i
  | .getSpendTx p => .getSpendTx m p i
  | .coordSig p => .coordSig m p i
  | .getSigs p => .getSigs m p i
  | .sign p => .sign m p i

end Request

/-- The fields of every struct variant of `Request`: `method`, the variant's `params`, `id`. -/
def envelope {α : Type} (params : Codec α) :=
  Fields.cons "method" strRef <| .cons "params" params <| .cons "id" u32 .nil

/-- `Request`'s derived `Serialize`. -/
def Request.serialize : Request L → Content
  | .wtSig m p i => .map ((envelope (Watchtower.Sig.codec L)).serialize (m, p, i, ()))
  | .setSpendTx m p i => .map ((envelope (Coordinator.SetSpendTx.codec L)).serialize (m, p, i, ()))
  | .getSpendTx m p i => .map ((envelope (Coordinator.GetSpendTx.codec L)).serialize (m, p, i, ()))
  | .coordSig m p i => .map ((envelope (Coordinator.Sig.codec L)).serialize (m, p, i, ()))
  | .getSigs m p i => .map ((envelope (Coordinator.GetSigs.codec L)).serialize (m, p, i, ()))
  | .sign m p i => .map ((envelope (Cosigner.SignRequest.codec L)).serialize (m, p, i, ()))

/-- One struct variant of `Request`, read through the envelope. -/
def requestVariant {α : Type} (params : Codec α) (mk : String → α → BitVec 32 → Request L)
    (c : Content) : Except Error (Request L) :=
  ((envelope params).deserializeVariant c).map fun (m, p, i, ()) => mk m p i

/-- `Request`'s variants, in declaration order. -/
def Request.variants : List (Content → Except Error (Request L)) :=
  [requestVariant L (Watchtower.Sig.codec L) .wtSig,
   requestVariant L (Coordinator.SetSpendTx.codec L) .setSpendTx,
   requestVariant L (Coordinator.GetSpendTx.codec L) .getSpendTx,
   requestVariant L (Coordinator.Sig.codec L) .coordSig,
   requestVariant L (Coordinator.GetSigs.codec L) .getSigs,
   requestVariant L (Cosigner.SignRequest.codec L) .sign]

/-- `Request`'s derived `Deserialize`. -/
def Request.deserialize (c : Content) : Except Error (Request L) :=
  untagged "Request" (Request.variants L) c

/-- `RequestParams`'s derived `Serialize`: a newtype variant is written as its record. -/
def RequestParams.serialize : RequestParams L → Content
  | .wtSig p => (Watchtower.Sig.codec L).serialize p
  | .setSpendTx p => (Coordinator.SetSpendTx.codec L).serialize p
  | .getSpendTx p => (Coordinator.GetSpendTx.codec L).serialize p
  | .coordSig p => (Coordinator.Sig.codec L).serialize p
  | .getSigs p => (Coordinator.GetSigs.codec L).serialize p
  | .sign p => (Cosigner.SignRequest.codec L).serialize p

/-- `RequestParams`'s variants, in declaration order. -/
def RequestParams.variants : List (Content → Except Error (RequestParams L)) :=
  [fun c => ((Watchtower.Sig.codec L).deserialize c).map .wtSig,
   fun c => ((Coordinator.SetSpendTx.codec L).deserialize c).map .setSpendTx,
   fun c => ((Coordinator.GetSpendTx.codec L).deserialize c).map .getSpendTx,
   fun c => ((Coordinator.Sig.codec L).deserialize c).map .coordSig,
   fun c => ((Coordinator.GetSigs.codec L).deserialize c).map .getSigs,
   fun c => ((Cosigner.SignRequest.codec L).deserialize c).map .sign]

/-- `RequestParams`'s derived `Deserialize`. -/
def RequestParams.deserialize (c : Content) : Except Error (RequestParams L) :=
  untagged "RequestParams" (RequestParams.variants L) c

/-! ## `impl_to_request!` -/

/-- `impl_to_request!($message_struct, $message_name, $enum_variant)`: `From<$message_struct>`
for `Request`, with the literal method name; `id` is the draw
`randombytes_uniform(u32::MAX)`, taken as an argument. -/
def implToRequest {α : Type} (messageName : String)
    (enumVariant : String → α → BitVec 32 → Request L) (params : α) (id : BitVec 32) :
    Request L :=
  enumVariant messageName params id

/-- `impl_to_request!(Sig, "sig", WtSig)`. -/
def Watchtower.Sig.toRequest := implToRequest L "sig" Request.wtSig
/-- `impl_to_request!(GetSigs, "get_sigs", GetSigs)`. -/
def Coordinator.GetSigs.toRequest := implToRequest L "get_sigs" Request.getSigs
/-- `impl_to_request!(SetSpendTx, "set_spend_tx", SetSpendTx)`. -/
def Coordinator.SetSpendTx.toRequest := implToRequest L "set_spend_tx" Request.setSpendTx
/-- `impl_to_request!(GetSpendTx, "get_spend_tx", GetSpendTx)`. -/
def Coordinator.GetSpendTx.toRequest := implToRequest L "get_spend_tx" Request.getSpendTx
/-- `impl_to_request!(Sig, "sig", CoordSig)`. -/
def Coordinator.Sig.toRequest := implToRequest L "sig" Request.coordSig
/-- `impl_to_request!(SignRequest, "sign", Sign)`. -/
def Cosigner.SignRequest.toRequest := implToRequest L "sign" Request.sign

/-! ## The envelope -/

/-- What a request's envelope is read from: an object in which `method` occurs once, as a borrowed
string `m`, `params` once, as `p`, and `id` once, as a `u32` `i`. -/
def Envelope (v : Content) (m : String) (p : Content) (i : BitVec 32) : Prop :=
  ∃ es, v = .map es ∧ valuesOf "method" es = [.str m] ∧ valuesOf "params" es = [p] ∧
    ∃ c, valuesOf "id" es = [c] ∧ u32.deserialize c = .ok i

theorem Envelope.unique {v p p' : Content} {m m' : String} {i i' : BitVec 32}
    (h : Envelope v m p i) (h' : Envelope v m' p' i') : m = m' ∧ p = p' ∧ i = i' := by
  obtain ⟨es, rfl, hm, hp, c, hc, hi⟩ := h
  obtain ⟨es', he, hm', hp', c', hc', hi'⟩ := h'
  cases he
  simp_all

/-- The envelope of a struct variant is read exactly when it is there. -/
theorem envelope_deserializeVariant_eq_ok {α : Type} {P : Codec α} {v : Content} {m : String}
    {q : α} {i : BitVec 32} :
    (envelope P).deserializeVariant v = .ok (m, q, i, ()) ↔
      ∃ p, Envelope v m p i ∧ P.deserialize p = .ok q := by
  simp only [Fields.deserializeVariant_eq_ok, envelope, Fields.visitContentMap_cons_eq_ok,
    Fields.visitContentMap_nil, and_true, strRef_deserialize_eq_ok, exists_eq_right,
    valuesOf_others (show "params" ≠ "method" by decide),
    valuesOf_others (show "id" ≠ "params" by decide), valuesOf_others (show "id" ≠ "method" by decide)]
  constructor
  · rintro ⟨es, rfl, hm, ⟨p, hp, hq⟩, c, hc, hi⟩
    exact ⟨p, ⟨es, rfl, hm, hp, c, hc, hi⟩, hq⟩
  · rintro ⟨p, ⟨es, rfl, hm, hp, c, hc, hi⟩, hq⟩
    exact ⟨es, rfl, hm, ⟨p, hp, hq⟩, c, hc, hi⟩

theorem requestVariant_eq_ok {α : Type} {P : Codec α} {mk : String → α → BitVec 32 → Request L}
    {v : Content} {r : Request L} :
    requestVariant L P mk v = .ok r ↔
      ∃ m p i q, Envelope v m p i ∧ P.deserialize p = .ok q ∧ mk m q i = r := by
  simp only [requestVariant, map_eq_ok, Prod.exists]
  constructor
  · rintro ⟨m, q, i, u, h, rfl⟩
    obtain ⟨p, he, hq⟩ := envelope_deserializeVariant_eq_ok.1 h
    exact ⟨m, p, i, q, he, hq, rfl⟩
  · rintro ⟨m, p, i, q, he, hq, rfl⟩
    exact ⟨m, q, i, (), envelope_deserializeVariant_eq_ok.2 ⟨p, he, hq⟩, rfl⟩

/-! ## One dispatch for both unions -/

variable {L}

theorem Request.ofParams_params (m : String) (q : RequestParams L) (i : BitVec 32) :
    (Request.ofParams m q i).params = q := by
  cases q <;> rfl

theorem Request.ofParams_eta (r : Request L) : Request.ofParams r.method r.params r.id = r := by
  cases r <;> rfl

/-- Under a fixed envelope, a `Request` variant succeeds exactly when the matching
`RequestParams` variant succeeds on `params`. -/
theorem requestVariant_iff {α : Type} {P : Codec α} {mk : String → α → BitVec 32 → Request L}
    {wrap : α → RequestParams L} (hw : ∀ x m i, Request.ofParams m (wrap x) i = mk m x i)
    {v p : Content} {m : String} {i : BitVec 32} (h : Envelope v m p i) (r : Request L) :
    requestVariant L P mk v = .ok r ↔
      ∃ q, (P.deserialize p).map wrap = .ok q ∧ Request.ofParams m q i = r := by
  rw [requestVariant_eq_ok]
  constructor
  · rintro ⟨m', p', i', x, h', hx, rfl⟩
    obtain ⟨rfl, rfl, rfl⟩ := h.unique h'
    exact ⟨wrap x, by simp [hx], hw x _ _⟩
  · rintro ⟨q, hq, rfl⟩
    obtain ⟨x, hx, rfl⟩ := map_eq_ok.1 hq
    exact ⟨m, p, i, x, h, hx, (hw x m i).symm⟩

theorem Request.deserialize_eq_ok_of_envelope {v p : Content} {m : String} {i : BitVec 32}
    (h : Envelope v m p i) (r : Request L) :
    Request.deserialize L v = .ok r ↔
      ∃ q, RequestParams.deserialize L p = .ok q ∧ Request.ofParams m q i = r :=
  untagged_eq_ok_iff (fun q => Request.ofParams m q i)
    (.cons (requestVariant_iff (by intros; rfl) h) <|
      .cons (requestVariant_iff (by intros; rfl) h) <|
      .cons (requestVariant_iff (by intros; rfl) h) <|
      .cons (requestVariant_iff (by intros; rfl) h) <|
      .cons (requestVariant_iff (by intros; rfl) h) <|
      .cons (requestVariant_iff (by intros; rfl) h) .nil) r

/-- A value decodes as a request exactly when its envelope is there and its `params` decode as
a `RequestParams`; the request is then of the params' kind. -/
theorem Request.deserialize_eq_ok {v : Content} {r : Request L} :
    Request.deserialize L v = .ok r ↔
      ∃ m p i q, Envelope v m p i ∧ RequestParams.deserialize L p = .ok q ∧
        Request.ofParams m q i = r := by
  constructor
  · intro h
    obtain ⟨d, hd, hdv⟩ := exists_of_untagged h
    obtain ⟨m, p, i, he⟩ : ∃ m p i, Envelope v m p i := by
      simp only [Request.variants, List.mem_cons, List.mem_singleton, List.not_mem_nil,
        or_false] at hd
      rcases hd with rfl | rfl | rfl | rfl | rfl | rfl <;>
      · obtain ⟨m, p, i, -, he, -⟩ := (requestVariant_eq_ok L).1 hdv
        exact ⟨m, p, i, he⟩
    obtain ⟨q, hq, hr⟩ := (Request.deserialize_eq_ok_of_envelope he r).1 h
    exact ⟨m, p, i, q, he, hq, hr⟩
  · rintro ⟨m, p, i, q, he, hq, rfl⟩
    exact (Request.deserialize_eq_ok_of_envelope he _).2 ⟨q, hq, rfl⟩

/-! ## Round trips -/

/-- The record a `RequestParams` holds reads back as itself through its codec. -/
def RequestParams.ReadsBack : RequestParams L → Prop
  | .wtSig p => (Watchtower.Sig.codec L).ReadsBack p
  | .setSpendTx p => (Coordinator.SetSpendTx.codec L).ReadsBack p
  | .getSpendTx p => (Coordinator.GetSpendTx.codec L).ReadsBack p
  | .coordSig p => (Coordinator.Sig.codec L).ReadsBack p
  | .getSigs p => (Coordinator.GetSigs.codec L).ReadsBack p
  | .sign p => (Cosigner.SignRequest.codec L).ReadsBack p

theorem RequestParams.readsBack_of_roundTrip (hL : L.RoundTrip) (q : RequestParams L) :
    q.ReadsBack := by
  cases q with
  | wtSig p => exact Watchtower.Sig.codec_roundTrip hL.toStrRoundTrip p
  | setSpendTx p => exact Coordinator.SetSpendTx.codec_roundTrip hL p
  | getSpendTx p => exact Coordinator.GetSpendTx.codec_roundTrip hL.toStrRoundTrip p
  | coordSig p => exact Coordinator.Sig.codec_roundTrip hL.toStrRoundTrip p
  | getSigs p => exact Coordinator.GetSigs.codec_roundTrip hL.toStrRoundTrip p
  | sign p => exact Cosigner.SignRequest.codec_roundTrip hL p

/-- A `RequestParams` variant refuses what a later record wrote: it has a field that record
lacks. -/
theorem RequestParams.deserialize_serialize {q : RequestParams L} (h : q.ReadsBack) :
    RequestParams.deserialize L (q.serialize L) = .ok q := by
  cases q with
  | wtSig p =>
    exact untagged_of_ok (congrArg (Except.map _) h)
  | setSpendTx p =>
    refine (untagged_of_ne ?_).trans (untagged_of_ok ?_)
    · exact Fields.codec_deserialize_serialize_ne (n := "signatures") (by simp) (by simp) _ _
    · exact congrArg (Except.map _) h
  | getSpendTx p =>
    refine (untagged_of_ne ?_).trans <| (untagged_of_ne ?_).trans (untagged_of_ok ?_)
    · exact Fields.codec_deserialize_serialize_ne (n := "signatures") (by simp) (by simp) _ _
    · exact Fields.codec_deserialize_serialize_ne (n := "deposit_outpoints") (by simp) (by simp) _ _
    · exact congrArg (Except.map _) h
  | coordSig p =>
    refine (untagged_of_ne ?_).trans <| (untagged_of_ne ?_).trans <|
      (untagged_of_ne ?_).trans (untagged_of_ok ?_)
    · exact Fields.codec_deserialize_serialize_ne (n := "signatures") (by simp) (by simp) _ _
    · exact Fields.codec_deserialize_serialize_ne (n := "deposit_outpoints") (by simp) (by simp) _ _
    · exact Fields.codec_deserialize_serialize_ne (n := "deposit_outpoint") (by simp) (by simp) _ _
    · exact congrArg (Except.map _) h
  | getSigs p =>
    refine (untagged_of_ne ?_).trans <| (untagged_of_ne ?_).trans <|
      (untagged_of_ne ?_).trans <| (untagged_of_ne ?_).trans (untagged_of_ok ?_)
    · exact Fields.codec_deserialize_serialize_ne (n := "signatures") (by simp) (by simp) _ _
    · exact Fields.codec_deserialize_serialize_ne (n := "deposit_outpoints") (by simp) (by simp) _ _
    · exact Fields.codec_deserialize_serialize_ne (n := "deposit_outpoint") (by simp) (by simp) _ _
    · exact Fields.codec_deserialize_serialize_ne (n := "pubkey") (by simp) (by simp) _ _
    · exact congrArg (Except.map _) h
  | sign p =>
    refine (untagged_of_ne ?_).trans <| (untagged_of_ne ?_).trans <|
      (untagged_of_ne ?_).trans <| (untagged_of_ne ?_).trans <|
      (untagged_of_ne ?_).trans (untagged_of_ok ?_)
    · exact Fields.codec_deserialize_serialize_ne (n := "signatures") (by simp) (by simp) _ _
    · exact Fields.codec_deserialize_serialize_ne (n := "deposit_outpoints") (by simp) (by simp) _ _
    · exact Fields.codec_deserialize_serialize_ne (n := "deposit_outpoint") (by simp) (by simp) _ _
    · exact Fields.codec_deserialize_serialize_ne (n := "pubkey") (by simp) (by simp) _ _
    · exact Fields.codec_deserialize_serialize_ne (n := "id") (by simp) (by simp) _ _
    · exact congrArg (Except.map _) h

/-- A `RequestParams` that reads back as itself was read by its own variant. -/
theorem RequestParams.readsBack_of_deserialize {q : RequestParams L}
    (h : RequestParams.deserialize L (q.serialize L) = .ok q) : q.ReadsBack := by
  obtain ⟨d, hd, hdq⟩ := exists_of_untagged h
  simp only [RequestParams.variants, List.mem_cons, List.mem_singleton, List.not_mem_nil,
    or_false] at hd
  rcases hd with rfl | rfl | rfl | rfl | rfl | rfl <;>
  · obtain ⟨x, hx, hq⟩ := map_eq_ok.1 hdq
    cases q <;> cases hq
    exact hx

theorem RequestParams.deserialize_serialize_eq_ok (q : RequestParams L) :
    RequestParams.deserialize L (q.serialize L) = .ok q ↔ q.ReadsBack :=
  ⟨RequestParams.readsBack_of_deserialize, RequestParams.deserialize_serialize⟩

/-- The envelope a struct variant is written with, when its method needs no escape. -/
theorem envelope_serialize {α : Type} (P : Codec α) {m : String} (hm : needsEscape m = false)
    (x : α) (i : BitVec 32) :
    Envelope (.map ((envelope P).serialize (m, x, i, ()))) m (P.serialize x) i :=
  ⟨_, rfl, by simp [envelope, Fields.serialize, valuesOf_cons, strRef, strContent, hm],
    by simp [envelope, Fields.serialize, valuesOf_cons], _,
    by simp [envelope, Fields.serialize, valuesOf_cons], u32_roundTrip i⟩

theorem Request.serialize_envelope (r : Request L) (hm : needsEscape r.method = false) :
    Envelope (r.serialize L) r.method (r.params.serialize L) r.id := by
  cases r <;> exact envelope_serialize _ hm _ _

/-- A request whose method needs no escape reads back as itself exactly when its params do. -/
theorem Request.deserialize_serialize_eq_ok (r : Request L) (hm : needsEscape r.method = false) :
    Request.deserialize L (r.serialize L) = .ok r ↔ r.params.ReadsBack := by
  rw [Request.deserialize_eq_ok_of_envelope (r.serialize_envelope hm),
    ← RequestParams.deserialize_serialize_eq_ok]
  constructor
  · rintro ⟨q, hq, hr⟩
    rwa [← hr, Request.ofParams_params] at hq ⊢
  · exact fun h => ⟨_, h, r.ofParams_eta⟩

/-- Every request whose method needs no escape, of any kind and with any params and id, reads
back as itself. -/
theorem request_deserialize_serialize (hL : L.RoundTrip) (r : Request L)
    (hm : needsEscape r.method = false) : Request.deserialize L (r.serialize L) = .ok r :=
  (Request.deserialize_serialize_eq_ok r hm).2 (RequestParams.readsBack_of_roundTrip hL _)

theorem request_deserialize_serialize_get_sigs :
    Leaves.strings.RoundTrip ∧
      needsEscape (Coordinator.GetSigs.toRequest Leaves.strings ⟨"00"⟩ 7).method = false ∧
      Request.deserialize Leaves.strings
          ((Coordinator.GetSigs.toRequest Leaves.strings ⟨"00"⟩ 7).serialize Leaves.strings) =
        .ok (Coordinator.GetSigs.toRequest Leaves.strings ⟨"00"⟩ 7) :=
  ⟨Leaves.strings_roundTrip, by decide,
    request_deserialize_serialize Leaves.strings_roundTrip _ (by decide)⟩

/-! ## The two decoders agree -/

/-- Code reading `params` as a `RequestParams` sees the kind the dispatcher saw; and an object
whose envelope is there and whose params decode is dispatched to the params' kind. -/
theorem request_params_agree (v : Content) :
    (∀ r, Request.deserialize L v = .ok r →
      ∃ p, v.lookup "params" = some p ∧ RequestParams.deserialize L p = .ok r.params) ∧
    ∀ m p i q, Envelope v m p i → RequestParams.deserialize L p = .ok q →
      ∃ r, Request.deserialize L v = .ok r ∧ r.params = q := by
  refine ⟨fun r h => ?_, fun m p i q he hq =>
    ⟨_, (Request.deserialize_eq_ok_of_envelope he _).2 ⟨q, hq, rfl⟩, Request.ofParams_params m q i⟩⟩
  obtain ⟨m, p, i, q, ⟨es, rfl, -, hp, -⟩, hq, rfl⟩ := Request.deserialize_eq_ok.1 h
  exact ⟨p, lookup_of_valuesOf hp, by rwa [Request.ofParams_params]⟩

theorem request_params_agree_get_sigs :
    (∃ p, (Content.map [("method", .str "get_sigs"), ("params", .map [("id", .str "0000000000000000000000000000000000000000000000000000000000000000")]),
        ("id", .u64 7)]).lookup "params" = some p ∧
      RequestParams.deserialize Leaves.strings p = .ok (.getSigs ⟨"0000000000000000000000000000000000000000000000000000000000000000"⟩)) ∧
    ∃ r, Request.deserialize Leaves.strings (.map [("method", .str "get_sigs"),
        ("params", .map [("id", .str "0000000000000000000000000000000000000000000000000000000000000000")]), ("id", .u64 7)]) = .ok r ∧
      r.params = .getSigs ⟨"0000000000000000000000000000000000000000000000000000000000000000"⟩ :=
  ⟨(request_params_agree (L := Leaves.strings) (.map [("method", .str "get_sigs"),
      ("params", .map [("id", .str "0000000000000000000000000000000000000000000000000000000000000000")]), ("id", .u64 7)])).1
      (.getSigs "get_sigs" ⟨"0000000000000000000000000000000000000000000000000000000000000000"⟩ 7) rfl,
    (request_params_agree (L := Leaves.strings) (.map [("method", .str "get_sigs"),
      ("params", .map [("id", .str "0000000000000000000000000000000000000000000000000000000000000000")]), ("id", .u64 7)])).2 "get_sigs"
      (.map [("id", .str "0000000000000000000000000000000000000000000000000000000000000000")]) 7 (.getSigs ⟨"0000000000000000000000000000000000000000000000000000000000000000"⟩)
      ⟨_, rfl, rfl, rfl, _, rfl, rfl⟩ rfl⟩

/-- A method written with an escape (`"\u0073ig"`) is read as a copied string, which `&str`
refuses, though `sig` needs no escape, the id is a `u32` and the params decode. -/
theorem escaped_method_not_dispatched :
    needsEscape "sig" = false ∧
      RequestParams.deserialize Leaves.strings (.map [("id", .str "0000000000000000000000000000000000000000000000000000000000000000")]) =
        .ok (.getSigs ⟨"0000000000000000000000000000000000000000000000000000000000000000"⟩) ∧
      Request.deserialize Leaves.strings
          (.map [("method", .string "sig"), ("params", .map [("id", .str "0000000000000000000000000000000000000000000000000000000000000000")]),
            ("id", .u64 7)]) =
        .error (.custom "data did not match any variant of untagged enum Request") :=
  ⟨by decide, rfl, rfl⟩

end RevaultNet.Message
