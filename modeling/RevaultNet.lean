import RevaultNet.Except
import RevaultNet.Bitcoin.Hex
import RevaultNet.Bitcoin.Encode
import RevaultNet.Bitcoin.Transaction
import RevaultNet.Serde.Content
import RevaultNet.Serde.Derive
import RevaultNet.Serde.Collections
import RevaultNet.Message.TxHex
import RevaultNet.Message.Catalog
import RevaultNet.Message.Request
import RevaultNet.Message.Response
import RevaultNet.Message.Shape
import RevaultNet.Message.Limit
import RevaultNet.Json.Write
import RevaultNet.Json.Read
import RevaultNet.Json.RoundTrip
import RevaultNet.Json.Stream
import RevaultNet.Message.Text
