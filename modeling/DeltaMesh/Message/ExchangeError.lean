import DeltaMesh.Delta.Rebuild
import DeltaMesh.Message.Basic
import DeltaMesh.Store.Basic
import DeltaMesh.Wire.Payload

/-!
# What goes wrong in an exchange

The faults of one request and its response that are not the network's: the replica cannot serve
the request, or the asking node cannot use the answer.

The program's `ProtocolError` and its texts.
-/

namespace DeltaMesh

/-- Why a request and its response came to nothing. -/
inductive ExchangeError
  /-- A payload could not be read. -/
  | codec (why : Wire.CodecError)
  /-- The replica says that it holds another value, but not which blocks that has. -/
  | missingChecksums
  /-- The delta does not fit the replica's value. -/
  | rebuild (why : OutOfRange)
  /-- The rebuilt value is not the one announced. -/
  | hashMismatch (key : Key)
  | storage (why : StorageError)
  /-- The response belongs to another kind of request. -/
  | unexpected (asked : RequestKind) (answer : Response)
  /-- The replica reports a failure. -/
  | remote (reason : String)

def ExchangeError.message : ExchangeError → String
  | .codec why => "Codec error: " ++ why.message
  | .missingChecksums => "Codec error: PARTIAL response without checksums"
  | .rebuild why => "Reconstruction error: " ++ why.message
  | .hashMismatch key =>
    "Reconstructed value for " ++ key.toText ++ " does not match the expected hash"
  | .storage why => "Storage error: " ++ why.message
  | .unexpected asked answer =>
    "Unexpected response to " ++ asked.title ++ " request: " ++ answer.describe
  | .remote reason => "Remote failure: " ++ reason

end DeltaMesh
