import DeltaMesh.Exchange.Reconcile

/-!
# Handing a location over

The new owner of a location is sent every value in COPY requests. Values are put into a request
in key order as long as they have at most `maxBatch` bytes together; a value that is longer than
that goes alone, and one that no request can carry is left out. The first request that fails ends
the hand-over.

The loop of the program's `push_location`, up to the call that fails or the last one.
-/

namespace DeltaMesh

/-- A request with more than one value carries at most so many value bytes. -/
def maxBatch : Nat := 4 * 1024 * 1024

/-- Hands over the values to come, after `batch`, whose values have `bytes` bytes and wait to be
sent; `stored` values were stored so far. -/
def handOverOnto (t : Terms) (owner : Peer) (batch : Entries) (bytes stored : Nat) :
    List (Key × ByteArray) → Attempt Nat
  | [] => do
    let stored ← if batch.isEmpty then pure stored
      else do pure (stored + (← sendCopy t owner batch))
    Attempt.jot .handedOver
    return stored
  | (key, value) :: rest =>
    if t.limit < value.size then do
      Attempt.jot .valueSkipped
      handOverOnto t owner batch bytes stored rest
    else if ¬batch.isEmpty ∧ maxBatch < bytes + value.size then do
      let sent ← sendCopy t owner batch
      handOverOnto t owner (.ofPairs [(key, value)]) value.size (stored + sent) rest
    else handOverOnto t owner (batch.insert key value) (bytes + value.size) stored rest

/-- Hands values over to a new owner; the result is how many it says it stored. -/
def handOver (t : Terms) (owner : Peer) (values : List (Key × ByteArray)) : Attempt Nat :=
  handOverOnto t owner ∅ 0 0 values

end DeltaMesh
