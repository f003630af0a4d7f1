import DeltaMesh.Delta.Block

/-!
# The effort of computing with deltas

How long a signature, a delta and a rebuilt value take to compute, in nanoseconds and roughly. The
figures matter only where computations run side by side: they say which one is done first.

They stand for the running times of `compute_checksums`, `find_instructions` and `reconstruct`.
-/

namespace DeltaMesh.Effort

/-- Computing the checksums of a value's blocks. -/
def signing (bytes blockSize : Nat) : Nat := 160 * blockCount bytes blockSize + 2 * bytes

/-- Computing the delta that makes a value of `bytes` bytes out of a signature of `blocks`
blocks. -/
def diffing (blocks bytes blockSize : Nat) : Nat :=
  200 * blocks + 40 * bytes + 200 * (bytes / blockSize)

/-- Rebuilding a value from one of `bytes` bytes and an encoded delta of `payload` bytes. -/
def rebuilding (payload bytes : Nat) : Nat := 5 * payload + bytes / 4

end DeltaMesh.Effort
