import DeltaMesh.Factor.Config

/-!
# How replication is set up

The program's `ReplicationConfig` with its defaults.
-/

namespace DeltaMesh

/-- How a node keeps its replicas up to date. Times are in milliseconds. -/
structure ReplicationConfig where
  /-- The length of the blocks; both ends of an exchange must agree. -/
  blockSize : Nat := 32
  factor : FactorConfig := {}
  /-- The time from one tick to the next. -/
  tickInterval : Nat := 60000
  /-- A delayed hand-over waits this long at most. -/
  maxPushJitter : Nat := 5000
  /-- How many locations a tick reconciles at once. -/
  maxConcurrentLocations : Nat := 16
  /-- The largest value or delta that one request carries. -/
  maxValueSize : Nat := 15 * 1024 * 1024

end DeltaMesh
