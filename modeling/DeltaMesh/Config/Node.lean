import DeltaMesh.Config.Replication
import DeltaMesh.Decimal.Notation
import DeltaMesh.Peer.Basic

/-!
# How a node is set up

The settings of a node, each with a default, and the rules that they have to meet; the first rule
that is broken is reported.

The program's `NodeConfig` with its defaults and `validate`, and the texts of what `validate`
refuses.
-/

namespace DeltaMesh

/-- The settings of a node. Times are in milliseconds. -/
structure NodeConfig where
  nodeId : Id := .zero
  /-- Where the node listens. -/
  listenAddress : SocketAddress := .v4 [0, 0, 0, 0] 7700
  /-- How long a request may take. -/
  requestTimeout : Nat := 10000
  /-- Whether every certificate is accepted. -/
  insecureSkipVerify : Bool := true
  /-- Where values are kept; in memory only if there is none. -/
  storageFolder : Option String := none
  /-- Where counters can be asked for. -/
  metricsAddress : Option SocketAddress := none
  /-- The other members of the cluster. -/
  peers : List Peer := []
  replication : ReplicationConfig := {}

/-- A rule that settings break. -/
inductive ConfigFault
  /-- A setting is zero. -/
  | notPositive (setting : String)
  | crossedBounds (min max : Nat)
  | badDurability (target : Float)
  | badAvailability (availability : Float)
  /-- The node is among its own peers. -/
  | ownPeer (peer : Peer)

/-- What is wrong, without saying that it is about settings. -/
def ConfigFault.reason : ConfigFault → String
  | notPositive setting => setting ++ " must be positive"
  | crossedBounds min max =>
    "replication factor min " ++ toString min ++ " exceeds max " ++ toString max
  | badDurability target => "target_durability " ++ plainText target ++ " must lie in (0, 1)"
  | badAvailability availability =>
    "initial_availability " ++ plainText availability ++ " must lie in [0, 1]"
  | ownPeer peer => "peer list contains this node (" ++ peer.address.toText ++ ")"

def ConfigFault.message (fault : ConfigFault) : String :=
  "Invalid configuration: " ++ fault.reason

/-- Demands that a setting is not zero. -/
def requirePositive (setting : String) (value : Nat) : Except ConfigFault Unit :=
  if value = 0 then .error (.notPositive setting) else .ok ()

/-- Checks the choice of a replication factor. -/
def FactorConfig.validate (c : FactorConfig) : Except ConfigFault Unit := do
  if c.max < c.min then throw (.crossedBounds c.min c.max)
  if !(0 < c.targetDurability && c.targetDurability < 1) then
    throw (.badDurability c.targetDurability)
  if !(0 ≤ c.initialAvailability && c.initialAvailability ≤ 1) then
    throw (.badAvailability c.initialAvailability)

/-- Checks the settings of replication. -/
def ReplicationConfig.validate (c : ReplicationConfig) : Except ConfigFault Unit := do
  requirePositive "block_size" c.blockSize
  requirePositive "tick_interval" c.tickInterval
  requirePositive "max_concurrent_locations" c.maxConcurrentLocations
  requirePositive "max_value_size" c.maxValueSize
  c.factor.validate

/-- Checks the settings of a node. -/
def NodeConfig.validate (c : NodeConfig) : Except ConfigFault Unit := do
  c.replication.validate
  requirePositive "request_timeout" c.requestTimeout
  match c.peers.find? (·.id = c.nodeId) with
  | some peer => throw (.ownPeer peer)
  | none => pure ()

end DeltaMesh
