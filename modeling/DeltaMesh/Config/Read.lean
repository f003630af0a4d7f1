import DeltaMesh.Config.Node
import DeltaMesh.Json.Record
import DeltaMesh.Store.Disk

/-!
# Reading the settings of a node

Settings are written in JSON, as records whose fields may be left out. Ids and addresses are
strings, times are numbers of milliseconds.

The program's `from_json` and `from_file` with the texts of their errors, and the readers that are
derived for the settings.
-/

namespace DeltaMesh

open Json (Reader Field Refusal field)
open Json.Reader

/-! ### Fields -/

/-- An id in hexadecimal digits. -/
def readId : Reader Id := textOf "a string" fun s => (Id.parse s).mapError (·.message)

/-- A host and a port. -/
def readAddress : Reader SocketAddress := textOf "socket address" fun s =>
  match SocketAddress.parse? s with
  | some a => .ok a
  | none => .error SocketAddress.syntaxFault

/-- A number of things. -/
def readCount : Reader Nat := natural "usize"

/-- A time in milliseconds. -/
def readTime : Reader Nat := natural "u64"

/-- What is known of a peer while its record is read. -/
structure PeerDraft where
  id : Option Id := none
  address : Option SocketAddress := none

/-- A peer; both of its fields have to be there. -/
def readPeer : Reader Peer :=
  record "PeerAddress"
    [field "id" readId fun (d : PeerDraft) id => { d with id := some id },
      field "addr" readAddress fun d address => { d with address := some address }]
    {}
    fun
      | .list count, { id := some id, address := some address } =>
        if count = 2 then .ok ⟨id, address⟩
        else .error (.badLength count "struct PeerAddress with 2 elements")
      | .list count, _ => .error (.badLength count "struct PeerAddress with 2 elements")
      | .map, { id := none, .. } => .error (.missingField "id")
      | .map, { address := none, .. } => .error (.missingField "addr")
      | .map, { id := some id, address := some address } => .ok ⟨id, address⟩

def readFactorConfig : Reader FactorConfig :=
  recordWithDefaults "ReplicationFactorConfig"
    [field "base" readCount fun (c : FactorConfig) base => { c with base },
      field "min" readCount fun c min => { c with min },
      field "max" readCount fun c max => { c with max },
      field "target_durability" (float "f64") fun c targetDurability =>
        { c with targetDurability },
      field "initial_availability" (float "f64") fun c initialAvailability =>
        { c with initialAvailability },
      field "adaptive" (boolean "a boolean") fun c adaptive => { c with adaptive }]
    {}

def readReplicationConfig : Reader ReplicationConfig :=
  recordWithDefaults "ReplicationConfig"
    [field "block_size" readCount fun (c : ReplicationConfig) blockSize => { c with blockSize },
      field "factor" readFactorConfig fun c factor => { c with factor },
      field "tick_interval" readTime fun c tickInterval => { c with tickInterval },
      field "max_push_jitter" readTime fun c maxPushJitter => { c with maxPushJitter },
      field "max_concurrent_locations" readCount fun c maxConcurrentLocations =>
        { c with maxConcurrentLocations },
      field "max_value_size" readCount fun c maxValueSize => { c with maxValueSize }]
    {}

def readNodeConfig : Reader NodeConfig :=
  recordWithDefaults "NodeConfig"
    [field "node_id" readId fun (c : NodeConfig) nodeId => { c with nodeId },
      field "listen_addr" readAddress fun c listenAddress => { c with listenAddress },
      field "request_timeout" readTime fun c requestTimeout => { c with requestTimeout },
      field "insecure_skip_verify" (boolean "a boolean") fun c insecureSkipVerify =>
        { c with insecureSkipVerify },
      field "storage_dir" (nullable (text "path string")) fun c storageFolder =>
        { c with storageFolder },
      field "metrics_addr" (nullable readAddress) fun c metricsAddress =>
        { c with metricsAddress },
      field "peers" (list "a sequence" readPeer) fun c peers => { c with peers },
      field "replication" readReplicationConfig fun c replication => { c with replication }]
    {}

/-! ### Texts and files -/

/-- Why there are no settings. -/
inductive ConfigError
  /-- The file could not be read. -/
  | read (why : IoFault)
  /-- The text holds no settings. -/
  | parse (why : Json.Fault)

/-- What is said of an error; a text that is no JSON is only told by its kind. -/
def ConfigError.message? : ConfigError → Option String
  | read why => some why.message
  | parse (.refused why) => some ("Failed to parse config: " ++ why.message)
  | parse .unfinished | parse .malformed => none

namespace NodeConfig

/-- The settings in a text. -/
def ofText (text : String) : Except ConfigError NodeConfig :=
  (readAll readNodeConfig text.toUTF8).mapError .parse

/-- The settings in a file. -/
def ofFile (disk : Disk) (path : String) : Except ConfigError NodeConfig := do
  let content ← (disk.read path).mapError .read
  match String.fromUTF8? content with
  | some text => ofText text
  | none => throw (.read (.other "stream did not contain valid UTF-8"))

end NodeConfig

end DeltaMesh
