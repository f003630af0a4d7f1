import DeltaMesh.Exchange.Basic

/-!
# Counters and gauges

A `Meter` counts what all nodes of a process do. A counter is listed from the first time it is
moved, be it by nothing; the gauges show what was set last.

The program's `record_info`, `record_copy`, `record_sync`, `record_rpc_failure`,
`record_request_handled`, `set_replication_factor`, `set_responsible_locations` and
`ReconcileTimer`.
-/

namespace DeltaMesh

/-- The two requests that carry values. -/
inductive CarrierKind
  | copy
  | sync
  deriving DecidableEq, Repr

/-- What is counted. -/
inductive Counter
  /-- Answers to INFO. -/
  | infoAnswers (holding : Holding)
  /-- COPY requests that were carried out. -/
  | copies
  /-- SYNC requests that were carried out. -/
  | syncs (ack : SyncAck)
  /-- Bytes of values and deltas. -/
  | bytesSent (kind : CarrierKind)
  /-- Bytes that deltas saved. -/
  | bytesSaved
  /-- Requests that failed. -/
  | requestFailures (kind : RequestKind)
  /-- Requests that a replica served. -/
  | served (kind : RequestKind) (failed : Bool)
  deriving DecidableEq, Repr

/-- The name of a counter, with its labels. -/
def Counter.name : Counter → String
  | infoAnswers holding => labelled "info_requests_total" [("status", holding.label)]
  | copies => labelled "copy_requests_total" []
  | syncs ack => labelled "sync_requests_total" [("ack", ack.label)]
  | bytesSent .copy => labelled "bytes_sent_total" [("kind", RequestKind.copy.label)]
  | bytesSent .sync => labelled "bytes_sent_total" [("kind", RequestKind.sync.label)]
  | bytesSaved => labelled "bytes_saved_total" []
  | requestFailures kind => labelled "rpc_failures_total" [("kind", kind.label)]
  | served kind failed => labelled "requests_handled_total"
      [("kind", kind.label), ("outcome", if failed then "failed" else "ok")]
where
  /-- A name and its labels. -/
  labelled (name : String) (labels : List (String × String)) : String :=
    let shown := labels.map fun (label, value) => label ++ "=\"" ++ value ++ "\""
    "replisync_" ++ name ++
      (if labels.isEmpty then "" else "\x7b" ++ ",".intercalate shown ++ "\x7d")

/-- The counters that were moved, and the gauges that were set. -/
structure Meter where
  counts : List (Counter × Nat) := []
  replicationFactor : Option Nat := none
  responsibleLocations : Option Nat := none
  /-- How many reconciliations of a location were timed. -/
  reconciliations : Nat := 0

namespace Meter

/-- Moves a counter in a list of counters. -/
def move (counter : Counter) (amount : Nat) : List (Counter × Nat) → List (Counter × Nat)
  | [] => [(counter, amount)]
  | (c, n) :: rest =>
    if c = counter then (c, n + amount) :: rest else (c, n) :: move counter amount rest

/-- Moves a counter. -/
def add (m : Meter) (counter : Counter) (amount : Nat) : Meter :=
  { m with counts := move counter amount m.counts }

/-- What a counter shows. -/
def count (m : Meter) (counter : Counter) : Nat := (m.counts.lookup counter).getD 0

/-- Counts what happens in a conversation. -/
def record (m : Meter) : Note → Meter
  | .infoAnswered holding => m.add (.infoAnswers holding) 1
  | .copied bytes => (m.add .copies 1).add (.bytesSent .copy) bytes
  | .synced ack payload saved =>
    ((m.add (.syncs ack) 1).add (.bytesSent .sync) payload).add .bytesSaved saved
  | .requestFailed kind => m.add (.requestFailures kind) 1
  | .valueSettled | .valueFailed _ | .valueSkipped | .handedOver => m

/-- Counts a request that a replica served. -/
def recordServed (m : Meter) (kind : RequestKind) (response : Response) : Meter :=
  m.add (.served kind (response matches .failed _)) 1

/-- The lines of the meter, in ascending order. -/
def lines (m : Meter) : List String :=
  let gauge (name : String) (value : Option Nat) : List (String × Nat) :=
    value.toList.map fun n => (Counter.name.labelled name [], n)
  let shown :=
    m.counts.map (fun (c, n) => (c.name, n)) ++
    gauge "replication_factor" m.replicationFactor ++
    gauge "responsible_locations" m.responsibleLocations ++
    gauge "reconcile_duration_seconds_count"
      (if m.reconciliations = 0 then none else some m.reconciliations)
  (shown.map fun (name, n) => name ++ " " ++ toString n).mergeSort (· ≤ ·)

end Meter

end DeltaMesh
