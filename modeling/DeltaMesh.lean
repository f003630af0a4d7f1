import DeltaMesh.Bytes.Cursor
import DeltaMesh.Bytes.Digits
import DeltaMesh.Bytes.Hex
import DeltaMesh.Cluster.Basic
import DeltaMesh.Cluster.Deed
import DeltaMesh.Cluster.HandOver
import DeltaMesh.Cluster.Reconciliation
import DeltaMesh.Cluster.Talk
import DeltaMesh.Cluster.Tick
import DeltaMesh.Compute.Pool
import DeltaMesh.Compute.WorkClock
import DeltaMesh.Config.Node
import DeltaMesh.Config.Read
import DeltaMesh.Config.Replication
import DeltaMesh.Decimal.Binary64
import DeltaMesh.Decimal.Fixed
import DeltaMesh.Decimal.Notation
import DeltaMesh.Decimal.Shortest
import DeltaMesh.Delta.Block
import DeltaMesh.Delta.Effort
import DeltaMesh.Delta.Instruction
import DeltaMesh.Delta.Rebuild
import DeltaMesh.Delta.Scan
import DeltaMesh.Delta.Signature
import DeltaMesh.Delta.Summary
import DeltaMesh.Delta.Weak
import DeltaMesh.Exchange.Basic
import DeltaMesh.Exchange.HandOver
import DeltaMesh.Exchange.Reconcile
import DeltaMesh.Factor.Config
import DeltaMesh.Factor.Estimator
import DeltaMesh.Hash.Blake3
import DeltaMesh.Ident.Id
import DeltaMesh.Ident.Key
import DeltaMesh.Json.Fault
import DeltaMesh.Json.Number
import DeltaMesh.Json.Reader
import DeltaMesh.Json.Record
import DeltaMesh.Json.Value
import DeltaMesh.Lz4.Block
import DeltaMesh.Lz4.Plan
import DeltaMesh.Message.Basic
import DeltaMesh.Message.ExchangeError
import DeltaMesh.Message.Frame
import DeltaMesh.Meter.Basic
import DeltaMesh.Network.Basic
import DeltaMesh.Network.Error
import DeltaMesh.Network.Script
import DeltaMesh.Peer.Basic
import DeltaMesh.Peer.Directory
import DeltaMesh.Peer.SocketAddress
import DeltaMesh.Proofs.Bytes.Cursor
import DeltaMesh.Proofs.Cluster.Agenda
import DeltaMesh.Proofs.Cluster.Arrival
import DeltaMesh.Proofs.Cluster.Books
import DeltaMesh.Proofs.Cluster.Brought
import DeltaMesh.Proofs.Cluster.Calls
import DeltaMesh.Proofs.Cluster.Errand
import DeltaMesh.Proofs.Cluster.HandOver
import DeltaMesh.Proofs.Cluster.Ledger
import DeltaMesh.Proofs.Cluster.Lone
import DeltaMesh.Proofs.Cluster.Moves
import DeltaMesh.Proofs.Cluster.Overlap
import DeltaMesh.Proofs.Cluster.Reconciliation
import DeltaMesh.Proofs.Cluster.Spares
import DeltaMesh.Proofs.Cluster.Tick
import DeltaMesh.Proofs.Cluster.Visit
import DeltaMesh.Proofs.Compute.Pool
import DeltaMesh.Proofs.Delta.Aligned
import DeltaMesh.Proofs.Delta.Checksum
import DeltaMesh.Proofs.Delta.Lookup
import DeltaMesh.Proofs.Delta.Parts
import DeltaMesh.Proofs.Delta.Partition
import DeltaMesh.Proofs.Delta.PlaceIndex
import DeltaMesh.Proofs.Delta.PlainScan
import DeltaMesh.Proofs.Delta.Replay
import DeltaMesh.Proofs.Delta.Rolling
import DeltaMesh.Proofs.Delta.RoundTrip
import DeltaMesh.Proofs.Delta.Summary
import DeltaMesh.Proofs.Delta.Tiling
import DeltaMesh.Proofs.Exchange.Batches
import DeltaMesh.Proofs.Exchange.FrameCap
import DeltaMesh.Proofs.Exchange.HandOver
import DeltaMesh.Proofs.Exchange.Honest
import DeltaMesh.Proofs.Exchange.Overhead
import DeltaMesh.Proofs.Exchange.Reconcile
import DeltaMesh.Proofs.Factor.Estimator
import DeltaMesh.Proofs.Lz4.Block
import DeltaMesh.Proofs.Lz4.Expansion
import DeltaMesh.Proofs.Lz4.Plan
import DeltaMesh.Proofs.Lz4.Run
import DeltaMesh.Proofs.Message.Frame
import DeltaMesh.Proofs.Message.Size
import DeltaMesh.Proofs.Network.Transparency
import DeltaMesh.Proofs.Peer.Directory
import DeltaMesh.Proofs.Replica.Commute
import DeltaMesh.Proofs.Replica.Contest
import DeltaMesh.Proofs.Replica.Copy
import DeltaMesh.Proofs.Replica.Info
import DeltaMesh.Proofs.Replica.Lone
import DeltaMesh.Proofs.Replica.Repeats
import DeltaMesh.Proofs.Replica.Row
import DeltaMesh.Proofs.Replica.Serializable
import DeltaMesh.Proofs.Replica.Sync
import DeltaMesh.Proofs.Replica.Traceless
import DeltaMesh.Proofs.Replica.Tracking
import DeltaMesh.Proofs.Replica.Turn
import DeltaMesh.Proofs.Responsibility.Agreement
import DeltaMesh.Proofs.Responsibility.Announcements
import DeltaMesh.Proofs.Responsibility.Replicas
import DeltaMesh.Proofs.Schedule.AllOrNothing
import DeltaMesh.Proofs.Schedule.Await
import DeltaMesh.Proofs.Schedule.Books
import DeltaMesh.Proofs.Schedule.Bring
import DeltaMesh.Proofs.Schedule.Claims
import DeltaMesh.Proofs.Schedule.HandOver
import DeltaMesh.Proofs.Schedule.Isolation
import DeltaMesh.Proofs.Schedule.Retry
import DeltaMesh.Proofs.Schedule.Round
import DeltaMesh.Proofs.Schedule.Scripted
import DeltaMesh.Proofs.Schedule.Tick
import DeltaMesh.Proofs.Store.Disk
import DeltaMesh.Proofs.Store.Entries
import DeltaMesh.Proofs.Store.EntryFile
import DeltaMesh.Proofs.Store.Exclusion
import DeltaMesh.Proofs.Store.KeyLocks
import DeltaMesh.Proofs.Store.Locations
import DeltaMesh.Proofs.Store.Persistence
import DeltaMesh.Proofs.Wire.Field
import DeltaMesh.Proofs.Wire.Inflation
import DeltaMesh.Proofs.Wire.Payload
import DeltaMesh.Proofs.Wire.Reading
import DeltaMesh.Proofs.Wire.Size
import DeltaMesh.Reconciler.Basic
import DeltaMesh.Reconciler.Report
import DeltaMesh.Replica.Basic
import DeltaMesh.Replica.Serve
import DeltaMesh.Replica.Service
import DeltaMesh.Responsibility.Tracker
import DeltaMesh.Schedule.Await
import DeltaMesh.Schedule.Basic
import DeltaMesh.Store.Basic
import DeltaMesh.Store.Disk
import DeltaMesh.Store.Entries
import DeltaMesh.Store.KeyLocks
import DeltaMesh.Store.Path
import DeltaMesh.Store.Persistent
import DeltaMesh.Text.Invisible
import DeltaMesh.Text.Literal
import DeltaMesh.Text.Utf8
import DeltaMesh.Wire.Field
import DeltaMesh.Wire.Payload
