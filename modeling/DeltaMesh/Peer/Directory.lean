import DeltaMesh.Peer.Basic
import Std.Data.ExtTreeMap

/-!
# Who is in the cluster

A `Directory` is one node's list of members: the node itself and the others it knows, one peer to
an id. `Directory.closest` sorts them by the distance of their ids from a location; the closest
member owns the location, and the ones after it hold its replicas.

The program's `StaticPeerDirectory` with `new`, `with_peers`, `add_peer`, `remove_peer`, `peers`,
`local`, `closest_replicas` and `cluster_size`, and the tracker's `owner_of`.
-/

namespace DeltaMesh

/-- The members that one node knows. -/
structure Directory where
  /-- The node itself. -/
  self : Peer
  /-- The other members, by id. -/
  others : Std.ExtTreeMap Id Peer compare

namespace Directory

/-- A node that knows no one else. -/
def alone (self : Peer) : Directory := ⟨self, ∅⟩

/-- Enters a peer, whose address replaces the one known for its id. The node itself is never
entered. The answer is whether the id is new. -/
def add (d : Directory) (p : Peer) : Bool × Directory :=
  if p.id = d.self.id then (false, d)
  else (!d.others.contains p.id, { d with others := d.others.insert p.id p })

/-- A node and the peers it gets to know one after the other. -/
def ofPeers (self : Peer) (peers : List Peer) : Directory :=
  peers.foldl (fun d p => (d.add p).2) (alone self)

/-- Forgets the peer with this id; the answer is the peer. -/
def remove (d : Directory) (id : Id) : Option Peer × Directory :=
  (d.others[id]?, { d with others := d.others.erase id })

/-- The other members, in the order of their ids. -/
def peers (d : Directory) : List Peer := d.others.values

/-- How many members there are, this node among them. -/
def size (d : Directory) : Nat := d.others.size + 1

/-- All members. -/
def members (d : Directory) : List Peer := d.peers ++ [d.self]

/-- The members from the closest to the farthest. -/
def ranked (d : Directory) (location : Id) : List Peer :=
  d.members.mergeSort fun a b =>
    (compare (a.id.distance location) (b.id.distance location)).isLE

/-- The `count` members that are closest to a location, closest first. -/
def closest (d : Directory) (location : Id) (count : Nat) : List Peer :=
  (d.ranked location).take count

/-- The member that owns a location. -/
def owner (d : Directory) (location : Id) : Peer :=
  (d.closest location 1).headD d.self

/-- The `factor` other members that are closest to a location. One member more is asked for, in
case this node is among them; the count is a word of 64 bits. -/
def replicas (d : Directory) (location : Id) (factor : Nat) : List Peer :=
  ((d.closest location ((factor + 1) % 0x10000000000000000)).filter
    fun p => p.id ≠ d.self.id).take factor

end Directory

end DeltaMesh
