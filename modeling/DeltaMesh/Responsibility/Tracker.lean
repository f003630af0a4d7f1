import DeltaMesh.Peer.Directory
import Std.Data.ExtTreeSet

/-!
# Responsibility for locations

A node is responsible for the locations that it owns among those it has looked at. A `Tracker`
keeps them, and announces each change: looking at a location either changes nothing or is one
event, and replaying the events gives the locations back (`Event.apply`). Listeners read the
announcements from the position at which they subscribed, and may lose the oldest ones when they
fall behind by more than `Tracker.capacity`.

The program's `LocalResponsibilityTracker` with `evaluate`, `notify_data_changed`, `reevaluate`,
`is_responsible`, `responsible_locations` and `subscribe`, and the `ResponsibilityEvent`.
-/

namespace DeltaMesh

/-- A change of responsibility. -/
inductive Event
  /-- This node has become responsible for a location. -/
  | gained (location : Id)
  /-- `newOwner` has; a delayed hand-over waits before it begins. -/
  | lost (location : Id) (newOwner : Peer) (delayed : Bool)
  deriving DecidableEq

def Event.location : Event → Id
  | gained location => location
  | lost location _ _ => location

/-- The locations after an event. -/
def Event.apply (owned : Std.ExtTreeSet Id compare) : Event → Std.ExtTreeSet Id compare
  | gained location => owned.insert location
  | lost location _ _ => owned.erase location

/-- The locations that a node is responsible for, and all it has announced. -/
structure Tracker where
  owned : Std.ExtTreeSet Id compare
  /-- The announcements, oldest first. -/
  log : Array Event

namespace Tracker

/-- How many announcements are kept for a listener. -/
def capacity : Nat := 1024

def empty : Tracker := ⟨∅, #[]⟩

/-- The locations that the node is responsible for, in ascending order. -/
def responsible (t : Tracker) : List Id := t.owned.toList

/-- What has changed for a location, if anything: either this node is the owner and was not
responsible, or it was responsible and is not the owner. -/
def change? (t : Tracker) (d : Directory) (location : Id) (delayed : Bool) : Option Event :=
  let owner := d.owner location
  if owner.id = d.self.id then
    if t.owned.contains location then none else some (.gained location)
  else
    if t.owned.contains location then some (.lost location owner delayed) else none

/-- Announces a change. -/
def announce (t : Tracker) (e : Event) : Tracker := ⟨e.apply t.owned, t.log.push e⟩

/-- Looks at a location again. -/
def evaluate (t : Tracker) (d : Directory) (location : Id) (delayed : Bool) : Tracker :=
  match t.change? d location delayed with
  | some e => t.announce e
  | none => t

/-- Values under a location were written. -/
def notify (t : Tracker) (d : Directory) (location : Id) : Tracker :=
  t.evaluate d location false

/-- Looks at the locations again after the membership has changed. -/
def reevaluate (t : Tracker) (d : Directory) (locations : List Id) : Tracker :=
  locations.foldl (fun t location => t.evaluate d location true) t

/-- How many announcements were made since `earlier`. -/
def changesSince (t earlier : Tracker) : Nat := t.log.size - earlier.log.size

/-! ### Listening -/

/-- What a listener gets: how many announcements it lost, and those after them. -/
structure Heard where
  lagged : Nat
  events : List Event

/-- The announcements from `position` on, as far as they are kept. -/
def heardSince (t : Tracker) (position : Nat) : Heard :=
  let lagged := t.log.size - position - capacity
  ⟨lagged, (t.log.extract (position + lagged) t.log.size).toList⟩

end Tracker

end DeltaMesh
