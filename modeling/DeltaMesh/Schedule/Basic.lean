import DeltaMesh.Cluster.Deed

/-!
# Schedules

A `Schedule` is a cluster together with the deeds that go on in it. Deeds that can go on take
turns, first come, first served; a deed that has to wait lines up again as soon as it can go on.
Computations end only while no deed can go on, one after the other (`Schedule.settle`). Time passes
only while the schedule waits and every deed waits for a later time (`Schedule.wait`).

It stands for the runtime that the program's tasks are spawned on, those of `run` above all.
-/

namespace DeltaMesh

/-- A deed that goes on. -/
structure Activity (n : Nat) where
  number : Nat
  /-- The activity that began it. -/
  parent : Option Nat
  deed : Deed n

/-- A cluster and what goes on in it. -/
structure Schedule (n : Nat) where
  cluster : Cluster n
  /-- The activities that can go on, in the order of their turns. -/
  ready : List (Activity n)
  blocked : List (Activity n)
  /-- The number of the next activity. -/
  next : Nat

namespace Wait

variable {n : Nat}

/-- When the computation that is waited for ends. -/
def work? : Wait n → Option Nat
  | work due => some due
  | _ => none

/-- The time that is waited for. -/
def time? : Wait n → Option Nat
  | time due => some due
  | _ => none

end Wait

namespace Schedule

variable {n : Nat}

/-- A cluster in which nothing goes on. -/
def ofCluster (c : Cluster n) : Schedule n := ⟨c, [], [], 0⟩

/-- Lines up activities with these deeds. -/
def lineUp (s : Schedule n) (parent : Option Nat) (deeds : List (Deed n)) : Schedule n :=
  { s with
    ready := s.ready ++ deeds.mapIdx fun i deed => ⟨s.next + i, parent, deed⟩
    next := s.next + deeds.length }

/-- Lines up the activities that can go on again. -/
def wake (s : Schedule n) : Schedule n :=
  let (woken, blocked) := s.blocked.partition (·.deed.canGoOn s.cluster)
  { s with ready := s.ready ++ woken, blocked }

/-- Gives an activity that has left the line a turn. -/
def turn (s : Schedule n) (a : Activity n) : Schedule n :=
  let (after, cluster) := a.deed.turn s.cluster
  let s := { s with
    cluster
    blocked := s.blocked ++ after.rest.toList.map fun deed => { a with deed } }
  s.lineUp (some a.number) after.begun

/-- Gives the activity whose turn it is a turn; `none` if no activity can go on. -/
def step? (s : Schedule n) : Option (Schedule n) :=
  let s := s.wake
  match s.ready with
  | [] => none
  | a :: rest => some ({ s with ready := rest }.turn a)

/-- What the blocked activities wait for. -/
def waits (s : Schedule n) : List (Wait n) := s.blocked.flatMap (·.deed.waits s.cluster)

/-- When the first of the computations that are waited for ends. -/
def firstWork? (waits : List (Wait n)) : Option Nat := (waits.filterMap Wait.work?).min?

/-- Lets computations go on until `due`. -/
def workUntil (s : Schedule n) (due : Nat) : Schedule n :=
  { s with cluster := { s.cluster with work := s.cluster.work.passUntil due } }

/-- More turns and ends of computations than can follow one another while time stands still. Of
the values of a location each is taken to each replica once in a deed, and stops there a few times
at most. A node that runs begins a deed for each change that it has not seen or that the values
under way bring about, and one tick. -/
def patience (s : Schedule n) : Nat :=
  let sum (figure : Replica → Nat) :=
    s.cluster.network.replicas.foldl (fun total r => total + figure r) 0
  let values := sum (·.store.entries.size) + 1
  let peers := sum (·.directory.size) + 1
  let changes := sum (·.tracker.log.size) + values + 1
  16 * values * peers * (s.ready.length + s.blocked.length + 1) * changes

/-- Gives activities turns, and lets computations end, until every activity waits for a later time
or for good. -/
def settleWithin : (turns : Nat) → Schedule n → Schedule n
  | 0, s => s
  | turns + 1, s =>
    match s.step? with
    | some s => settleWithin turns s
    | none =>
      match firstWork? s.waits with
      | some due => settleWithin turns (s.workUntil due)
      | none => s

/-- Carries on whatever can go on without time passing. -/
def settle (s : Schedule n) : Schedule n := s.settleWithin s.patience

/-- Sets the time. -/
def setTime (s : Schedule n) (now : Nat) : Schedule n :=
  { s with cluster := { s.cluster with now } }

/-- Lets time pass from `now` until `stop`. What is due before then is done in time. -/
def waitUntil (stop now : Nat) (s : Schedule n) : Schedule n :=
  let s := s.settle
  match (s.waits.filterMap Wait.time?).min? with
  | none => s.setTime stop
  | some due =>
    if now < due ∧ due < stop then waitUntil stop due (s.setTime due) else s.setTime stop
termination_by stop - now

/-- Lets time pass. A wait of no time does nothing at all. -/
def wait (s : Schedule n) (milliseconds : Nat) : Schedule n :=
  if milliseconds = 0 then s
  else waitUntil (s.cluster.now + milliseconds) s.cluster.now s

/-- Begins something; the answer is the number of the activity. -/
def begin (s : Schedule n) (deed : Deed n) : Nat × Schedule n :=
  (s.next, s.wake.lineUp none [deed])

/-- Begins something and lets a moment pass. -/
def launch (s : Schedule n) (deed : Deed n) : Nat × Schedule n :=
  let (number, s) := s.begin deed
  (number, s.wait 1)

/-- Whether an activity is no longer going on. -/
def isOver (s : Schedule n) (number : Nat) : Bool :=
  (s.ready ++ s.blocked).all fun a => a.number ≠ number

/-- Breaks an activity off, and those that it has begun. -/
def breakOff (s : Schedule n) (number : Nat) : Schedule n :=
  let belongs (a : Activity n) : Bool := a.number = number ∨ a.parent = some number
  { s with
    cluster := (s.ready ++ s.blocked).foldl (fun c a => if belongs a then a.deed.breakOff c else c)
      s.cluster
    ready := s.ready.filter fun a => !belongs a
    blocked := s.blocked.filter fun a => !belongs a }

end Schedule

end DeltaMesh
