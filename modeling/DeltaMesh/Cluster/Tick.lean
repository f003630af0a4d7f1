import DeltaMesh.Cluster.Reconciliation

/-!
# Ticks

In a tick a node reconciles every location that it is responsible for. A limited number of
locations are under way at once; those that can go on do so in the order in which they came up,
and the next location is let in as soon as one has reported.

The program's `tick`: `recompute`, `responsible_locations`, and `reconcile_location` for each of
them with at most `max_concurrent_locations` under way.
-/

namespace DeltaMesh

/-- A tick of a node under way. -/
structure Tick (n : Nat) where
  /-- The replication factor in force. -/
  factor : Nat
  /-- How many locations may be under way at once. -/
  window : Nat
  /-- The locations that are not yet let in. -/
  waiting : List Id
  /-- Those that can go on, in the order of their turns. -/
  ready : List (Reconciliation n)
  blocked : List (Reconciliation n)
  /-- The reports so far, latest first. -/
  reports : List LocationReport

namespace Tick

variable {n : Nat}

/-- Recomputes the replication factor of a node and looks up which locations it is responsible
for. -/
def begin (i : Fin n) (c : Cluster n) : Except CrossedBounds (Tick n × Cluster n) := do
  let q ← (c.reconciler i).recompute (c.replica i).directory.size
  return (⟨q.factor, max q.config.maxConcurrentLocations 1, (c.replica i).tracker.responsible,
      [], [], []⟩,
    { c.setReconciler i q with meter := { c.meter with replicationFactor := some q.factor } })

/-- What a tick waits for: one of these is enough. -/
def waits (t : Tick n) : List (Wait n) :=
  if t.ready.isEmpty ∧ (t.waiting.isEmpty ∨ t.window ≤ t.blocked.length) then
    t.blocked.flatMap Reconciliation.waits
  else [.free]

/-- Whether a reconciliation can go on. -/
def canGoOn (c : Cluster n) (r : Reconciliation n) : Bool := r.waits.any c.permits

/-- Lets in as many locations as there is room for. -/
def letIn (t : Tick n) : Tick n :=
  let room := t.window - (t.ready.length + t.blocked.length)
  { t with
    waiting := t.waiting.drop room
    ready := t.ready ++ (t.waiting.take room).map .planned }

/-- What the tick is after the turn of a location. -/
def settle (t : Tick n) : Progress (Reconciliation n) LocationReport → Tick n
  | .underWay r => { t with blocked := t.blocked ++ [r] }
  | .over report => { t with reports := report :: t.reports }

/-- How many turns of locations are to come before all of them wait. -/
def turnsLeft (t : Tick n) : Nat := 2 * t.waiting.length + t.ready.length

theorem turnsLeft_letIn_le (t : Tick n) : t.letIn.turnsLeft ≤ t.turnsLeft := by
  simp only [turnsLeft, letIn, List.length_drop, List.length_append, List.length_map,
    List.length_take]
  omega

@[simp] theorem turnsLeft_settle (t : Tick n) (p : Progress (Reconciliation n) LocationReport) :
    (t.settle p).turnsLeft = t.turnsLeft := by cases p <;> rfl

/-- Gives locations turns as long as one of them can go on. -/
def run (i : Fin n) (t : Tick n) (c : Cluster n) : Tick n × Cluster n :=
  match h : t.letIn.ready with
  | [] => (t.letIn, c)
  | r :: rest =>
    have : { t.letIn with ready := rest }.turnsLeft < t.turnsLeft := by
      have := t.turnsLeft_letIn_le
      simp only [turnsLeft, h, List.length_cons] at this ⊢
      omega
    let (progress, c) := r.turn i c
    run i ({ t.letIn with ready := rest }.settle progress) c
termination_by t.turnsLeft
decreasing_by simpa only [turnsLeft_settle] using this

/-- Gives a tick of a node a turn; it is over when all locations have reported. -/
def turn (i : Fin n) (t : Tick n) (c : Cluster n) : Progress (Tick n) TickReport × Cluster n :=
  let (woken, blocked) := t.blocked.partition (canGoOn c)
  let (t, c) := run i { t with ready := t.ready ++ woken, blocked } c
  (if t.blocked.isEmpty then .over ⟨t.factor, t.reports.reverse⟩ else .underWay t, c)

/-- Breaks a tick off. -/
def breakOff (i : Fin n) (t : Tick n) (c : Cluster n) : Cluster n :=
  (t.ready ++ t.blocked).foldl (fun c r => r.breakOff i c) c

end Tick

end DeltaMesh
