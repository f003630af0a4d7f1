import DeltaMesh.Exchange.Reconcile

/-!
# Reports

What a reconciliation of one location, or a tick over all of them, has achieved.

The program's `LocationReport` with `new`, `skipped` and `record`, and `TickReport` with
`failures`, `skipped` and its text.
-/

namespace DeltaMesh

/-- What came of a location. -/
structure LocationReport where
  location : Id
  /-- Another reconciliation of the location was under way. -/
  skipped : Bool := false
  replicas : Nat := 0
  /-- How often a value and a replica were brought together. -/
  values : Nat := 0
  upToDate : Nat := 0
  copied : Nat := 0
  synced : Nat := 0
  failures : Nat := 0
  deriving DecidableEq

namespace LocationReport

/-- Counts what came of one value at one replica. -/
def record (r : LocationReport) : ValueResult → LocationReport
  | .ok .upToDate => { r with values := r.values + 1, upToDate := r.upToDate + 1 }
  | .ok (.copied _) => { r with values := r.values + 1, copied := r.copied + 1 }
  | .ok (.synced ..) => { r with values := r.values + 1, synced := r.synced + 1 }
  | .error _ => { r with failures := r.failures + 1 }

/-- The report of a reconciliation with `replicas` replicas and these results. -/
def ofResults (location : Id) (replicas : Nat) (results : List ValueResult) : LocationReport :=
  results.foldl record { location, replicas }

end LocationReport

/-- What came of a tick. -/
structure TickReport where
  factor : Nat
  /-- One report for each location, in the order in which they were finished. -/
  locations : List LocationReport
  deriving DecidableEq

namespace TickReport

/-- The sum of a figure over the locations. -/
def total (t : TickReport) (figure : LocationReport → Nat) : Nat :=
  t.locations.foldr (fun report n => figure report + n) 0

def failures (t : TickReport) : Nat := t.total (·.failures)

def skipped (t : TickReport) : Nat := t.locations.countP (·.skipped)

def toText (t : TickReport) : String :=
  "Tick: " ++ toString t.locations.length ++ " locations (factor " ++ toString t.factor ++ "), " ++
    toString (t.total (·.copied)) ++ " copied, " ++ toString (t.total (·.synced)) ++ " synced, " ++
    toString (t.total (·.upToDate)) ++ " up to date, " ++ toString t.failures ++ " failures, " ++
    toString t.skipped ++ " skipped"

end TickReport

end DeltaMesh
