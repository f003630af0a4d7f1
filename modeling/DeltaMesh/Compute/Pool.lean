/-!
# The compute pool

The program's `ComputePool` with `new`, `run`, `size` and `available`.

Work that keeps a processor busy runs on threads of its own, for a caller that holds one of the
pool's slots. The pool counts the slots that are free. A caller is admitted while there is one,
hands its work over, and gives the slot back once the work has come to an end. A caller may also be
dropped on the way; then its slot is free again, and work that has been handed over goes on without
it. Which threads there are is not the pool's business: work that has been handed over may have to
wait for one, and counts as if it ran.
-/

namespace DeltaMesh

/-- How far a caller of the pool has come. -/
inductive PoolStage
  /-- It holds a slot, and has not handed its work over yet. -/
  | admitted
  /-- It holds a slot and has handed its work over, which runs or waits for a thread. -/
  | working
  /-- It holds a slot and its work has ended. -/
  | finished
  /-- It was dropped after it had handed its work over, which runs or waits for a thread. -/
  | detached
  deriving DecidableEq, Repr

namespace PoolStage

/-- Whether a caller at this stage holds a slot. -/
def holdsSlot : PoolStage → Bool
  | detached => false
  | _ => true

/-- Whether the work of a caller at this stage has been handed over and has not ended: it occupies a
thread, or will as soon as there is one. -/
def occupiesThread : PoolStage → Bool
  | working | detached => true
  | _ => false

end PoolStage

/-- The work did not return. -/
inductive ComputeError
  | taskFailed
  deriving DecidableEq, Repr

/-- A pool with `size` slots, the count of those that are free, and the callers that came past the
entrance. -/
structure ComputePool (τ : Type) where
  size : Nat
  available : Nat
  callers : List (τ × PoolStage)

namespace ComputePool

variable {τ : Type} [DecidableEq τ]

/-- The most slots that a pool keeps count of. -/
def maxSize : Nat := 0x1fffffffffffffff

/-- An unused pool, unless it would have too many slots; it has a slot at least. -/
def ofSize? (size : Nat) : Option (ComputePool τ) :=
  if maxSize < size then none else some ⟨max size 1, max size 1, []⟩

/-- How many callers hold a slot. -/
def held (p : ComputePool τ) : Nat := p.callers.countP fun c => c.2.holdsSlot

/-- How much work has been handed over and has not ended. -/
def running (p : ComputePool τ) : Nat := p.callers.countP fun c => c.2.occupiesThread

/-- The stage of a caller that is in the pool. -/
def stage? (p : ComputePool τ) (caller : τ) : Option PoolStage :=
  (p.callers.find? fun c => c.1 = caller).map (·.2)

/-- The pool with `caller` at another stage. -/
def moveTo (p : ComputePool τ) (caller : τ) (stage : PoolStage) : ComputePool τ :=
  { p with callers := p.callers.map fun c => if c.1 = caller then (caller, stage) else c }

/-- The pool without `caller`. -/
def forget (p : ComputePool τ) (caller : τ) : ComputePool τ :=
  { p with callers := p.callers.filter fun c => c.1 ≠ caller }

/-- The pool with one more slot to give out. -/
def giveBack (p : ComputePool τ) : ComputePool τ := { p with available := p.available + 1 }

/-- Gives a slot to a new caller if one is free. -/
def admit? (p : ComputePool τ) (caller : τ) : Option (ComputePool τ) :=
  if p.stage? caller = none ∧ 0 < p.available then
    some { p with available := p.available - 1, callers := (caller, .admitted) :: p.callers }
  else none

/-- Hands the work of a caller that was admitted over. -/
def start? (p : ComputePool τ) (caller : τ) : Option (ComputePool τ) :=
  if p.stage? caller = some .admitted then some (p.moveTo caller .working) else none

/-- Ends the work of a caller, whether it returns or fails. -/
def finish? (p : ComputePool τ) (caller : τ) : Option (ComputePool τ) :=
  match p.stage? caller with
  | some .working => some (p.moveTo caller .finished)
  | some .detached => some (p.forget caller)
  | _ => none

/-- Gives the slot of a caller whose work has ended back. -/
def leave? (p : ComputePool τ) (caller : τ) : Option (ComputePool τ) :=
  if p.stage? caller = some .finished then some (p.forget caller).giveBack else none

/-- Drops a caller wherever it stands, and its slot with it. -/
def cancel? (p : ComputePool τ) (caller : τ) : Option (ComputePool τ) :=
  match p.stage? caller with
  | none | some .detached => none
  | some .working => some (p.moveTo caller .detached).giveBack
  | some _ => some (p.forget caller).giveBack

/-- Lets `caller` come in, do its work and leave; `none` as long as no slot is free. The work
either returns a value or fails. -/
def run? (p : ComputePool τ) (caller : τ) (work : Option α) :
    Option (Except ComputeError α × ComputePool τ) := do
  let left ← p.admit? caller >>= (·.start? caller) >>= (·.finish? caller) >>= (·.leave? caller)
  return (match work with
    | some result => .ok result
    | none => .error .taskFailed, left)

end ComputePool

end DeltaMesh
