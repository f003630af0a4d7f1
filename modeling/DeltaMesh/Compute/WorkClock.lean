/-!
# When computations end

A computation runs on a thread of its own while conversations go on. Threads are set to work one
after the other, and a computation takes the longer the more it has to do. So of computations with
like efforts the one that began first ends first, and a short one overtakes a long one that began
just before. `WorkClock.begin` says when a computation will end.

It stands for the blocking threads that the program's `ComputePool` hands its closures to, as seen
by the tasks that wait for them.
-/

namespace DeltaMesh

/-- The time that computations take, in nanoseconds. It stands still while conversations go on,
and passes only when all of them wait. -/
structure WorkClock where
  now : Nat := 0
  /-- From when on the next thread can be set to work. -/
  nextThread : Nat := 0

namespace WorkClock

/-- The time it takes to set one more thread to work. -/
def handOffTime : Nat := 20000

/-- The time from the beginning of a computation without any effort to its end. -/
def leastTime : Nat := 30000

/-- Begins a computation; the answer is when it ends. -/
def begin (clock : WorkClock) (effort : Nat) : Nat × WorkClock :=
  let start := max clock.now clock.nextThread
  (start + leastTime + effort, { clock with nextThread := start + handOffTime })

/-- Lets time pass until `due`. -/
def passUntil (clock : WorkClock) (due : Nat) : WorkClock :=
  { clock with now := max clock.now due }

end WorkClock

end DeltaMesh
