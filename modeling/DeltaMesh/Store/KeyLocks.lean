import DeltaMesh.Ident.Key
import Std.Data.ExtTreeMap

/-!
# Key locks

Writers of one key take turns. A table maps keys to locks; a task that wants to write a key looks
its lock up, or enters a new one, and from then on refers to that lock until it is done. It holds
the lock as soon as no other task does, or gives up; tasks that wait for one lock get it in the
order in which they came. Pruning the table drops the locks that no task refers to.

The program's `KeyLocks` with `lock`, `prune`, `len` and `is_empty`, and the guards that `lock`
gives out.
-/

namespace DeltaMesh

/-- What a task has to do with a lock. -/
inductive Grip
  | waiting
  | holding
  deriving DecidableEq, Repr

/-- A task's reference to lock number `lock`, which it found under `key`. -/
structure Claim (τ : Type) where
  task : τ
  key : Key
  lock : Nat
  grip : Grip
  deriving DecidableEq

/-- The locks of all keys, and the tasks that refer to them. -/
structure KeyLocks (τ : Type) where
  table : Std.ExtTreeMap Key Nat compare
  /-- The number of the next lock. -/
  next : Nat
  /-- The references of the tasks, latest first. -/
  claims : List (Claim τ)

namespace KeyLocks

variable {τ : Type} [DecidableEq τ]

def empty : KeyLocks τ := ⟨∅, 0, []⟩

/-- How many keys have a lock. -/
def size (l : KeyLocks τ) : Nat := l.table.size

/-- Whether some task holds lock number `lock`. -/
def isHeld (l : KeyLocks τ) (lock : Nat) : Bool :=
  l.claims.any fun c => c.lock = lock ∧ c.grip = .holding

/-- Lets `task` refer to the lock of `key`, which is entered if it is missing. -/
def fetch (l : KeyLocks τ) (task : τ) (key : Key) : KeyLocks τ :=
  match l.table[key]? with
  | some lock => { l with claims := ⟨task, key, lock, .waiting⟩ :: l.claims }
  | none =>
    { table := l.table.insert key l.next
      next := l.next + 1
      claims := ⟨task, key, l.next, .waiting⟩ :: l.claims }

/-- Hands the lock that `task` waits for over to it, if no task holds that lock. -/
def acquire? (l : KeyLocks τ) (task : τ) : Option (KeyLocks τ) :=
  match l.claims.find? fun c => c.task = task ∧ c.grip = .waiting with
  | none => none
  | some claim =>
    if l.isHeld claim.lock then none
    else
      some { l with
        claims := l.claims.map fun c =>
          if c.task = task ∧ c.grip = .waiting then { c with grip := .holding } else c }

/-- Whether `task` waits for a lock that no task has referred to for longer. -/
def isNext (l : KeyLocks τ) (task : τ) : Bool :=
  match l.claims.dropWhile fun c => ¬(c.task = task ∧ c.grip = .waiting) with
  | [] => false
  | claim :: older => older.all fun c => c.lock ≠ claim.lock

/-- Hands the lock that `task` waits for over to it when it is the task's turn. -/
def acquireInTurn? (l : KeyLocks τ) (task : τ) : Option (KeyLocks τ) :=
  if l.isNext task then l.acquire? task else none

/-- Ends the references of `task` with the given grip. -/
def leave (l : KeyLocks τ) (task : τ) (grip : Grip) : KeyLocks τ :=
  { l with claims := l.claims.filter fun c => ¬(c.task = task ∧ c.grip = grip) }

/-- Gives the lock that `task` holds back. -/
def release (l : KeyLocks τ) (task : τ) : KeyLocks τ := l.leave task .holding

/-- Lets `task` wait no longer. -/
def abandon (l : KeyLocks τ) (task : τ) : KeyLocks τ := l.leave task .waiting

/-- Ends all references of `task`. -/
def drop (l : KeyLocks τ) (task : τ) : KeyLocks τ := (l.release task).abandon task

/-- Whether `task` holds a lock. -/
def holds (l : KeyLocks τ) (task : τ) : Bool :=
  l.claims.any fun c => c.task = task ∧ c.grip = .holding

/-- Drops the locks that no task refers to. -/
def prune (l : KeyLocks τ) : KeyLocks τ :=
  { l with table := l.table.filter fun _ lock => l.claims.any fun c => c.lock = lock }

/-- Takes the lock of `key` for `task` if it is free, in place of the lock that the task held
before; otherwise gives up at once. -/
def tryLock (l : KeyLocks τ) (task : τ) (key : Key) : Bool × KeyLocks τ :=
  let fetched := l.fetch task key
  match fetched.acquire? task with
  | none => (false, fetched.abandon task)
  | some locked =>
    (true, { locked with
      claims := locked.claims.filter fun c => ¬(c.task = task ∧ c.key ≠ key) })

end KeyLocks

end DeltaMesh
