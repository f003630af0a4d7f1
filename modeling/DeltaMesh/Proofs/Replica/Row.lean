import DeltaMesh.Proofs.Store.KeyLocks
import DeltaMesh.Replica.Serve

/-!
# Writing a row of values

Of values that are written one after the other those before the first write that fails are stored,
and only they (`Store.Halts`, `Replica.storeEntries_halts`). Each is written while its lock is held,
and locks that no one else wants are free again then.
-/

namespace DeltaMesh

namespace Store

/-- The values of a row can be written, one after the other. -/
def Accepts (s : Store) (row : List (Key × ByteArray)) : Prop :=
  ∀ (i : Nat) (key : Key) (value : ByteArray), row[i]? = some (key, value) →
    s.fault (s.tried + i) key value = none

/-- Of the values of `row`, written one after the other, `stored` are stored before a write fails,
if one does. -/
inductive Halts (s : Store) :
    (row stored : List (Key × ByteArray)) → (failure : Option StorageError) → Prop
  | complete {row : List (Key × ByteArray)} (haccepts : s.Accepts row) : Halts s row row none
  | failed {stored rest : List (Key × ByteArray)} {key : Key} {value : ByteArray}
    {why : StorageError} (haccepts : s.Accepts stored)
    (hfault : s.fault (s.tried + stored.length) key value = some why) :
    Halts s (stored ++ (key, value) :: rest) stored (some why)

variable {s : Store} {entries : Entries} {row stored : List (Key × ByteArray)}
  {failure : Option StorageError} {key : Key} {value : ByteArray}

theorem accepts_nil (s : Store) : s.Accepts [] := fun _ _ _ h => by simp at h

/-- After a write that succeeds the next ones are counted from there on. -/
theorem accepts_cons (hfirst : s.fault s.tried key value = none)
    (hrest : Accepts ⟨entries, s.tried + 1, s.fault⟩ row) : s.Accepts ((key, value) :: row) := by
  intro i k v hentry
  cases i with
  | zero =>
    obtain ⟨rfl, rfl⟩ := Prod.mk.inj (Option.some.inj hentry)
    exact hfirst
  | succ i =>
    have hlater := hrest i k v hentry
    rwa [Nat.add_assoc, Nat.add_comm 1] at hlater

theorem Halts.cons (hfirst : s.fault s.tried key value = none)
    (hrest : Halts ⟨entries, s.tried + 1, s.fault⟩ row stored failure) :
    s.Halts ((key, value) :: row) ((key, value) :: stored) failure := by
  cases hrest with
  | complete haccepts => exact .complete (accepts_cons hfirst haccepts)
  | failed haccepts hwhy =>
    refine .failed (accepts_cons hfirst haccepts) ?_
    rwa [Nat.add_assoc, Nat.add_comm 1] at hwhy

end Store

namespace KeyLocks

/-- The locks after a task has held that of a key. -/
def passed (l : KeyLocks Nat) (task : Nat) (key : Key) : KeyLocks Nat :=
  (((l.fetch task key).acquire? task).getD (l.fetch task key)).release task

theorem Sound.passed {l : KeyLocks Nat} {task : Nat} {key : Key} (h : l.Sound task)
    (hfree : l.on key = []) : (l.passed task key).Sound task ∧ l.Alike (l.passed task key) := by
  obtain ⟨l', htaken⟩ := h.take hfree
  rw [KeyLocks.passed, htaken.now, Option.getD_some]
  exact ⟨htaken.released, htaken.alike⟩

end KeyLocks

namespace Replica

variable {r r' : Replica} {task : Nat} {key : Key} {value : ByteArray}
  {row : List (Key × ByteArray)}

theorem withLock_write_of_fault {why : StorageError}
    (h : r.store.fault r.store.tried key value = some why) :
    r.withLock task key (·.write key value) = (.error why, { r with
      store := { r.store with tried := r.store.tried + 1 }
      locks := r.locks.passed task key }) := by
  simp only [withLock, write, Store.put, h]
  rfl

theorem withLock_write_of_no_fault (h : r.store.fault r.store.tried key value = none) :
    r.withLock task key (·.write key value) = (.ok (), { r with
      store := { r.store with
        entries := r.store.entries.insert key value
        tried := r.store.tried + 1 }
      locks := r.locks.passed task key }) := by
  simp only [withLock, write, Store.put, h]
  rfl

/-- The values before the first write that fails are stored, and only they. Locks that no one else
wants are free again. -/
theorem storeEntries_halts (task : Nat) (row : List (Key × ByteArray)) (r : Replica) :
    ∃ stored failure tried locks, r.store.Halts row stored failure ∧
      storeEntries task row r = ((stored.map (·.1.location), failure), { r with
        store := ⟨r.store.entries.insertMany stored, tried, r.store.fault⟩
        locks }) ∧
      (r.locks.Sound task → (∀ p ∈ row, r.locks.on p.1 = []) →
        locks.Sound task ∧ r.locks.Alike locks) := by
  induction row generalizing r with
  | nil =>
    refine ⟨[], none, r.store.tried, r.locks, .complete r.store.accepts_nil, ?_, ?_⟩
    · rw [storeEntries, Std.ExtTreeMap.insertMany_nil]
      rfl
    · intro hsound _
      exact ⟨hsound, .refl _⟩
  | cons p row ih =>
    obtain ⟨key, value⟩ := p
    rw [storeEntries]
    cases hfault : r.store.fault r.store.tried key value with
    | some why =>
      rw [withLock_write_of_fault hfault]
      refine ⟨[], some why, r.store.tried + 1, r.locks.passed task key, ?_, ?_, ?_⟩
      · exact .failed r.store.accepts_nil hfault
      · rw [Std.ExtTreeMap.insertMany_nil]
        rfl
      · intro hsound hfree
        exact hsound.passed (hfree _ List.mem_cons_self)
    | none =>
      rw [withLock_write_of_no_fault hfault]
      obtain ⟨stored, failure, tried, locks, hhalts, hstore, hlocks⟩ := ih { r with
        store := { r.store with
          entries := r.store.entries.insert key value
          tried := r.store.tried + 1 }
        locks := r.locks.passed task key }
      refine ⟨(key, value) :: stored, failure, tried, locks, .cons hfault hhalts, ?_, ?_⟩
      · simp only [hstore, List.map_cons, Std.ExtTreeMap.insertMany_cons]
      · intro hsound hfree
        obtain ⟨hfirst, hrest⟩ := List.forall_mem_cons.mp hfree
        obtain ⟨hpassed, halike⟩ := hsound.passed hfirst
        obtain ⟨hsound', halike'⟩ := hlocks hpassed fun p hp => (halike.on_eq _).trans (hrest p hp)
        exact ⟨hsound', halike.trans halike'⟩

end Replica

end DeltaMesh
