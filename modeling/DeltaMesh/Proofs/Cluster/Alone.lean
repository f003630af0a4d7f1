import DeltaMesh.Proofs.Cluster.Moves
import DeltaMesh.Schedule.Await

/-!
# Conversations on their own

While nothing else goes on a conversation takes one course through the states of its cluster, and
`Cluster.Alone` says where that ends. On the way it may have to stop for computations of either
side. `Exchange.Computes` bounds how often a conversation itself computes, whatever is answered.

Main statement: `Cluster.Alone.progress`.
-/

namespace DeltaMesh

variable {n : Nat} {α : Type}

/-- The conversation computes at most so many times, whatever is answered. -/
def Exchange.Computes : Exchange α → Nat → Prop
  | .done _, _ => True
  | .ask _ _ next, m => ∀ reply, (next reply).Computes m
  | .note _ next, m => next.Computes m
  | .compute _ _, 0 => False
  | .compute _ next, m + 1 => next.Computes m

namespace Cluster

/-- Led by node `i` with nothing else going on, the conversation takes the cluster `c` to `c'` and
comes to the result `a`; it stops at most `m` times on the way. -/
inductive Alone (i : Fin n) (a : α) (c' : Cluster n) : Nat → Exchange α → Cluster n → Prop
  | done (m : Nat) : Alone i a c' m (.done a) c'
  | note {m : Nat} {what : Note} {next : Exchange α} {c : Cluster n}
    (hnext : Alone i a c' m next (c.jot i what)) : Alone i a c' m (.note what next) c
  | compute {m effort due : Nat} {next : Exchange α} {c c₁ : Cluster n}
    (hwork : c.beginWork effort = (.work due, c₁))
    (hnext : Alone i a c' m next (c₁.workedUntil due)) :
    Alone i a c' (m + 1) (.compute effort next) c
  /-- The reply comes back at once. -/
  | answered {m : Nat} {peer : Peer} {q : Request} {next : Reply → Exchange α} {reply : Reply}
    {c c₁ : Cluster n} (hsend : c.send peer q = (.back reply, c₁))
    (hnext : Alone i a c' m (next reply) c₁) : Alone i a c' m (.ask peer q next) c
  /-- The replica has something to compute first. -/
  | awaited {m due : Nat} {peer : Peer} {q : Request} {next : Reply → Exchange α} {reply : Reply}
    {d : Delivery n} {c c₁ c₂ : Cluster n} (hsend : c.send peer q = (.underWay d (.work due), c₁))
    (hdeliver : (c₁.workedUntil due).deliver d = (.back reply, c₂))
    (hnext : Alone i a c' m (next reply) c₂) : Alone i a c' (m + 1) (.ask peer q next) c

/-- The conversation stops for a computation, and once that has ended it comes to the result `a` and
the cluster `c'`, with at most `m` more stops. -/
inductive Stopped (i : Fin n) (a : α) (c' : Cluster n) (m : Nat) : Talk n α → Cluster n → Prop
  | resting {due : Nat} {next : Exchange α} {c : Cluster n}
    (hnext : Alone i a c' m next (c.workedUntil due)) :
    Stopped i a c' m (.resting (.work due) next) c
  | asking {due : Nat} {d : Delivery n} {next : Reply → Exchange α} {reply : Reply}
    {c c₂ : Cluster n} (hdeliver : (c.workedUntil due).deliver d = (.back reply, c₂))
    (hnext : Alone i a c' m (next reply) c₂) :
    Stopped i a c' m (.asking d (.work due) next) c

variable {i : Fin n} {a : α} {c c' : Cluster n} {m : Nat} {x : Exchange α} {talk : Talk n α}

theorem workedUntil_of_permits {due : Nat} (h : c.permits (.work due) = true) :
    c.workedUntil due = c := by
  have hnow : c.work.passUntil due = c.work := by
    rw [WorkClock.passUntil, Nat.max_eq_left (of_decide_eq_true h)]
  rw [workedUntil, hnow]

theorem workedUntil_workedUntil (c : Cluster n) (due : Nat) :
    (c.workedUntil due).workedUntil due = c.workedUntil due :=
  workedUntil_of_permits (c.permits_workedUntil due)

theorem Alone.mono (h : Alone i a c' m x c) {m' : Nat} (hle : m ≤ m') : Alone i a c' m' x c := by
  induction h generalizing m' with
  | done m => exact .done m'
  | note hnext ih => exact .note (ih hle)
  | @compute m effort due next c c₁ hwork hnext ih =>
    obtain ⟨m', rfl⟩ := Nat.exists_eq_add_of_le' hle
    exact .compute hwork (ih (Nat.le_add_left m m'))
  | answered hsend hnext ih => exact .answered hsend (ih hle)
  | @awaited m due peer q next reply d c c₁ c₂ hsend hdeliver hnext ih =>
    obtain ⟨m', rfl⟩ := Nat.exists_eq_add_of_le' hle
    exact .awaited hsend hdeliver (ih (Nat.le_add_left m m'))

/-- A turn of a conversation leads to its result or to the next stop. The measure that is left
decreases, so that a conversation left alone comes to its end. -/
theorem Alone.progress (h : Alone i a c' m x c) :
    converse i x c = (.finished a, c') ∨
      ∃ k talk c₁, k < m ∧ converse i x c = (talk, c₁) ∧ Stopped i a c' k talk c₁ := by
  induction h with
  | done m => exact .inl rfl
  | note hnext ih => exact ih
  | @compute m effort due next c c₁ hwork hnext =>
    refine .inr ⟨m, _, c₁, Nat.lt_succ_self m, ?_, .resting hnext⟩
    rw [converse, hwork]
  | answered hsend hnext ih =>
    rw [converse, hsend]
    exact ih
  | @awaited m due peer q next reply d c c₁ c₂ hsend hdeliver hnext =>
    refine .inr ⟨m, _, c₁, Nat.lt_succ_self m, ?_, .asking hdeliver hnext⟩
    rw [converse, hsend]

/-- A conversation without stops is over after one turn. -/
theorem Alone.converse_eq (h : Alone i a c' 0 x c) : converse i x c = (.finished a, c') := by
  obtain hfinished | ⟨k, -, -, hk, -⟩ := h.progress
  · exact hfinished
  · exact absurd hk (Nat.not_lt_zero k)

namespace Stopped

theorem exists_wait (h : Stopped i a c' m talk c) :
    ∃ due, talk.waits = [.work due] ∧ Stopped i a c' m talk (c.workedUntil due) := by
  cases h with
  | @resting due next c hnext =>
    refine ⟨due, rfl, .resting ?_⟩
    rwa [workedUntil_workedUntil]
  | @asking due d next reply c c₂ hdeliver hnext =>
    refine ⟨due, rfl, .asking ?_ hnext⟩
    rwa [workedUntil_workedUntil]

/-- A conversation that may go on does so from where it stopped, and comes to its result or to a
stop that is nearer to it. -/
theorem progress (h : Stopped i a c' m talk c) (hpermits : talk.waits.any c.permits = true) :
    c.resume i talk = (.finished a, c') ∨
      ∃ k talk' c₁, k < m ∧ c.resume i talk = (talk', c₁) ∧ Stopped i a c' k talk' c₁ := by
  cases h with
  | @resting due next c hnext =>
    have hdue : c.permits (.work due) = true := by simpa [Talk.waits, Talk.wait?] using hpermits
    rw [workedUntil_of_permits hdue] at hnext
    rw [resume, if_pos hdue]
    exact hnext.progress
  | @asking due d next reply c c₂ hdeliver hnext =>
    have hdue : c.permits (.work due) = true := by simpa [Talk.waits, Talk.wait?] using hpermits
    rw [workedUntil_of_permits hdue] at hdeliver
    rw [resume, if_pos hdue, hdeliver]
    exact hnext.progress

end Stopped

end Cluster

end DeltaMesh
