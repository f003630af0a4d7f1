import DeltaMesh.Proofs.Cluster.Moves
import DeltaMesh.Schedule.Await

/-!
# Waiting while nothing else goes on

What a node is asked to do on a schedule without activities comes to an end if every turn that it
is given brings it closer to its end, and whenever it cannot go on a computation is under way whose
end lets it go on (`Schedule.awaitWithin_ends`).
-/

namespace DeltaMesh

variable {n : Nat}

namespace Schedule

/-- Nothing goes on. -/
structure Idle (s : Schedule n) : Prop where
  ready : s.ready = []
  blocked : s.blocked = []

theorem idle_ofCluster (c : Cluster n) : (ofCluster c).Idle := ⟨rfl, rfl⟩

theorem Idle.step? {s : Schedule n} (h : s.Idle) : s.step? = none := by
  obtain ⟨cluster, ready, blocked, next⟩ := s
  obtain ⟨rfl, rfl⟩ := h
  rfl

theorem Idle.waits {s : Schedule n} (h : s.Idle) : s.waits = [] := by
  rw [Schedule.waits, h.blocked]
  rfl

theorem le_patience (s : Schedule n) : 16 ≤ s.patience := by
  rw [patience]
  refine Nat.le_trans ?_ (Nat.le_mul_of_pos_right _ (Nat.succ_pos _))
  refine Nat.le_trans ?_ (Nat.le_mul_of_pos_right _ (Nat.succ_pos _))
  refine Nat.le_trans ?_ (Nat.le_mul_of_pos_right _ (Nat.succ_pos _))
  exact Nat.le_mul_of_pos_right 16 (Nat.succ_pos _)

theorem Idle.settle {s : Schedule n} (h : s.Idle) : s.settle = s := by
  obtain ⟨turns, hturns⟩ :=
    Nat.exists_eq_add_of_le' (Nat.le_trans (by decide : 1 ≤ 16) s.le_patience)
  rw [Schedule.settle, hturns, settleWithin, h.step?, h.waits]
  rfl

/-- A wait only lets time pass if no deed is under way. -/
theorem Idle.wait {s : Schedule n} (h : s.Idle) (milliseconds : Nat) :
    s.wait milliseconds = s.setTime (s.cluster.now + milliseconds) := by
  rw [Schedule.wait]
  split
  case isTrue hzero => rw [hzero]; rfl
  case isFalse =>
    rw [waitUntil, h.settle, h.waits]
    rfl

theorem Idle.wait_if {s : Schedule n} (h : s.Idle) (delayed : Bool) (milliseconds : Nat) :
    ∃ now, (if delayed = true then s.wait milliseconds else s) = s.setTime now := by
  split
  case isTrue => exact ⟨_, h.wait milliseconds⟩
  case isFalse => exact ⟨s.cluster.now, rfl⟩

/-- What a turn leaves: `Over` holds of what has come to its end, `Under m` of what is under way and
needs at most `m` more turns after the next one, fewer than `before`. -/
inductive After (Under : Nat → σ → Cluster n → Prop) (Over : ρ → Cluster n → Prop) (before : Nat) :
    Progress σ ρ × Cluster n → Prop
  | finished {result : ρ} {c : Cluster n} (h : Over result c) :
    After Under Over before (.over result, c)
  | underWay {m : Nat} {state : σ} {c : Cluster n} (hlt : m < before) (h : Under m state c) :
    After Under Over before (.underWay state, c)

/-- Every turn brings it closer to its end, and when it has none a computation ends that lets it
go on. -/
structure Ends (turn : σ → Cluster n → Progress σ ρ × Cluster n) (waits : σ → List (Wait n))
    (Under : Nat → σ → Cluster n → Prop) (Over : ρ → Cluster n → Prop) : Prop where
  turn : ∀ m state c, Under m state c → (waits state).any c.permits = true →
    After Under Over m (turn state c)
  work : ∀ m state c, Under m state c → (waits state).any c.permits = false →
    ∃ due, firstWork? (waits state) = some due ∧ Under m state (c.workedUntil due) ∧
      (waits state).any (c.workedUntil due).permits = true

variable {turn : σ → Cluster n → Progress σ ρ × Cluster n} {waits : σ → List (Wait n)}
  {Under : Nat → σ → Cluster n → Prop} {Over : ρ → Cluster n → Prop}

theorem awaitWithin_ends (h : Ends turn waits Under Over) (m : Nat) :
    ∀ (turns : Nat) (state : σ) (s : Schedule n), 2 * (m + 1) ≤ turns → s.Idle →
      Under m state s.cluster → ∃ result s',
        awaitWithin turn waits turns (.underWay state) s = (some result, s') ∧ s'.Idle ∧
          Over result s'.cluster := by
  induction m using Nat.strongRecOn with
  | ind m ih =>
    -- a turn that can be taken
    have hgo : ∀ (turns : Nat) (state : σ) (s : Schedule n), 2 * m + 1 ≤ turns → s.Idle →
        Under m state s.cluster → (waits state).any s.cluster.permits = true → ∃ result s',
          awaitWithin turn waits turns (.underWay state) s = (some result, s') ∧ s'.Idle ∧
            Over result s'.cluster := by
      intro turns state s hturns hidle hunder hpermits
      obtain ⟨turns, rfl⟩ := Nat.exists_eq_add_of_le' (Nat.le_trans (Nat.le_add_left 1 _) hturns)
      rw [awaitWithin, hidle.step?]
      simp only [hpermits, if_true]
      have hended := h.turn m state s.cluster hunder hpermits
      generalize turn state s.cluster = ended at hended
      cases hended with
      | @finished result c' hover =>
        refine ⟨result, { s with cluster := c' }, ?_, ⟨hidle.ready, hidle.blocked⟩, hover⟩
        simp only [awaitWithin]
      | @underWay m' state' c' hlt hunder' =>
        exact ih m' hlt turns state' { s with cluster := c' } (by omega)
          ⟨hidle.ready, hidle.blocked⟩ hunder'
    intro turns state s hturns hidle hunder
    cases hpermits : (waits state).any s.cluster.permits with
    | true => exact hgo turns state s (by omega) hidle hunder hpermits
    | false =>
      obtain ⟨turns, rfl⟩ := Nat.exists_eq_add_of_le' (Nat.le_trans (by omega : 1 ≤ _) hturns)
      obtain ⟨due, hdue, hunder', hpermits'⟩ := h.work m state s.cluster hunder hpermits
      rw [awaitWithin, hidle.step?]
      simp only [hpermits, Bool.false_eq_true, if_false, hidle.waits, List.append_nil, hdue]
      exact hgo turns state (s.workUntil due) (by omega) ⟨hidle.ready, hidle.blocked⟩ hunder'
        hpermits'

/-- What is awaited and begins with a turn of its own comes to its end if each turn brings it
nearer. -/
theorem await_ends (h : Ends turn waits Under Over) {s : Schedule n} (hidle : s.Idle) {m : Nat}
    {state : σ} (hfirst : After Under Over m (turn state s.cluster)) (hm : 2 * m ≤ s.patience) :
    ∃ result s', s.await turn waits state = (some result, s') ∧ s'.Idle ∧
      Over result s'.cluster := by
  rw [await]
  generalize turn state s.cluster = ended at hfirst
  cases hfirst with
  | @finished result c hover =>
    refine ⟨result, { s with cluster := c }, ?_, ⟨hidle.ready, hidle.blocked⟩, hover⟩
    simp only [awaitWithin]
  | @underWay m' state' c hlt hunder =>
    exact awaitWithin_ends h m' s.patience state' { s with cluster := c } (by omega)
      ⟨hidle.ready, hidle.blocked⟩ hunder

end Schedule

end DeltaMesh
