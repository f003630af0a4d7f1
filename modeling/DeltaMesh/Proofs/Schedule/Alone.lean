import DeltaMesh.Proofs.Cluster.Alone
import DeltaMesh.Proofs.Schedule.Tick

/-!
# What a node is asked to do while nothing else goes on

A value is brought to a replica, or a location is handed over, as its conversation goes on its own.
So is a location reconciled that has a single replica, and a tick is over with the report about it
if the node is responsible for no other location.
-/

namespace DeltaMesh.Schedule

open Cluster (Alone Stopped)

variable {n : Nat} {α : Type} {s : Schedule n} {i : Fin n} {a : α} {c' : Cluster n} {m : Nat}

/-- A conversation that stops goes on by itself, and every turn of it brings it closer to its end.
-/
theorem ends_stopped : Ends (Talk.turn i) Talk.waits (Stopped i a c')
    (fun result c => result = a ∧ c = c') where
  turn m talk c hstopped hpermits := by
    obtain hfinished | ⟨k, talk', c₁, hk, hresume, hstopped'⟩ := hstopped.progress hpermits
    · rw [Talk.turn, hfinished]
      exact .finished ⟨rfl, rfl⟩
    · rw [Talk.turn, hresume]
      cases hstopped' with
      | resting hnext => exact .underWay hk (.resting hnext)
      | asking hdeliver hnext => exact .underWay hk (.asking hdeliver hnext)
  work m talk c hstopped _ := by
    obtain ⟨due, hwaits, hstopped'⟩ := hstopped.exists_wait
    rw [hwaits]
    refine ⟨due, rfl, hstopped', ?_⟩
    rw [List.any_cons, Cluster.permits_workedUntil, Bool.true_or]

/-- A conversation that seldom stops comes to its result. Eight stops are within the patience of any
schedule. -/
theorem await_alone {x : Exchange α} (hidle : s.Idle) (halone : Alone i a c' m x s.cluster)
    (hm : m ≤ 8) :
    ∃ s', s.await (Talk.turn i) Talk.waits (.ofExchange x) = (some a, s') ∧ s'.Idle ∧
      s'.cluster = c' := by
  have hfirst : After (Stopped i a c') (fun result c => result = a ∧ c = c') m
      (Talk.turn i (.ofExchange x) s.cluster) := by
    have hresume : s.cluster.resume i (.ofExchange x) = Cluster.converse i x s.cluster := rfl
    rw [Talk.turn, hresume]
    obtain hfinished | ⟨k, talk, c₁, hk, hconverse, hstopped⟩ := halone.progress
    · rw [hfinished]
      exact .finished ⟨rfl, rfl⟩
    · rw [hconverse]
      cases hstopped with
      | resting hnext => exact .underWay hk (.resting hnext)
      | asking hdeliver hnext => exact .underWay hk (.asking hdeliver hnext)
  obtain ⟨result, s', hawait, hidle', rfl, hcluster⟩ := await_ends ends_stopped hidle hfirst
    (Nat.le_trans (Nat.mul_le_mul_left 2 hm) s.le_patience)
  exact ⟨s', hawait, hidle', hcluster⟩

/-- A value is brought to a replica as its conversation goes. -/
theorem bring_alone {peer : Peer} {key : Key} {value : ByteArray} {result : ValueResult}
    (hidle : s.Idle)
    (halone : Alone i result c' m
      (reconcileValue ((s.cluster.reconciler i).terms s.cluster.now) peer key value).run s.cluster)
    (hm : m ≤ 8) :
    ∃ s', s.bring i peer key value = (some result, s') ∧ s'.Idle ∧ s'.cluster = c' :=
  await_alone hidle halone hm

/-- A location is handed over as its conversation goes, if that never stops. -/
theorem push_alone {location : Id} {owner : Peer} {result : Except ReplicationError Nat}
    (halone : Alone i result c' 0
      (handOver ((s.cluster.reconciler i).terms s.cluster.now) owner
        ((s.cluster.replica i).store.entries.under location)).run s.cluster) :
    s.push i location owner = (some result, { s with cluster := c' }) := by
  have hturn : HandOver.turn i (.planned location owner .free) s.cluster = (.over result, c') := by
    have hresume := halone.converse_eq
    rw [HandOver.turn]
    simp only [Cluster.resume, Talk.ofExchange, Cluster.permits, if_true, hresume, Talk.progress]
  rw [push, await, hturn]
  simp only [awaitWithin]

/-! ### A location with a single replica -/

/-- The conversation with the only replica of a location is all there is to its reconciliation, if
it never stops. -/
theorem turn_planned_alone {c : Cluster n} {q : Reconciler} {location : Id} {peer : Peer}
    {results : List ValueResult} (hclaim : (c.reconciler i).claim? location = some q)
    (hreplicas : (c.replica i).directory.replicas location q.factor = [peer])
    (hvalues : (c.replica i).store.entries.under location ≠ [])
    (halone : Alone i results c' 0 (reconcileReplica (q.terms c.now) peer
      ((c.replica i).store.entries.under location)) (c.setReconciler i q)) :
    ∃ c'', Reconciliation.turn i (.planned location) c =
        (.over (.ofResults location 1 results), c'') ∧
      c''.reconciler i = (c'.reconciler i).unclaim location := by
  have hresume : (c.setReconciler i q).resume i (.ofExchange (reconcileReplica (q.terms c.now) peer
      ((c.replica i).store.entries.under location))) = (.finished results, c') :=
    halone.converse_eq
  refine ⟨{ c'.setReconciler i ((c'.reconciler i).unclaim location) with
    meter := { c'.meter with reconciliations := c'.meter.reconciliations + 1 } }, ?_,
    c'.reconciler_set_self i _⟩
  rw [Reconciliation.turn, Reconciliation.begin, hclaim]
  simp only [hreplicas, List.isEmpty_cons, Bool.false_eq_true, List.isEmpty_iff, hvalues, or_false,
    if_false, List.map_singleton, Reconciliation.carryOn, Reconciliation.turnTalks, hresume,
    Reconciliation.results?, Option.map_eq_map, Option.map_some, List.append_nil]
  rfl

/-- A tick lets its only location in at once, and is over if that reports in its first turn. -/
theorem turn_of_single {t : Tick n} {c : Cluster n} {location : Id} {report : LocationReport}
    (hwindow : 0 < t.window) (hwaiting : t.waiting = [location]) (hready : t.ready = [])
    (hblocked : t.blocked = []) (hreports : t.reports = [])
    (hturn : Reconciliation.turn i (.planned location) c = (.over report, c')) :
    t.turn i c = (.over ⟨t.factor, [report]⟩, c') := by
  obtain ⟨factor, window, waiting, ready, blocked, reports⟩ := t
  obtain rfl : waiting = [location] := hwaiting
  obtain rfl : ready = [] := hready
  obtain rfl : blocked = [] := hblocked
  obtain rfl : reports = [] := hreports
  obtain ⟨room, rfl⟩ := Nat.exists_eq_succ_of_ne_zero (Nat.ne_of_gt hwindow)
  have hlet : (⟨factor, room + 1, [location], [], [], []⟩ : Tick n).letIn =
      ⟨factor, room + 1, [], [.planned location], [], []⟩ := by
    simp [Tick.letIn]
  have hready : (⟨factor, room + 1, [location], [], [], []⟩ : Tick n).letIn.ready =
      [.planned location] := by rw [hlet]
  have hlast : (⟨factor, room + 1, [], [], [], [report]⟩ : Tick n).letIn =
      ⟨factor, room + 1, [], [], [], [report]⟩ := by
    simp [Tick.letIn]
  have hrun : (⟨factor, room + 1, [location], [], [], []⟩ : Tick n).run i c =
      (⟨factor, room + 1, [], [], [], [report]⟩, c') := by
    rw [Tick.run_of_cons hready, hlet, hturn]
    exact (Tick.run_of_nil (congrArg Tick.ready hlast)).trans (congrArg (·, c') hlast)
  rw [Tick.turn]
  simp only [List.partition_eq_filter_filter, List.filter_nil, List.append_nil, hrun,
    List.isEmpty_nil, if_true, List.reverse_singleton]

/-- A tick about one location is over when the location has reported, if that is in its first
turn. -/
theorem tick_alone {location : Id} {report : LocationReport}
    (hfixed : (s.cluster.reconciler i).estimator.config.adaptive = false)
    (hresponsible : (s.cluster.replica i).tracker.responsible = [location])
    (hturn : Reconciliation.turn i (.planned location) (s.cluster.recomputed i) =
      (.over report, c')) :
    s.tick i = .ok (some ⟨((s.cluster.recomputed i).reconciler i).factor, [report]⟩,
      { s with cluster := c' }) := by
  have hturned := turn_of_single (t := Tick.fresh i (s.cluster.recomputed i))
    (Nat.lt_of_lt_of_le Nat.one_pos (Nat.le_max_right ..)) hresponsible rfl rfl rfl hturn
  rw [tick, Tick.begin_eq hfixed]
  simp only [bind, Except.bind, pure, Except.pure, await, hturned, awaitWithin]
  rfl

end DeltaMesh.Schedule
