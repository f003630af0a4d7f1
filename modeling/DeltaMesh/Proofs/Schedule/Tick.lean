import DeltaMesh.Proofs.Cluster.Brought
import DeltaMesh.Proofs.Schedule.Await
import DeltaMesh.Schedule.Await
import Mathlib.Algebra.Order.BigOperators.Group.List
import Mathlib.Algebra.Order.Group.Nat

/-!
# A tick in a steady cluster

A node that ticks puts its factor in force (`Tick.begin_eq`) and carries out its agenda. The
patience of the schedule is enough for all the stops on the way
(`Cluster.Steady.cost_agenda_le_patience`), so the tick comes to an end (`Schedule.tick_ends`).
-/

namespace DeltaMesh

variable {n : Nat}

/-! ### The beginning of a tick -/

/-- A cluster in which node `i` has put the factor in force that its settings and its directory
ask for. -/
def Cluster.recomputed (c : Cluster n) (i : Fin n) : Cluster n :=
  let q := c.reconciler i
  let current := min q.estimator.config.base ((c.replica i).directory.size - 1)
  { c.setReconciler i { q with estimator := { q.estimator with current } } with
    meter := { c.meter with replicationFactor := some current } }

/-- The tick of a node before its first turn. -/
def Tick.fresh (i : Fin n) (c : Cluster n) : Tick n :=
  ⟨(c.reconciler i).factor, max (c.reconciler i).config.maxConcurrentLocations 1,
    (c.replica i).tracker.responsible, [], [], []⟩

theorem Cluster.factor_recomputed (c : Cluster n) (i : Fin n) :
    ((c.recomputed i).reconciler i).factor =
      min (c.reconciler i).estimator.config.base ((c.replica i).directory.size - 1) :=
  congrArg Reconciler.factor (c.reconciler_set_self i _)

/-- At the beginning of a tick only the factor is another one, and only at the node that ticks. -/
theorem Cluster.reconciler_recomputed (c : Cluster n) (i j : Fin n) :
    ((c.recomputed i).reconciler j).config = (c.reconciler j).config ∧
      ((c.recomputed i).reconciler j).estimator.config = (c.reconciler j).estimator.config ∧
      ((c.recomputed i).reconciler j).inFlight = (c.reconciler j).inFlight := by
  by_cases hj : j = i
  · subst hj
    have hself : (c.recomputed j).reconciler j = _ := c.reconciler_set_self j _
    rw [hself]
    exact ⟨rfl, rfl, rfl⟩
  · have hother : (c.recomputed i).reconciler j = c.reconciler j := c.reconciler_set_of_ne _ hj
    rw [hother]
    exact ⟨rfl, rfl, rfl⟩

/-- With a fixed factor a tick always begins. -/
theorem Tick.begin_eq {c : Cluster n} {i : Fin n}
    (hfixed : (c.reconciler i).estimator.config.adaptive = false) :
    Tick.begin i c = .ok (Tick.fresh i (c.recomputed i), c.recomputed i) := by
  have hself : (c.recomputed i).reconciler i = _ := c.reconciler_set_self i _
  rw [Tick.begin, Tick.fresh, hself, Reconciler.recompute, Estimator.recompute,
    FactorConfig.wanted, hfixed]
  rfl

namespace Cluster.Steady

variable {c : Cluster n} {ids : Fin n → Id} {config : ReplicationConfig}

/-- The factor in force is what the settings ask for, if there are so many other nodes. -/
theorem recomputed (h : c.Steady ids config) (i : Fin n) :
    (c.recomputed i).Steady ids config ∧
      ((c.recomputed i).reconciler i).factor = config.copies n := by
  refine ⟨{ h with configs := fun j => ?_, factors := fun j => ?_, free := fun j => ?_ }, ?_⟩
  · exact (c.reconciler_recomputed i j).1.trans (h.configs j)
  · exact (c.reconciler_recomputed i j).2.1.trans (h.factors j)
  · exact (c.reconciler_recomputed i j).2.2.trans (h.free j)
  · rw [c.factor_recomputed, h.factors, (h.lists i).size h.injective]
    rfl

end Cluster.Steady

/-! ### Patience -/

/-- The sum of a figure over the nodes. -/
def Cluster.total (c : Cluster n) (figure : Replica → Nat) : Nat :=
  ((List.finRange n).map fun i => figure (c.replica i)).sum

theorem Cluster.foldl_replicas (c : Cluster n) (figure : Replica → Nat) :
    c.network.replicas.foldl (fun total r => total + figure r) 0 = c.total figure := by
  have hlist : c.network.replicas.toList = (List.finRange n).map c.replica := by
    refine List.ext_getElem (by simp) fun k hk _ => ?_
    rw [List.getElem_map, List.getElem_finRange, Vector.getElem_toList]
    rfl
  rw [← Vector.foldl_toList, hlist, List.foldl_map, Cluster.total, List.sum_eq_foldl,
    List.foldl_map]

theorem Cluster.le_total (c : Cluster n) (figure : Replica → Nat) (i : Fin n) :
    figure (c.replica i) ≤ c.total figure :=
  List.le_sum_of_mem (List.mem_map_of_mem (f := fun j => figure (c.replica j))
    (List.mem_finRange i))

namespace Schedule

theorem total_le_patience (s : Schedule n) :
    16 * (s.cluster.total (·.store.entries.size) + 1) * (s.cluster.total (·.directory.size) + 1) ≤
      s.patience := by
  simp only [patience, s.cluster.foldl_replicas]
  refine Nat.le_trans ?_ (Nat.le_mul_of_pos_right _ (Nat.succ_pos _))
  exact Nat.le_mul_of_pos_right _ (Nat.succ_pos _)

end Schedule

namespace Cluster.Steady

variable {c : Cluster n} {ids : Fin n → Id} {config : ReplicationConfig} {i : Fin n}

/-- A node is responsible for no more locations than there are values. -/
theorem length_responsible_le (h : c.Steady ids config) (i : Fin n) :
    (c.replica i).tracker.responsible.length ≤ c.total (·.store.entries.size) := by
  have hsubset : (c.replica i).tracker.responsible ⊆
      (List.finRange n).flatMap fun j => (c.replica j).store.entries.keys.map Key.location := by
    intro location hlocation
    obtain ⟨j, k, value, hheld, rfl⟩ :=
      h.stored i location (Std.ExtTreeSet.mem_toList.mp hlocation)
    refine List.mem_flatMap.mpr ⟨j, List.mem_finRange j, List.mem_map_of_mem ?_⟩
    rw [Std.ExtTreeMap.mem_keys, Std.ExtTreeMap.mem_iff_isSome_getElem?]
    exact Option.isSome_of_eq_some hheld
  refine Nat.le_trans ((Tracker.nodup_responsible _).subperm hsubset).length_le (Nat.le_of_eq ?_)
  simp only [List.length_flatMap, List.length_map, Std.ExtTreeMap.length_keys]
  rfl

theorem length_targets_le (h : c.Steady ids config)
    (hfactor : (c.reconciler i).factor = config.copies n) {location : Id}
    (howner : rank ids location i = 0) : (c.targets i location).length ≤ n := by
  have hnodup := (h.targets_spec hfactor howner).2.2.1
  have hle := (hnodup.subperm fun q _ => List.mem_finRange q).length_le
  rwa [List.length_map, List.length_finRange] at hle

/-- How many stops there are on the tours about some of the locations that a node owns. -/
theorem sum_cost_le (h : c.Steady ids config) (hfactor : (c.reconciler i).factor = config.copies n)
    {locations : List Id} (howner : ∀ location ∈ locations, rank ids location i = 0) :
    ((locations.map (c.tour i)).map Tour.cost).sum ≤
      4 * n * (locations.map fun location =>
        ((c.replica i).store.entries.under location).length).sum + locations.length := by
  induction locations with
  | nil => exact Nat.zero_le _
  | cons location rest ih =>
    have hrest := ih fun other hother => howner other (List.mem_cons_of_mem _ hother)
    have hfirst : (c.tour i location).cost ≤
        4 * n * ((c.replica i).store.entries.under location).length + 1 := by
      have hle := h.length_targets_le hfactor (howner location List.mem_cons_self)
      have hmul := Nat.mul_le_mul_right
        (4 * ((c.replica i).store.entries.under location).length) hle
      refine Nat.succ_le_succ (Nat.le_trans hmul (Nat.le_of_eq ?_))
      rw [← Nat.mul_assoc, Nat.mul_comm n 4]
    simp only [List.map_cons, List.sum_cons, List.length_cons, Nat.mul_add]
    omega

/-- How many stops there are on an agenda, in terms of what is stored in the whole cluster. The
bound is rough; it is only there to be compared with the patience of a schedule. -/
theorem cost_agenda_le (h : c.Steady ids config)
    (hfactor : (c.reconciler i).factor = config.copies n) :
    ((c.agenda i).tours.map Tour.cost).sum ≤
      4 * n * c.total (·.store.entries.size) + c.total (·.store.entries.size) := by
  have hunder := Entries.sum_length_under_le (c.replica i).store.entries
    (Tracker.nodup_responsible (c.replica i).tracker)
  have hstored := c.le_total (·.store.entries.size) i
  refine Nat.le_trans (h.sum_cost_le hfactor fun location hlocation =>
    h.owns i location (Std.ExtTreeSet.mem_toList.mp hlocation)) ?_
  exact Nat.add_le_add (Nat.mul_le_mul_left _ (Nat.le_trans hunder hstored))
    (h.length_responsible_le i)

/-- A schedule has patience for all the stops on an agenda: there are no more than four for each
value at each replica, and one for each location. -/
theorem cost_agenda_le_patience {s : Schedule n} (h : s.cluster.Steady ids config)
    (hfactor : (s.cluster.reconciler i).factor = config.copies n) :
    2 * (((s.cluster.agenda i).tours.map Tour.cost).sum + 1) ≤ s.patience := by
  refine Nat.le_trans ?_ s.total_le_patience
  have hcost := h.cost_agenda_le hfactor
  have hpeers : n ≤ s.cluster.total (·.directory.size) := by
    have hle := s.cluster.le_total (·.directory.size) i
    rwa [(h.lists i).size h.injective] at hle
  have hstops := Nat.mul_le_mul_right (s.cluster.total (·.store.entries.size)) hpeers
  generalize s.cluster.total (·.store.entries.size) = values at hcost hstops ⊢
  generalize s.cluster.total (·.directory.size) = peers at hstops ⊢
  have hroom : (values + 1) * (peers + 1) = peers * values + values + peers + 1 := by
    rw [Nat.mul_comm, Nat.mul_add, Nat.add_mul, Nat.one_mul, Nat.mul_one, Nat.add_assoc _ peers]
  rw [Nat.mul_assoc] at hcost ⊢
  omega

/-! ### The end of a tick -/

/-- Where a node stands with its agenda when its tick begins: all tours wait, none has been let in.
-/
theorem stands_fresh (h : c.Steady ids config) (i : Fin n) :
    (c.agenda i).Stands c ⟨(c.agenda i).tours, [], [], []⟩ 0 0 (Tick.fresh i c) c where
  all := by
    rw [Places.all]
    simp only [List.append_nil]
    exact .refl _
  waiting := by
    rw [agenda, List.map_map]
    exact (List.map_id _).symm
  ready := .nil
  blocked := .nil
  reports := rfl
  waits := h.waits_agenda
  ended _ hx := nomatch hx
  changes := .refl _ _ c
  own location hmem := by
    rw [h.free] at hmem
    exact absurd hmem Std.ExtTreeSet.not_mem_empty
  others _ _ := rfl
  window := Nat.lt_of_lt_of_le Nat.one_pos (Nat.le_max_right _ 1)
  factor := rfl

end Cluster.Steady

/-- What a tick achieves does not depend on the factor that was in force before. -/
theorem Cluster.Ticked.of_recomputed {c c' : Cluster n} {ids : Fin n → Id} {copies : Nat}
    {i : Fin n} {report : TickReport} (h : Ticked ids copies i (c.recomputed i) report c') :
    Ticked ids copies i c report c' := by
  have hserved : c.Served ids copies i → (c.recomputed i).Served ids copies i :=
    fun hserved q k value hbrings => hserved q k value { hbrings with }
  obtain ⟨new, hsent, hnew⟩ := h.sent
  exact {
    brought := fun q k value hbrings => h.brought q k value { hbrings with }
    kept := fun q k hnone => h.kept q k fun value hbrings => hnone value { hbrings with }
    clean := h.clean
    onlyUpToDate := fun hall => h.onlyUpToDate (hserved hall)
    sent := ⟨new, hsent, fun hall => hnew (hserved hall)⟩ }

/-- In a steady cluster a tick comes to an end, and achieves what it should; and the cluster is
steady afterwards, so that the next tick can begin. -/
theorem Schedule.tick_ends {s : Schedule n} (hidle : s.Idle) {ids : Fin n → Id}
    {config : ReplicationConfig} (h : s.cluster.Steady ids config) (i : Fin n) :
    ∃ report s', s.tick i = .ok (some report, s') ∧ s'.Idle ∧
      Cluster.Ticked ids (config.copies n) i s.cluster report s'.cluster ∧
      s'.cluster.Steady ids config := by
  have hfixed : (s.cluster.reconciler i).estimator.config.adaptive = false := by
    rw [h.factors]
    exact h.fixed
  obtain ⟨hsteady, hfactor⟩ := h.recomputed i
  generalize hc : s.cluster.recomputed i = c at hsteady hfactor
  have hfeasible := hsteady.feasible_agenda hfactor
  have hsuits := hsteady.suits_agenda hfactor
  -- the first turn takes up all tours, and may leave as many stops as the agenda has
  have hfirst := (hsteady.stands_fresh i).after_turn hfeasible hsuits
    (m := ((c.agenda i).tours.map Tour.cost).sum + 1) (Nat.le_succ _) (.inl (Nat.lt_succ_self _))
  have hpatience := Cluster.Steady.cost_agenda_le_patience (s := { s with cluster := c }) hsteady
    hfactor
  obtain ⟨report, s', hawait, hidle', hfinished⟩ :=
    Schedule.await_ends (s := { s with cluster := c }) (Agenda.ends hfeasible hsuits)
      ⟨hidle.ready, hidle.blocked⟩ hfirst hpatience
  refine ⟨report, s', ?_, hidle', ?_, hsteady.after hfactor hfinished⟩
  · rw [Schedule.tick, Tick.begin_eq hfixed, hc]
    exact congrArg Except.ok hawait
  · subst hc
    exact (hsteady.ticked hfactor hfinished).of_recomputed

end DeltaMesh
