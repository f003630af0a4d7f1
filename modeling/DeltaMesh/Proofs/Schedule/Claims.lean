import DeltaMesh.Proofs.Cluster.Deeds
import DeltaMesh.Schedule.Await

/-!
# What is claimed while a schedule goes on

Whatever happens on a schedule, its deeds are the calls of its nodes, so a schedule is one of the
ways in which calls can overlap (`Schedule.Run.comes`).

Main statement: at any time a node has claimed just the locations whose conversations go on, and
there is one reconciliation for each of them (`Schedule.claims_exact`).
-/

namespace DeltaMesh

variable {n : Nat}

namespace Schedule

/-- The reconciliations that node `i` leads. -/
def underWay (i : Fin n) (s : Schedule n) : List (Reconciliation n) :=
  (s.ready ++ s.blocked).flatMap fun a => a.deed.underWay i

/-- The locations whose conversations go on. -/
def claimed (i : Fin n) (s : Schedule n) : List Id :=
  (s.underWay i).filterMap Reconciliation.claimed?

variable {i : Fin n} {s s' : Schedule n} {o : Overlap n}

theorem underWay_lineUp (parent : Option Nat) (deeds : List (Deed n)) :
    ((s.lineUp parent deeds).underWay i).Perm
      (deeds.flatMap (Deed.underWay i) ++ s.underWay i) := by
  have hdeeds : (deeds.mapIdx fun k deed => (⟨s.next + k, parent, deed⟩ : Activity n)).flatMap
      (fun a => a.deed.underWay i) = deeds.flatMap (Deed.underWay i) := by
    rw [List.mapIdx_eq_zipIdx_map, List.flatMap_map]
    refine Eq.trans ?_ (congrArg (List.flatMap (Deed.underWay i)) (List.zipIdx_map_fst 0 deeds))
    rw [List.flatMap_map]
  rw [underWay, lineUp, underWay]
  simp only [List.flatMap_append, hdeeds]
  rw [List.append_assoc, ← List.append_assoc, ← List.append_assoc]
  exact List.perm_append_comm.append_right _

theorem underWay_wake (s : Schedule n) : (s.wake.underWay i).Perm (s.underWay i) := by
  rw [underWay, wake, List.partition_eq_filter_filter, underWay]
  refine List.Perm.flatMap_right _ ?_
  rw [List.append_assoc]
  exact (List.filter_append_perm _ s.blocked).append_left s.ready

theorem underWay_turn (s : Schedule n) (a : Activity n) : ((s.turn a).underWay i).Perm
    ((a.deed.turn s.cluster).1.underWay i ++ s.underWay i) := by
  rw [turn]
  generalize a.deed.turn s.cluster = turned
  obtain ⟨⟨rest, begun⟩, c⟩ := turned
  refine (underWay_lineUp _ _).trans ?_
  simp only [underWay, Aftermath.underWay, List.flatMap_append, List.flatMap_map]
  rw [← List.append_assoc, ← List.append_assoc, List.append_assoc (rest.toList.flatMap _)]
  exact List.perm_append_comm.trans (.of_eq (congrArg _ (List.append_assoc ..)))

/-- The first activity in the line gets its turn. What is waited for elsewhere stays as it is. -/
theorem comes_step (extra : List (Reconciliation n))
    (h : o.Shows (extra ++ s.underWay i) s.cluster) (hstep : s.step? = some s') :
    o.Comes i (extra ++ s'.underWay i) s'.cluster := by
  have hwake := underWay_wake (i := i) s
  rw [step?] at hstep
  replace h : o.Shows (extra ++ s.wake.underWay i) s.wake.cluster :=
    h.perm (hwake.symm.append_left extra)
  generalize s.wake = w at h hstep
  cases hready : w.ready with
  | nil =>
    simp only [hready] at hstep
    cases hstep
  | cons a line =>
    simp only [hready] at hstep
    obtain rfl := Option.some.inj hstep
    let w' : Schedule n := { w with ready := line }
    have hunder : w.underWay i = a.deed.underWay i ++ w'.underWay i := by
      rw [underWay, hready]
      rfl
    rw [hunder] at h
    have hcomes : o.Comes i ((a.deed.turn w.cluster).1.underWay i ++ (extra ++ w'.underWay i))
        (a.deed.turn w.cluster).2 := (h.perm (List.perm_append_comm_assoc ..)).turn a.deed
    refine hcomes.perm ((List.perm_append_comm_assoc ..).trans ?_)
    exact (underWay_turn w' a).symm.append_left extra

theorem comes_foldl_breakOff (belongs : Activity n → Bool) (activities : List (Activity n))
    {others : List (Reconciliation n)} {c : Cluster n}
    (h : o.Shows (activities.flatMap (fun a => a.deed.underWay i) ++ others) c) :
    o.Comes i
      ((activities.filter fun a => !belongs a).flatMap (fun a => a.deed.underWay i) ++ others)
      (activities.foldl (fun c a => if belongs a then a.deed.breakOff c else c) c) := by
  induction activities generalizing o others c with
  | nil => exact h.comes
  | cons a activities ih =>
    rw [List.flatMap_cons, List.append_assoc] at h
    rw [List.foldl_cons]
    cases hbelongs : belongs a with
    | true =>
      rw [List.filter_cons_of_neg (by rw [hbelongs]; decide), if_pos rfl]
      exact (h.breakOff a.deed).trans fun o' ho' => ih ho'
    | false =>
      rw [List.filter_cons_of_pos (by rw [hbelongs]; rfl), if_neg Bool.false_ne_true,
        List.flatMap_cons, List.append_assoc]
      exact (ih (h.perm (List.perm_append_comm_assoc ..))).perm (List.perm_append_comm_assoc ..)

/-- An activity is broken off, and those that it has begun. -/
theorem comes_breakOff (number : Nat) (h : o.Shows (s.underWay i) s.cluster) :
    o.Comes i ((s.breakOff number).underWay i) (s.breakOff number).cluster := by
  have hcomes := comes_foldl_breakOff (fun a => a.number = number ∨ a.parent = some number)
    (s.ready ++ s.blocked) (h.perm (.of_eq (List.append_nil _).symm))
  rw [List.append_nil, List.filter_append] at hcomes
  exact hcomes

/-! ### Waiting for a result -/

section

variable {σ ρ : Type} {waits : σ → List (Wait n)} (build : σ → Deed n)
  {turn : σ → Cluster n → Progress σ ρ × Cluster n} {result : ρ}

/-- What is waited for takes its turns like a deed, beside those of the schedule. -/
theorem comes_awaitWithin
    (hbuild : ∀ state c, (build state).turn c = ((turn state c).1.rest build, (turn state c).2))
    (turns : Nat) {progress : Progress σ ρ}
    (h : o.Comes i ((progress.rest build).underWay i ++ s.underWay i) s.cluster)
    (hawait : awaitWithin turn waits turns progress s = (some result, s')) :
    o.Comes i (s'.underWay i) s'.cluster := by
  induction turns generalizing progress s with
  | zero =>
    rcases progress with state | result'
    · cases hawait
    · obtain ⟨-, rfl⟩ := Prod.mk.inj hawait
      exact h
  | succ turns ih =>
    rcases progress with state | result'
    · rw [awaitWithin] at hawait
      split at hawait
      case h_1 s₁ hstep => exact ih (h.trans fun o' ho' => comes_step _ ho' hstep) hawait
      case h_2 =>
        split at hawait
        case isTrue =>
          refine ih (s := { s with cluster := (turn state s.cluster).2 }) ?_ hawait
          refine h.trans fun o' ho' => ?_
          have hunder : o'.Shows ((build state).underWay i ++ s.underWay i) s.cluster :=
            ho'.perm (.append_right _ (.of_eq (Progress.underWay_rest build _)))
          have hturned := hunder.turn (build state)
          rwa [hbuild] at hturned
        case isFalse =>
          split at hawait
          case h_1 due hdue =>
            exact ih (s := s.workUntil due) (h.trans fun o' ho' => ho'.elsewhere rfl) hawait
          case h_2 => cases hawait
    · obtain ⟨-, rfl⟩ := Prod.mk.inj hawait
      exact h

theorem comes_await
    (hbuild : ∀ state c, (build state).turn c = ((turn state c).1.rest build, (turn state c).2))
    {state : σ} (h : o.Shows ((build state).underWay i ++ s.underWay i) s.cluster)
    (hawait : s.await turn waits state = (some result, s')) :
    o.Comes i (s'.underWay i) s'.cluster := by
  have hturned := h.turn (build state)
  rw [hbuild] at hturned
  exact comes_awaitWithin build (s := { s with cluster := (turn state s.cluster).2 }) hbuild _
    hturned hawait

end

/-! ### Everything that happens -/

/-- What may happen next on a schedule: something begins, an activity gets a turn or is broken off,
computations go on, time passes, something is done to its end, or something happens that has nothing
to do with claimed locations. -/
inductive Step : Schedule n → Schedule n → Prop
  | begin (s : Schedule n) {d : Deed n} (hnew : d.Unclaimed) : Step s (s.begin d).2
  | turn {s s' : Schedule n} (h : s.step? = some s') : Step s s'
  | breakOff (s : Schedule n) (number : Nat) : Step s (s.breakOff number)
  | work (s : Schedule n) (due : Nat) : Step s (s.workUntil due)
  | pass (s : Schedule n) (now : Nat) : Step s (s.setTime now)
  | reconcile {s s' : Schedule n} {j : Fin n} {location : Id} {report : LocationReport}
    (h : s.reconcile j location = (some report, s')) : Step s s'
  | tick {s s' : Schedule n} {j : Fin n} {report : TickReport}
    (h : s.tick j = .ok (some report, s')) : Step s s'
  | push {s s' : Schedule n} {j : Fin n} {location : Id} {peer : Peer}
    {result : Except ReplicationError Nat} (h : s.push j location peer = (some result, s')) :
    Step s s'
  | elsewhere (s : Schedule n) {c : Cluster n}
    (h : ∀ i, (c.reconciler i).inFlight = (s.cluster.reconciler i).inFlight) :
    Step s { s with cluster := c }

/-- Any number of steps. -/
abbrev Run : Schedule n → Schedule n → Prop := Relation.ReflTransGen Step

theorem comes_of_step (h : o.Shows (s.underWay i) s.cluster) (hstep : Step s s') :
    o.Comes i (s'.underWay i) s'.cluster := by
  cases hstep with
  | @begin d hnew =>
    have hbegun : ((s.begin d).2.underWay i).Perm (d.underWay i ++ s.underWay i) := by
      refine (underWay_lineUp none [d]).trans ?_
      rw [List.flatMap_singleton]
      exact (underWay_wake s).append_left _
    exact (h.arrive (hnew i)).perm hbegun.symm
  | turn hstep => exact comes_step [] h hstep
  | breakOff number => exact comes_breakOff number h
  | work due => exact h.elsewhere rfl
  | pass now => exact h.elsewhere rfl
  | @reconcile _ j location report hreconcile =>
    have hplanned : o.Comes i ((Deed.reconcile j (.planned location)).underWay i ++ s.underWay i)
        s.cluster := h.arrive (Deed.unclaimed_planned j location i)
    exact hplanned.trans fun o' ho' => comes_await (.reconcile j) (fun _ _ => rfl) ho' hreconcile
  | @tick _ j report htick =>
    rw [Schedule.tick] at htick
    cases hbegin : Tick.begin j s.cluster with
    | error why =>
      rw [hbegin] at htick
      cases htick
    | ok begun =>
      obtain ⟨t, c⟩ := begun
      rw [hbegin] at htick
      obtain ⟨estimator, rfl, -⟩ := Tick.begin_eq_ok hbegin
      refine (h.elsewhere (Cluster.inFlight_begin hbegin i)).trans fun o' ho' => ?_
      refine comes_await (.tick j) (s := { s with cluster := c }) (fun _ _ => rfl) ?_
        (Except.ok.inj htick)
      exact ho'.perm (.append_right _ (.of_eq (ite_self []).symm))
  | @push _ j location peer result hpush =>
    exact comes_await (.handOver j) (fun _ _ => rfl) h hpush
  | elsewhere hsame => exact h.elsewhere (hsame i)

theorem Run.comes {c₀ : Cluster n} (hrun : Run (.ofCluster c₀) s) (i : Fin n) :
    (⟨[], c₀⟩ : Overlap n).Comes i (s.underWay i) s.cluster := by
  induction hrun with
  | refl => exact Overlap.Shows.comes ⟨.refl _, List.forall_mem_nil _, rfl⟩
  | tail _ hstep ih => exact ih.trans fun o' ho' => comes_of_step ho' hstep

theorem run_settleWithin (turns : Nat) (s : Schedule n) : Run s (s.settleWithin turns) := by
  induction turns generalizing s with
  | zero => exact .refl
  | succ turns ih =>
    rw [settleWithin]
    split
    case h_1 s' hstep => exact .head (.turn hstep) (ih s')
    case h_2 =>
      split
      case h_1 due hdue => exact .head (.work s due) (ih _)
      case h_2 => exact .refl

theorem run_waitUntil (stop now : Nat) (s : Schedule n) : Run s (waitUntil stop now s) := by
  induction now, s using waitUntil.induct stop with
  | case1 now s settled hnone =>
    simp only [settled] at hnone
    rw [waitUntil]
    simp only [hnone]
    exact (run_settleWithin _ s).tail (.pass _ stop)
  | case2 now s settled due hdue hlt ih =>
    simp only [settled] at hdue
    rw [waitUntil]
    simp only [hdue, hlt]
    exact ((run_settleWithin _ s).tail (.pass _ due)).trans ih
  | case3 now s settled due hdue hlt =>
    simp only [settled] at hdue
    rw [waitUntil]
    simp only [hdue, hlt]
    exact (run_settleWithin _ s).tail (.pass _ stop)

/-- Waiting is a run: deeds take turns and computations end as long as they can, and then time
passes. -/
theorem run_wait (s : Schedule n) (milliseconds : Nat) : Run s (s.wait milliseconds) := by
  rw [wait]
  split
  case isTrue => exact .refl
  case isFalse => exact run_waitUntil _ _ s

/-- Between turns the open calls are those whose conversations go on; one that has claimed its
location without having begun is only met within a turn. -/
theorem claimed_eq {calls : List (Call n)} (hpaused : ∀ call ∈ calls, call.stage ≠ .claimed) :
    Overlap.claimed calls =
      (calls.filterMap Call.reconciliation?).filterMap Reconciliation.claimed? := by
  induction calls with
  | nil => rfl
  | cons call calls ih =>
    obtain ⟨hcall, hpaused⟩ := List.forall_mem_cons.mp hpaused
    have hsplit : Overlap.claimed (call :: calls) =
        Overlap.claimed [call] ++ Overlap.claimed calls := Overlap.claimed_append [call] calls
    rw [hsplit, ih hpaused]
    cases hstage : call.stage with
    | claimed => exact absurd hstage hcall
    | planned | talking | reported | brokenOff =>
      simp [Overlap.claimed, Call.isOpen, Call.reconciliation?, List.filterMap_cons,
        Reconciliation.claimed?, hstage]

/-- Whatever happens on a schedule, the claimed locations of a node are those whose conversations go
on, and there is one reconciliation for each of them. -/
theorem claims_exact {c₀ : Cluster n} (hfree : (c₀.reconciler i).inFlight = ∅)
    (hrun : Run (.ofCluster c₀) s) : (s.claimed i).Nodup ∧
      ∀ location, location ∈ (s.cluster.reconciler i).inFlight ↔ location ∈ s.claimed i := by
  obtain ⟨o, hoverlap, hunder, hpaused, hcluster⟩ := hrun.comes i
  have hsound := (Overlap.sound_nil hfree).run hoverlap
  have hperm : (Overlap.claimed o.calls).Perm (s.claimed i) :=
    (claimed_eq hpaused).symm ▸ hunder.filterMap _
  refine ⟨hperm.nodup_iff.mp hsound.nodup, fun location => ?_⟩
  rw [← hcluster, hsound.mem, hperm.mem_iff]

end Schedule

end DeltaMesh
