import DeltaMesh.Cluster.Tick
import DeltaMesh.Proofs.Cluster.Sweep
import DeltaMesh.Proofs.Cluster.Tick

/-!
# The turns of a tick

In a turn of a tick every location that can goes on, and in it every conversation that can, as far
as it can. A turn is a sequence of steps, so a tick as it is carried out is one of the orders in
which its steps may follow one another (`Tick.Follows.turn`).
-/

namespace DeltaMesh

variable {n : Nat} {α : Type}

/-! ### Conversations -/

namespace Cluster

variable {i : Fin n}

/-- A conversation that goes on as far as it can takes steps, as many as it has requests and notes
before it has to wait. -/
theorem advances_converse (wait : Wait n) (x : Exchange α) (c : Cluster n) :
    Advances i (.resting wait x, c) (converse i x c) := by
  induction x generalizing wait c with
  | done result => exact .single rfl
  | note what next ih => exact .head rfl (ih .free (c.jot i what))
  | compute effort next => exact .single rfl
  | ask peer q next ih =>
    rw [converse]
    have hfirst : c.advance i (.resting wait (.ask peer q next)) = passed next (c.send peer q) :=
      rfl
    refine .head rfl ?_
    rw [hfirst]
    obtain ⟨_ | _ | _, c'⟩ := c.send peer q
    case back reply => exact ih reply .free c'
    case underWay => exact .refl
    case lost => exact .refl

theorem advances_resume (c : Cluster n) (talk : Talk n α) :
    Advances i (talk, c) (c.resume i talk) := by
  cases talk with
  | resting wait next =>
    rw [resume]
    split
    case isTrue => exact advances_converse wait next c
    case isFalse => exact .refl
  | asking d wait next =>
    rw [resume]
    split
    case isTrue =>
      have hfirst : c.advance i (.asking d wait next) = passed next (c.deliver d) := rfl
      refine .head rfl ?_
      rw [hfirst]
      obtain ⟨_ | _ | _, c'⟩ := c.deliver d
      case back reply => exact advances_converse .free (next reply) c'
      case underWay => exact .refl
      case lost => exact .refl
    case isFalse => exact .refl
  | silent => exact .refl
  | finished result => exact .refl

end Cluster

/-! ### Locations -/

namespace Reconciliation

/-- There are results only if all conversations are over, and they are put together in the order of
the replicas. -/
theorem eq_finished_of_results? {talks : List (Talk n (List ValueResult))}
    {results : List ValueResult} (h : results? talks = some results) :
    ∃ rows : List (List ValueResult), talks = rows.map .finished ∧ results = rows.flatten := by
  induction talks generalizing results with
  | nil => exact ⟨[], rfl, (Option.some.inj h).symm⟩
  | cons talk talks ih =>
    cases talk with
    | finished row =>
      obtain ⟨rest, hrest, rfl⟩ := Option.map_eq_some_iff.mp h
      obtain ⟨rows, rfl, rfl⟩ := ih hrest
      exact ⟨row :: rows, rfl, rfl⟩
    | resting | asking | silent => cases h

end Reconciliation

namespace Sweep

variable {i : Fin n} {w : Nat} {waiting : List Id} {front back : List (Reconciliation n)}
  {ended : List Closing} {location : Id}

/-- What the turn of a location leads to in a tick whose locations go on in any order. -/
inductive Turned (i : Fin n) (w : Nat) (waiting : List Id) (front back : List (Reconciliation n))
    (ended : List Closing) (r : Reconciliation n) (c : Cluster n) :
    Progress (Reconciliation n) LocationReport × Cluster n → Prop
  | underWay {r' : Reconciliation n} {c' : Cluster n}
    (h : Run i ⟨w, False⟩ ⟨waiting, front ++ r :: back, ended, c⟩
      ⟨waiting, front ++ r' :: back, ended, c'⟩) :
    Turned i w waiting front back ended r c (.underWay r', c')
  | reported {x : Closing} {c' : Cluster n}
    (h : Run i ⟨w, False⟩ ⟨waiting, front ++ r :: back, ended, c⟩
      ⟨waiting, front ++ back, x :: ended, c'⟩) :
    Turned i w waiting front back ended r c (.over x.report, c')

theorem Turned.head {r r' : Reconciliation n} {c c' : Cluster n}
    {ended' : Progress (Reconciliation n) LocationReport × Cluster n}
    (hstep : r.Step i False c (.underWay r') c')
    (h : Turned i w waiting front back ended r' c' ended') :
    Turned i w waiting front back ended r c ended' := by
  cases h with
  | underWay h => exact .underWay (.head (.turn front back hstep) h)
  | reported h => exact .reported (.head (.turn front back hstep) h)

theorem run_turnTalks (done talks : List (Talk n (List ValueResult))) (c : Cluster n) :
    Run i ⟨w, False⟩ ⟨waiting, front ++ .talking location (done ++ talks) :: back, ended, c⟩
      ⟨waiting, front ++
        .talking location (done ++ (Reconciliation.turnTalks i talks c).1) :: back, ended,
        (Reconciliation.turnTalks i talks c).2⟩ := by
  induction talks generalizing done c with
  | nil => exact .refl
  | cons talk talks ih =>
    have hfirst : Run i ⟨w, False⟩
        ⟨waiting, front ++ .talking location (done ++ talk :: talks) :: back, ended, c⟩
        ⟨waiting, front ++ .talking location (done ++ (c.resume i talk).1 :: talks) :: back, ended,
          (c.resume i talk).2⟩ :=
      run_advances front back done talks False.elim (c.advances_resume talk)
    have hrest := ih (done ++ [(c.resume i talk).1]) (c.resume i talk).2
    rw [List.append_assoc, List.append_assoc] at hrest
    exact hfirst.trans hrest

theorem turned_carryOn (talks : List (Talk n (List ValueResult))) (c : Cluster n) :
    Turned i w waiting front back ended (.talking location talks) c
      (Reconciliation.carryOn i location talks c) := by
  have hrun : Run i ⟨w, False⟩ ⟨waiting, front ++ .talking location talks :: back, ended, c⟩
      ⟨waiting, front ++ .talking location (Reconciliation.turnTalks i talks c).1 :: back, ended,
        (Reconciliation.turnTalks i talks c).2⟩ := run_turnTalks [] talks c
  rw [Reconciliation.carryOn]
  generalize Reconciliation.turnTalks i talks c = turned at hrun
  obtain ⟨talks', c'⟩ := turned
  cases hresults : Reconciliation.results? talks' with
  | none =>
    simp only [hresults]
    exact .underWay hrun
  | some results =>
    obtain ⟨rows, rfl, rfl⟩ := Reconciliation.eq_finished_of_results? hresults
    simp only [hresults, List.length_map]
    exact .reported (hrun.tail (.finish front back (.close location rows c')))

theorem turned_begin (location : Id) (c : Cluster n) :
    Turned i w waiting front back ended (.planned location) c
      (Reconciliation.begin i location c) := by
  have hprepare : Reconciliation.Step i False (.planned location) c _ _ := .prepare location c
  rw [Reconciliation.begin]
  rw [Reconciliation.prepare] at hprepare
  cases hclaim : (c.reconciler i).claim? location with
  | none =>
    simp only [hclaim] at hprepare ⊢
    exact .reported (.single (.finish front back hprepare))
  | some q =>
    simp only [hclaim] at hprepare ⊢
    split
    case isTrue hempty =>
      rw [if_pos hempty] at hprepare
      exact .reported (.single (.finish front back hprepare))
    case isFalse hnonempty =>
      rw [if_neg hnonempty] at hprepare
      exact (turned_carryOn _ _).head hprepare

/-- The turn of a location is a sequence of steps. -/
theorem turned_turn (r : Reconciliation n) (c : Cluster n) :
    Turned i w waiting front back ended r c (r.turn i c) := by
  cases r with
  | planned location => exact turned_begin location c
  | talking location talks => exact turned_carryOn talks c

/-- Locations are let in as long as there is room in the window. Each is one step of the sweep. -/
theorem run_letIn (room : Nat) {underWay : List (Reconciliation n)} {c : Cluster n}
    (hroom : room ≤ w - underWay.length) : Run i ⟨w, False⟩ ⟨waiting, underWay, ended, c⟩
      ⟨waiting.drop room, underWay ++ (waiting.take room).map .planned, ended, c⟩ := by
  induction room generalizing waiting underWay with
  | zero =>
    rw [List.drop_zero, List.take_zero, List.map_nil, List.append_nil]
  | succ room ih =>
    cases waiting with
    | nil =>
      rw [List.drop_nil, List.take_nil, List.map_nil, List.append_nil]
    | cons location waiting =>
      have hin : Step i ⟨w, False⟩ ⟨location :: waiting, underWay, ended, c⟩
          ⟨waiting, underWay ++ [.planned location], ended, c⟩ := .letIn (by simp only; omega)
      have hroom' : room ≤ w - (underWay ++ [Reconciliation.planned location]).length := by
        rw [List.length_append, List.length_singleton]
        omega
      have hrest := @ih waiting _ hroom'
      rw [List.append_assoc] at hrest
      exact .head hin hrest

end Sweep

/-! ### Ticks -/

namespace Tick

variable {i : Fin n} {t : Tick n} {c : Cluster n} {s : Sweep n}

/-- A tick begins with a new estimate of the factor, before any location is let in. It can fail only
because the bounds of the factor are crossed. -/
theorem begin_eq_ok {c' : Cluster n} (h : begin i c = .ok (t, c')) : ∃ estimator,
    let q : Reconciler := { c.reconciler i with estimator }
    t = ⟨q.factor, max q.config.maxConcurrentLocations 1, (c.replica i).tracker.responsible,
      [], [], []⟩ ∧
    c' = { c.setReconciler i q with
      meter := { c.meter with replicationFactor := some q.factor } } := by
  rw [begin, Reconciler.recompute] at h
  cases hestimator : (c.reconciler i).estimator.recompute (c.replica i).directory.size with
  | error why =>
    rw [hestimator] at h
    cases h
  | ok estimator =>
    rw [hestimator] at h
    obtain ⟨rfl, rfl⟩ := Prod.mk.inj (Except.ok.inj h)
    exact ⟨estimator, rfl, rfl⟩

/-- The sweep shows how far the tick has come. -/
structure Shows (t : Tick n) (c : Cluster n) (s : Sweep n) : Prop where
  waiting : s.waiting = t.waiting
  underWay : s.underWay.Perm (t.ready ++ t.blocked)
  reports : s.ended.map (·.report) = t.reports
  cluster : s.cluster = c

theorem Shows.letIn (h : t.Shows c s) :
    ∃ s', Sweep.Run i ⟨t.window, False⟩ s s' ∧ t.letIn.Shows c s' := by
  obtain ⟨waiting, underWay, ended, c'⟩ := s
  obtain ⟨hwaiting, hperm, hreports, rfl⟩ := h
  dsimp only at hwaiting hperm hreports
  subst hwaiting
  have hroom : t.window - (t.ready.length + t.blocked.length) ≤ t.window - underWay.length := by
    exact Nat.le_of_eq (by rw [hperm.length_eq, List.length_append])
  refine ⟨_, Sweep.run_letIn _ hroom, rfl, ?_, hreports, rfl⟩
  refine (hperm.append_right _).trans ?_
  rw [Tick.letIn, List.append_assoc, List.append_assoc]
  exact List.perm_append_comm.append_left t.ready

/-- A location has had its turn: it has reported, or it is kept among those under way. -/
theorem Shows.settle {r : Reconciliation n} {line : List (Reconciliation n)}
    (h : t.Shows c s) (hready : t.ready = r :: line) :
    ∃ s', Sweep.Run i ⟨t.window, False⟩ s s' ∧
      ({ t with ready := line }.settle (r.turn i c).1).Shows (r.turn i c).2 s' := by
  obtain ⟨waiting, underWay, ended, c'⟩ := s
  obtain ⟨hwaiting, hperm, hreports, rfl⟩ := h
  dsimp only at hwaiting hperm hreports ⊢
  rw [hready, List.cons_append] at hperm
  obtain ⟨front, back, rfl⟩ := List.append_of_mem (hperm.symm.subset List.mem_cons_self)
  have hothers : (front ++ back).Perm (line ++ t.blocked) :=
    (List.perm_middle.symm.trans hperm).cons_inv
  have hturned : Sweep.Turned i t.window waiting front back ended r c' (r.turn i c') :=
    Sweep.turned_turn r c'
  generalize r.turn i c' = turned at hturned ⊢
  cases hturned with
  | @underWay r' c' hrun =>
    refine ⟨_, hrun, hwaiting, ?_, hreports, rfl⟩
    refine List.perm_middle.trans ((hothers.cons r').trans ?_)
    rw [Tick.settle, ← List.append_assoc]
    exact (List.perm_append_singleton r' _).symm
  | @reported x c' hrun =>
    exact ⟨_, hrun, hwaiting, hothers, congrArg (x.report :: ·) hreports, rfl⟩

theorem window_settle (t : Tick n) (p : Progress (Reconciliation n) LocationReport) :
    (t.settle p).window = t.window := by
  cases p <;> rfl

/-- Locations get turns until none can have one. Their order is one that the sweep allows: a
location is let in whenever another one has reported. -/
theorem Shows.run (t : Tick n) (c : Cluster n) : ∀ {s}, t.Shows c s →
    ∃ s', Sweep.Run i ⟨t.window, False⟩ s s' ∧ (t.run i c).1.Shows (t.run i c).2 s' ∧
      (t.run i c).1.window = t.window ∧ (t.run i c).1.ready = [] ∧
      ((t.run i c).1.waiting = [] ∨ t.window ≤ (t.run i c).1.blocked.length) := by
  induction t, c using Tick.run.induct i with
  | case1 t c hnil =>
    intro s h
    obtain ⟨s', hrun, hshows⟩ := h.letIn (i := i)
    rw [Tick.run_of_nil hnil]
    exact ⟨s', hrun, hshows, rfl, hnil, Tick.full_of_nil hnil⟩
  | case2 t c r line hline hlt progress c' hturn ih =>
    intro s h
    obtain ⟨s₁, hlet, hshows₁⟩ := h.letIn (i := i)
    obtain ⟨s₂, hsettle, hshows₂⟩ := hshows₁.settle (i := i) hline
    rw [hturn] at hshows₂
    obtain ⟨s', hrun, hrest⟩ := ih hshows₂
    rw [window_settle] at hrun hrest
    rw [Tick.run_of_cons hline, hturn]
    exact ⟨s', hlet.trans (hsettle.trans hrun), hrest⟩

/-- The turn of a tick is a sequence of steps, after which no location can have a turn. -/
theorem Shows.turn (h : t.Shows c s) : ∃ (t' : Tick n) (s' : Sweep n),
    Sweep.Run i ⟨t.window, False⟩ s s' ∧ t'.Shows (t.turn i c).2 s' ∧ t'.window = t.window ∧
    t'.ready = [] ∧ (t'.waiting = [] ∨ t.window ≤ t'.blocked.length) ∧
    (t.turn i c).1 =
      if t'.blocked.isEmpty then .over ⟨t'.factor, t'.reports.reverse⟩ else .underWay t' := by
  rw [Tick.turn, List.partition_eq_filter_filter]
  let woken := t.blocked.filter (canGoOn c)
  let blocked := t.blocked.filter (not ∘ canGoOn c)
  have hwoken : Tick.Shows { t with ready := t.ready ++ woken, blocked } c s := by
    refine { h with underWay := h.underWay.trans ?_ }
    rw [List.append_assoc]
    exact (List.filter_append_perm _ t.blocked).symm.append_left t.ready
  obtain ⟨s', hrun, hshows, hwindow, hready, hfull⟩ := Shows.run (i := i) _ c hwoken
  exact ⟨_, s', hrun, hshows, hwindow, hready, hfull, rfl⟩

/-- A tick that has come from `s` in steps, or is over in this way. -/
inductive Follows (i : Fin n) (window : Nat) (s : Sweep n) :
    Progress (Tick n) TickReport × Cluster n → Prop
  | underWay {t : Tick n} {c : Cluster n} {s' : Sweep n}
    (hrun : Sweep.Run i ⟨window, False⟩ s s') (hshows : t.Shows c s')
    (hwindow : t.window = window) : Follows i window s (.underWay t, c)
  | finished {report : TickReport} {s' : Sweep n} (hover : Sweep.Completes i ⟨window, False⟩ s s')
    (hreports : report.locations = (s'.ended.map (·.report)).reverse) :
    Follows i window s (.over report, s'.cluster)

theorem Follows.turn {window : Nat} (hpositive : 0 < window)
    (h : Follows i window s (.underWay t, c)) : Follows i window s (t.turn i c) := by
  cases h with
  | @underWay _ _ s₁ hrun hshows hwindow =>
    subst hwindow
    obtain ⟨t', s₂, hrun', hshows', hwindow, hready, hfull, hturned⟩ := hshows.turn (i := i)
    generalize t.turn i c = turned at hshows' hturned ⊢
    obtain ⟨progress, c'⟩ := turned
    dsimp only at hshows' hturned
    subst hturned
    split
    case isTrue hempty =>
      have hblocked : t'.blocked = [] := List.isEmpty_iff.mp hempty
      rw [hblocked, List.length_nil] at hfull
      obtain ⟨hwaiting, hperm, hreports, rfl⟩ := hshows'
      rw [hready, hblocked] at hperm
      refine .finished ⟨hrun.trans hrun', ?_, hperm.eq_nil⟩ (congrArg List.reverse hreports.symm)
      exact hwaiting.trans (hfull.resolve_right (by omega))
    case isFalse => exact .underWay (hrun.trans hrun') hshows' hwindow

/-- A tick is followed just as well while computations end between its turns. -/
theorem Follows.workedUntil {window : Nat} (h : Follows i window s (.underWay t, c)) (due : Nat) :
    Follows i window s (.underWay t, c.workedUntil due) := by
  cases h with
  | @underWay _ _ s' hrun hshows hwindow =>
    obtain ⟨waiting, underWay, ended, c⟩ := s'
    obtain ⟨hwaiting, hunder, hreports, rfl⟩ := hshows
    exact .underWay (hrun.tail (.work (c.work.passUntil due))) ⟨hwaiting, hunder, hreports, rfl⟩
      hwindow

end Tick

end DeltaMesh
