import DeltaMesh.Cluster.Deed
import DeltaMesh.Proofs.Cluster.Calls
import DeltaMesh.Proofs.Cluster.Overlap

/-!
# The calls of deeds

In the turn of a deed several locations may be let in, go on, or come to an end, and in a deed that
is broken off several may stop. What happens about the locations of one node is a run of its calls
(`Overlap.Shows.turn`, `Overlap.Shows.breakOff`): the deeds of this node are steps of calls, and
those of other nodes leave its claims alone.
-/

namespace DeltaMesh

variable {n : Nat}

/-! ### What a node leads -/

/-- The location that is claimed. -/
def Reconciliation.claimed? : Reconciliation n → Option Id
  | planned _ => none
  | talking location _ => some location

namespace Deed

/-- The reconciliations that node `i` leads in a deed. -/
def underWay (i : Fin n) : Deed n → List (Reconciliation n)
  | reconcile node r => if node = i then [r] else []
  | tick node t => if node = i then t.ready ++ t.blocked else []
  | beginTick _ | handOver .. | run _ => []

/-- No location is claimed for the deed. -/
def Unclaimed (d : Deed n) : Prop := ∀ i, ∀ r ∈ d.underWay i, r.claimed? = none

theorem unclaimed_planned (node : Fin n) (location : Id) :
    (reconcile node (.planned location)).Unclaimed := by
  intro i
  rw [underWay]
  split
  case isTrue => exact List.forall_mem_singleton.mpr rfl
  case isFalse => exact List.forall_mem_nil _

theorem unclaimed_beginTick (node : Fin n) : (beginTick node).Unclaimed :=
  fun _ => List.forall_mem_nil _

end Deed

/-- The reconciliations that node `i` leads in what is left of a deed and in what it has begun. -/
def Aftermath.underWay (i : Fin n) (a : Aftermath n) : List (Reconciliation n) :=
  (a.rest.toList ++ a.begun).flatMap (Deed.underWay i)

/-- What remains of a deed after its turn leads what its state leads, or nothing. -/
theorem Progress.underWay_rest {σ ρ : Type} {i : Fin n} (build : σ → Deed n)
    (progress : Progress σ ρ) : (progress.rest build).underWay i = match progress with
      | .underWay state => (build state).underWay i
      | .over _ => [] := by
  rcases progress with state | result
  · exact List.append_nil _
  · rfl

/-! ### Other nodes -/

section

variable {i j : Fin n} {c c' : Cluster n}

/-- A step of another node's reconciliation claims and gives back at that node only. -/
theorem Reconciliation.Step.inFlight {inOrder : Prop} {r : Reconciliation n}
    {progress : Progress (Reconciliation n) Closing} (hne : i ≠ j)
    (h : r.Step j inOrder c progress c') :
    (c'.reconciler i).inFlight = (c.reconciler i).inFlight := by
  cases h with
  | prepare location c =>
    have hprepared := c.prepared j location
    generalize Reconciliation.prepare j location c = ended at hprepared
    cases hprepared with
    | reported => rfl
    | begun => rw [Cluster.reconciler_set_of_ne _ _ hne]
  | talk location talk back c _ => exact c.inFlight_advance j i talk
  | close location rows c =>
    exact congrArg Reconciler.inFlight (c.reconciler_set_of_ne _ hne)

/-- A turn of another node's tick does not touch the claims of node `i`. -/
theorem Sweep.inFlight_run {pace : Pace} {s s' : Sweep n} (hne : i ≠ j) (hrun : Run j pace s s') :
    (s'.cluster.reconciler i).inFlight = (s.cluster.reconciler i).inFlight := by
  induction hrun with
  | refl => rfl
  | tail _ hstep ih =>
    refine Eq.trans ?_ ih
    cases hstep with
    | letIn | work => rfl
    | turn _ _ hturn => exact hturn.inFlight hne
    | finish _ _ hturn => exact hturn.inFlight hne

theorem Cluster.inFlight_begin {t : Tick n} (h : Tick.begin j c = .ok (t, c')) (i : Fin n) :
    (c'.reconciler i).inFlight = (c.reconciler i).inFlight := by
  obtain ⟨estimator, -, rfl⟩ := Tick.begin_eq_ok h
  by_cases hne : i = j
  · subst hne
    have hself := c.reconciler_set_self i { c.reconciler i with estimator }
    exact (congrArg Reconciler.inFlight hself).trans rfl
  · exact congrArg Reconciler.inFlight (c.reconciler_set_of_ne _ hne)

theorem Cluster.inFlight_resume {α : Type} (c : Cluster n) (i j : Fin n) (talk : Talk n α) :
    ((c.resume j talk).2.reconciler i).inFlight = (c.reconciler i).inFlight := by
  have hadvances := c.advances_resume (i := j) talk
  generalize htalk : (talk, c) = first, c.resume j talk = last at hadvances
  induction hadvances with
  | refl => rw [← htalk]
  | @tail p q _ hstep ih =>
    subst hstep
    exact (p.2.inFlight_advance j i p.1).trans ih

end

/-! ### Calls that lead reconciliations -/

section

variable {i j : Fin n} {o o' : Overlap n} {rs rs' others : List (Reconciliation n)}
  {c c' : Cluster n}

namespace Overlap

/-- The calls that are under way lead these reconciliations, and none of them stands still within a
turn. -/
structure Shows (o : Overlap n) (rs : List (Reconciliation n)) (c : Cluster n) : Prop where
  underWay : (o.calls.filterMap Call.reconciliation?).Perm rs
  paused : ∀ call ∈ o.calls, call.stage ≠ .claimed
  cluster : o.cluster = c

/-- The calls of node `i` can come to lead these reconciliations. -/
def Comes (i : Fin n) (o : Overlap n) (rs : List (Reconciliation n)) (c : Cluster n) : Prop :=
  ∃ o', Run i o o' ∧ o'.Shows rs c

theorem Shows.perm (h : o.Shows rs c) (hperm : rs.Perm rs') : o.Shows rs' c :=
  { h with underWay := h.underWay.trans hperm }

theorem Shows.comes (h : o.Shows rs c) : o.Comes i rs c := ⟨o, .refl, h⟩

theorem Comes.perm (h : o.Comes i rs c) (hperm : rs.Perm rs') : o.Comes i rs' c := by
  obtain ⟨o', hrun, hshows⟩ := h
  exact ⟨o', hrun, hshows.perm hperm⟩

/-- Two stretches of a deed, one after the other; the overlap of the first is where the second one
starts. -/
theorem Comes.trans (h : o.Comes i rs c) (hnext : ∀ o' : Overlap n, o'.Shows rs c →
    o'.Comes i rs' c') : o.Comes i rs' c' := by
  obtain ⟨o', hrun, hshows⟩ := h
  obtain ⟨o'', hrun', hshows'⟩ := hnext o' hshows
  exact ⟨o'', hrun.trans hrun', hshows'⟩

/-- Something else happens. -/
theorem Shows.elsewhere (h : o.Shows rs c)
    (hsame : (c'.reconciler i).inFlight = (c.reconciler i).inFlight) : o.Comes i rs c' := by
  obtain ⟨calls, c⟩ := o
  obtain ⟨hunder, hpaused, rfl⟩ := h
  exact ⟨⟨calls, c'⟩, .single (.elsewhere calls hsame), hunder, hpaused, rfl⟩

/-- New reconciliations are calls that have been planned; nothing else is known of them yet. -/
theorem Shows.arrive (h : o.Shows others c) (hrs : ∀ r ∈ rs, r.claimed? = none) :
    o.Comes i (rs ++ others) c := by
  induction rs with
  | nil => exact h.comes
  | cons r rs ih =>
    obtain ⟨hr, hrest⟩ := List.forall_mem_cons.mp hrs
    cases r with
    | talking location talks => cases hr
    | planned location =>
      refine (ih hrest).trans fun o' ho' => ?_
      obtain ⟨calls, c⟩ := o'
      obtain ⟨hunder, hpaused, rfl⟩ := ho'
      refine ⟨_, .single (.arrive calls c location), ?_, ?_, rfl⟩
      · rw [List.filterMap_append]
        exact (List.perm_append_singleton _ _).trans (hunder.cons _)
      · exact List.forall_mem_append.mpr ⟨hpaused, List.forall_mem_singleton.mpr nofun⟩

/-- The calls of a node run inside the overlap as they do alone. -/
theorem run_calls {calls calls' : List (Call n)} (h : Calls.Run i (calls, c) (calls', c')) :
    Run i ⟨calls, c⟩ ⟨calls', c'⟩ := by
  refine Relation.ReflTransGen.lift
    (fun p : List (Call n) × Cluster n => (⟨p.1, p.2⟩ : Overlap n)) (fun p p' hstep => ?_) _ _ h
  cases hstep with
  | arrive calls c location => exact .arrive calls c location
  | go front back hcall => exact .go front back hcall
  | work calls c work => exact .elsewhere calls rfl

/-- The locations of a node's tick go on. Each step of the sweep is a step of the calls if the node
is this one, and concerns none of them if it is another. -/
theorem Shows.sweep {pace : Pace} {s s' : Sweep n} (hrun : Sweep.Run j pace s s')
    (h : o.Shows ((if j = i then s.underWay else []) ++ others) s.cluster) :
    o.Comes i ((if j = i then s'.underWay else []) ++ others) s'.cluster := by
  split at h
  case isTrue hj =>
    subst hj
    obtain ⟨calls, c⟩ := o
    obtain ⟨hunder, hpaused, rfl⟩ := h
    obtain ⟨calls', hled⟩ := Sweep.Shown.run ⟨hunder, hpaused⟩ hrun
    rw [if_pos rfl]
    exact ⟨⟨calls', s'.cluster⟩, run_calls hled.run, hled.shown.underWay, hled.shown.paused, rfl⟩
  case isFalse hj =>
    rw [if_neg hj]
    exact h.elsewhere (Sweep.inFlight_run (Ne.symm hj) hrun)

/-! ### Turns -/

/-- A turn of a reconciliation is a run of the calls of its node: one call begins, goes on or ends.
-/
theorem turn_reconcile (r : Reconciliation n)
    (h : o.Shows ((Deed.reconcile j r).underWay i ++ others) c) :
    o.Comes i (((r.turn j c).1.rest (.reconcile j)).underWay i ++ others) (r.turn j c).2 := by
  have hturned : Sweep.Turned j 0 [] [] [] [] r c (r.turn j c) := Sweep.turned_turn r c
  rw [Progress.underWay_rest]
  generalize r.turn j c = turned at hturned ⊢
  cases hturned with
  | underWay hrun => exact h.sweep hrun
  | reported hrun => exact (h.sweep hrun).perm (.append_right others (.of_eq (ite_self [])))

/-- A turn of a tick is a run of several calls, those that can go on and those that are let in. -/
theorem turn_tick (t : Tick n) (h : o.Shows ((Deed.tick j t).underWay i ++ others) c) :
    o.Comes i (((t.turn j c).1.rest (.tick j)).underWay i ++ others) (t.turn j c).2 := by
  let s : Sweep n := ⟨t.waiting, t.ready ++ t.blocked, t.reports.map (⟨·, []⟩), c⟩
  have hshows : t.Shows c s := ⟨rfl, .refl _, (List.map_map ..).trans (List.map_id' _), rfl⟩
  obtain ⟨t', s', hrun, hshows', -, hready, -, hturned⟩ := hshows.turn (i := j)
  have hcomes : o.Comes i ((if j = i then s'.underWay else []) ++ others) s'.cluster :=
    Shows.sweep (s := s) hrun h
  rw [Progress.underWay_rest, hturned, ← hshows'.cluster]
  by_cases hempty : t'.blocked.isEmpty = true
  · have hnone : s'.underWay = [] := by
      have hperm := hshows'.underWay
      rw [hready, List.isEmpty_iff.mp hempty] at hperm
      exact hperm.eq_nil
    rw [hnone, ite_self] at hcomes
    rwa [if_pos hempty]
  · rw [if_neg hempty]
    refine hcomes.perm (.append_right others ?_)
    simp only [Deed.underWay]
    split
    case isTrue => exact hshows'.underWay
    case isFalse => exact .refl _

/-- A hand-over claims nothing. -/
theorem turn_handOver (state : HandOver n) (h : o.Shows others c) :
    o.Comes i (((state.turn j c).1.rest (.handOver j)).underWay i ++ others)
      (state.turn j c).2 := by
  have hnone : ((state.turn j c).1.rest (.handOver j)).underWay i = [] := by
    rw [Progress.underWay_rest]
    split <;> rfl
  rw [hnone]
  refine h.elsewhere ?_
  rw [HandOver.turn.eq_def]
  cases state <;> exact c.inFlight_resume i j _

end Overlap

/-- A node that runs begins nothing that has claimed a location: a tick, a reconciliation or a
hand-over begins with its own first turn. -/
theorem Run.unclaimed_turn (r : Run n) (c : Cluster n) : ∀ d ∈ (r.turn c).2, d.Unclaimed := by
  have hreactions : ∀ d ∈ ((c.replica r.node).tracker.heardSince r.position).events.map
      (Run.reaction r.node c), d.Unclaimed := by
    refine List.forall_mem_map.mpr fun event _ => ?_
    cases event with
    | gained location => exact Deed.unclaimed_planned r.node location
    | lost location newOwner delayed => exact fun i => List.forall_mem_nil _
  rw [Run.turn]
  split
  case isTrue => exact List.forall_mem_nil _
  case isFalse =>
    dsimp only
    split
    case isTrue =>
      exact List.forall_mem_append.mpr ⟨hreactions,
        List.forall_mem_singleton.mpr (Deed.unclaimed_beginTick r.node)⟩
    case isFalse =>
      dsimp only
      exact hreactions

namespace Overlap

/-- What the turn of a deed does about the locations of a node is a run of its calls. -/
theorem Shows.turn (d : Deed n) (h : o.Shows (d.underWay i ++ others) c) :
    o.Comes i ((d.turn c).1.underWay i ++ others) (d.turn c).2 := by
  cases d with
  | reconcile node r => exact turn_reconcile r h
  | tick node t => exact turn_tick t h
  | beginTick node =>
    rw [Deed.turn]
    cases hbegin : Tick.begin node c with
    | error why => exact h.comes
    | ok begun =>
      obtain ⟨t, c'⟩ := begun
      obtain ⟨estimator, rfl, -⟩ := Tick.begin_eq_ok hbegin
      refine (h.elsewhere (Cluster.inFlight_begin hbegin i)).trans fun o' ho' => turn_tick _ ?_
      exact ho'.perm (.append_right others (.of_eq (ite_self []).symm))
  | handOver node state => exact turn_handOver state h
  | run state =>
    have hbegun : ∀ r ∈ (state.turn c).2.flatMap (Deed.underWay i), r.claimed? = none := by
      intro r hr
      obtain ⟨d, hd, hr⟩ := List.mem_flatMap.mp hr
      exact state.unclaimed_turn c d hd i r hr
    exact h.arrive hbegun

/-! ### Breaking off -/

theorem breakOff_of_reconciliation? {call : Call n} {r : Reconciliation n}
    (h : call.reconciliation? = some r) (c : Cluster n) :
    (call.breakOff i c).1.stage = .brokenOff ∧ (call.breakOff i c).2 = r.breakOff i c := by
  cases r with
  | planned location =>
    obtain ⟨hstage, -⟩ := Call.stage_of_planned h
    rw [Call.breakOff, hstage]
    exact ⟨rfl, rfl⟩
  | talking location talks =>
    obtain ⟨hstage, rfl, rfl⟩ := Call.stage_of_talks h
    rw [Call.breakOff, hstage]
    exact ⟨rfl, rfl⟩

theorem inFlight_breakOff (hne : i ≠ j) (r : Reconciliation n) (c : Cluster n) :
    ((r.breakOff j c).reconciler i).inFlight = (c.reconciler i).inFlight := by
  cases r with
  | planned location => rfl
  | talking location talks =>
    rw [Reconciliation.breakOff, Cluster.reconciler_set_of_ne _ _ hne,
      Cluster.reconciler_breakOffAll]

/-- Breaking off a reconciliation of this node is one step of its calls, and one of another node is
none. In either case the call is closed and its claim given back. -/
theorem breakOff_reconciliation (r : Reconciliation n)
    (h : o.Shows ((if j = i then [r] else []) ++ others) c) :
    o.Comes i others (r.breakOff j c) := by
  split at h
  case isTrue hj =>
    subst hj
    obtain ⟨calls, c⟩ := o
    obtain ⟨hunder, hpaused, rfl⟩ := h
    obtain ⟨before, call, after, rfl, hcall, hrest⟩ := Calls.split hunder
    obtain ⟨hstage, hcluster⟩ := breakOff_of_reconciliation? (i := j) hcall c
    have hnone : (call.breakOff j c).1.reconciliation? = none := by
      rw [Call.reconciliation?, hstage]
    refine ⟨_, .single (.breakOff before after call c), ?_, ?_, hcluster⟩
    · refine (Calls.perm_filterMap Call.reconciliation? before after _).trans ?_
      rw [hnone]
      exact hrest
    · refine Calls.forall_mem_middle.mpr ⟨?_, (Calls.forall_mem_middle.mp hpaused).2⟩
      rw [hstage]
      rintro ⟨⟩
  case isFalse hj => exact h.elsewhere (inFlight_breakOff (Ne.symm hj) r c)

/-- Breaking off a tick does so for everything it had under way, one after the other. -/
theorem breakOff_reconciliations (rs : List (Reconciliation n))
    (h : o.Shows ((if j = i then rs else []) ++ others) c) :
    o.Comes i others (rs.foldl (fun c r => r.breakOff j c) c) := by
  induction rs generalizing o c with
  | nil =>
    rw [ite_self] at h
    exact h.comes
  | cons r rs ih =>
    have hfirst : o.Comes i ((if j = i then rs else []) ++ others) (r.breakOff j c) := by
      refine breakOff_reconciliation r (h.perm (.of_eq ?_))
      split <;> rfl
    exact hfirst.trans fun o' ho' => ih ho'

/-- Breaking a deed off breaks off the calls of a node that belong to it. -/
theorem Shows.breakOff (d : Deed n) (h : o.Shows (d.underWay i ++ others) c) :
    o.Comes i others (d.breakOff c) := by
  cases d with
  | reconcile node r => exact breakOff_reconciliation r h
  | tick node t => exact breakOff_reconciliations (t.ready ++ t.blocked) h
  | handOver node state =>
    refine h.elsewhere ?_
    cases state with
    | planned location owner wait => rfl
    | talking talk =>
      exact congrArg (fun q => (Vector.get q i).inFlight) (c.reconcilers_breakOff talk)
  | beginTick node | run state => exact h.comes

end Overlap

end

end DeltaMesh
