import DeltaMesh.Proofs.Cluster.Books
import DeltaMesh.Proofs.Cluster.Lone
import DeltaMesh.Proofs.Schedule.Alone
import DeltaMesh.Proofs.Schedule.AnyOrder
import DeltaMesh.Proofs.Schedule.Retry

/-!
# The books of a schedule

What a node is asked to do on a schedule is carried out in turns. In them the node makes calls and
hands locations over, in one of the orders that its books allow for (`Schedule.Job.operates`).

Main statement: after any number of ticks, reconciliations and hand-overs, with whichever peers cut
off meanwhile, what the layers have counted agrees, and the reports that it agrees with are those
that came back (`Schedule.jobs_agree`). This is what the books of any run say
(`Operation.books_agree`), of which a run on a schedule is a case.
-/

namespace DeltaMesh

variable {n : Nat}

namespace Operation

variable {i : Fin n} {o : Operation n} {calls calls' : List (Call n)} {pushes : List (Push n)}
  {c c' : Cluster n}

/-- Each call and each hand-over has come to its end. -/
structure AtRest (o : Operation n) : Prop where
  underWay : o.calls.filterMap Call.reconciliation? = []
  paused : ∀ call ∈ o.calls, call.stage ≠ .claimed
  pushes : ∀ push ∈ o.pushes, ∃ result, push.conversation.talk = .finished result

/-- Calls that are in the books have not been broken off; so a schedule at rest leaves only calls
that have reported. -/
theorem AtRest.isOver (h : o.AtRest) (hsound : Sound i o) : o.IsOver := by
  refine ⟨fun call hcall => ?_, h.pushes⟩
  have hnone := List.filterMap_eq_nil_iff.mp h.underWay call hcall
  have hpaused := h.paused call hcall
  have hcounted := hsound.calls call hcall
  rw [Call.reconciliation?] at hnone
  rw [Call.Sound] at hcounted
  cases hstage : call.stage with
  | reported report => exact ⟨report, rfl⟩
  | claimed => exact absurd hstage hpaused
  | planned | talking =>
    rw [hstage] at hnone
    cases hnone
  | brokenOff =>
    rw [hstage] at hcounted
    exact hcounted.elim

/-- Calls run beside the pushes as they do alone. -/
theorem run_calls (pushes : List (Push n)) (h : Calls.Run i (calls, c) (calls', c')) :
    Run i ⟨calls, pushes, c⟩ ⟨calls', pushes, c'⟩ :=
  Relation.ReflTransGen.lift
    (fun p : List (Call n) × Cluster n => (⟨p.1, pushes, p.2⟩ : Operation n))
    (fun _ _ hstep => .call pushes hstep) _ _ h

/-- A tick goes on until none of its locations is under way. Its calls are entered behind those
before, and its reports behind theirs. -/
theorem AtRest.sweep {pace : Pace} {locations : List Id} {s : Sweep n} (h : o.AtRest)
    (hrun : Sweep.Run i pace (.start locations o.cluster) s) (hover : s.underWay = []) :
    ∃ o', Run i o o' ∧ o'.AtRest ∧ o'.cluster = s.cluster ∧
      o'.reports.Perm (o.reports ++ s.ended.map (·.report)) := by
  obtain ⟨calls, pushes, c⟩ := o
  have hshown : (Sweep.start locations c).Shown [] calls := ⟨.of_eq h.underWay, h.paused⟩
  obtain ⟨calls', hled⟩ := hshown.run hrun
  obtain ⟨ended, hended, hreports⟩ := hled.reports
  obtain rfl : s.ended = ended := hended.trans (List.append_nil ended)
  have hunder := hled.shown.underWay
  rw [hover] at hunder
  exact ⟨⟨calls', pushes, s.cluster⟩, run_calls pushes hled.run,
    ⟨hunder.eq_nil, hled.shown.paused, h.pushes⟩, rfl, hreports.trans List.perm_append_comm⟩

/-- The conversation of the last hand-over goes on, and the calls and the other hand-overs stay
where they are. -/
theorem run_advances {push : Push n} {talk : Talk n (Except ReplicationError Nat)}
    (h : Cluster.Advances i (push.conversation.talk, c) (talk, c')) : ∃ push' : Push n,
      Run i ⟨calls, pushes ++ [push], c⟩ ⟨calls, pushes ++ [push'], c'⟩ ∧
        push'.conversation.talk = talk := by
  generalize hto : (talk, c') = last at h
  induction h generalizing talk c' with
  | refl =>
    obtain ⟨rfl, rfl⟩ := Prod.mk.inj hto
    exact ⟨push, .refl, rfl⟩
  | @tail p _ _ hstep ih =>
    obtain ⟨push', hrun, htalk⟩ := @ih p.2 p.1 rfl
    have hnext : (push'.advance i p.2).2 = c' :=
      (congrArg (fun t => (p.2.advance i t).2) htalk).trans
        (congrArg Prod.snd (hto.trans hstep)).symm
    refine ⟨(push'.advance i p.2).1, hrun.tail (hnext ▸ .send calls pushes push' [] p.2), ?_⟩
    exact (congrArg (fun t => (p.2.advance i t).1) htalk).trans
      (congrArg Prod.fst (hto.trans hstep)).symm

end Operation

namespace Schedule

variable {i : Fin n} {s s' s₀ : Schedule n} {o : Operation n} {c₀ : Cluster n}
  {reports more : List LocationReport}

/-- Something that node `i` is asked to do, and the reports that come of it; or something that is
not counted, such as that a peer is cut off or comes back. -/
inductive Job (i : Fin n) : Schedule n → List LocationReport → Schedule n → Prop
  | tick {s s' : Schedule n} {report : TickReport} (h : s.tick i = .ok (some report, s')) :
    Job i s report.locations s'
  | reconcile {s s' : Schedule n} {location : Id} {report : LocationReport}
    (h : s.reconcile i location = (some report, s')) : Job i s [report] s'
  | push {s s' : Schedule n} {location : Id} {peer : Peer} {result : Except ReplicationError Nat}
    (hvalues : (s.cluster.valuesUnder i location).length < Wire.lengthBound)
    (h : s.push i location peer = (some result, s')) : Job i s [] s'
  | reach (s : Schedule n) (peer : Id) (cutOff : Bool) : Job i s [] (s.setUnreachable peer cutOff)
  | elsewhere (s : Schedule n) {c : Cluster n} (h : s.cluster.Uncounted i c) :
    Job i s [] { s with cluster := c }

/-- One after the other. -/
inductive Jobs (i : Fin n) : Schedule n → List LocationReport → Schedule n → Prop
  | nil (s : Schedule n) : Jobs i s [] s
  | concat {s s' s'' : Schedule n} {reports more : List LocationReport} (h : Jobs i s reports s')
    (hnext : Job i s' more s'') : Jobs i s (reports ++ more) s''

/-- What came of the jobs so far. -/
structure Shows (s : Schedule n) (o : Operation n) (reports : List LocationReport) : Prop where
  idle : s.Idle
  atRest : o.AtRest
  cluster : o.cluster = s.cluster
  reports : o.reports.Perm reports

/-- Waiting for a result leaves no deed behind. -/
theorem idle_await {σ ρ : Type} (turn : σ → Cluster n → Progress σ ρ × Cluster n)
    (waits : σ → List (Wait n)) (state : σ) (h : s.Idle) : (s.await turn waits state).2.Idle := by
  refine (await_keeps turn waits (P := fun _ => True) (Q := fun _ => True) (fun state c _ _ => ?_)
    (fun _ _ _ => trivial) h trivial trivial).1
  refine ⟨trivial, ?_⟩
  cases (turn state c).1 <;> trivial

/-- A tick that comes to its end is a run of the operation; its reports are entered behind the
others. -/
theorem Shows.tick {report : TickReport} (h : s.Shows o reports)
    (htick : s.tick i = .ok (some report, s')) :
    ∃ o', Operation.Run i o o' ∧ s'.Shows o' (reports ++ report.locations) := by
  obtain ⟨calls, pushes, c⟩ := o
  obtain ⟨hidle, hrest, rfl, hreports⟩ := h
  cases hbegin : Tick.begin i s.cluster with
  | error why =>
    rw [Schedule.tick, hbegin] at htick
    cases htick
  | ok begun =>
    obtain ⟨t, c⟩ := begun
    obtain ⟨w, hcompletes, hcluster, hlocations⟩ := tick_completes hidle hbegin htick
    have hbegun : Operation.AtRest (⟨calls, pushes, c⟩ : Operation n) :=
      ⟨hrest.underWay, hrest.paused, hrest.pushes⟩
    obtain ⟨o', hrun, hrest', hcluster', hreports'⟩ := hbegun.sweep hcompletes.1 hcompletes.2.2
    rw [Schedule.tick, hbegin] at htick
    have hidle' : s'.Idle := by
      have hawait := idle_await (s := { s with cluster := c }) (Tick.turn i) Tick.waits t
        ⟨hidle.ready, hidle.blocked⟩
      rwa [Except.ok.inj htick] at hawait
    refine ⟨o', .head (.tick calls pushes hbegin) hrun, hidle', hrest', hcluster'.trans hcluster,
      ?_⟩
    rw [hlocations]
    exact hreports'.trans (hreports.append (List.reverse_perm _).symm)

/-- How far node `i` has come with a location, as the only one of a tick. -/
inductive Reconciled (i : Fin n) (location : Id) (c₀ : Cluster n) :
    Progress (Reconciliation n) LocationReport × Cluster n → Prop
  | underWay {r : Reconciliation n} {c : Cluster n}
    (h : Sweep.Run i ⟨1, False⟩ (.start [location] c₀) ⟨[], [r], [], c⟩) :
    Reconciled i location c₀ (.underWay r, c)
  | reported {x : Closing} {c : Cluster n}
    (h : Sweep.Run i ⟨1, False⟩ (.start [location] c₀) ⟨[], [], [x], c⟩) :
    Reconciled i location c₀ (.over x.report, c)

/-- A turn of a reconciliation is a run of its call. -/
theorem Reconciled.turn {location : Id} {r : Reconciliation n} {c : Cluster n}
    (h : Reconciled i location c₀ (.underWay r, c)) : Reconciled i location c₀ (r.turn i c) := by
  cases h with
  | underWay h =>
    have hturned : Sweep.Turned i 1 [] [] [] [] r c (r.turn i c) := Sweep.turned_turn r c
    generalize r.turn i c = turned at hturned
    cases hturned with
    | underWay hrun => exact .underWay (h.trans hrun)
    | reported hrun => exact .reported (h.trans hrun)

/-- That a computation ends is part of such a run, too. -/
theorem Reconciled.workedUntil {location : Id} {r : Reconciliation n} {c : Cluster n}
    (h : Reconciled i location c₀ (.underWay r, c)) (due : Nat) :
    Reconciled i location c₀ (.underWay r, c.workedUntil due) := by
  cases h with
  | underWay h => exact .underWay (h.tail (.work (c.work.passUntil due)))

/-- A reconciliation that a node is asked for is a run of the operation; its report is entered
behind the others. -/
theorem Shows.reconcile {location : Id} {report : LocationReport} (h : s.Shows o reports)
    (hreconcile : s.reconcile i location = (some report, s')) :
    ∃ o', Operation.Run i o o' ∧ s'.Shows o' (reports ++ [report]) := by
  obtain ⟨hidle, hrest, hcluster, hreports⟩ := h
  have hstart : Reconciled i location o.cluster (.underWay (.planned location), s.cluster) :=
    hcluster ▸ .underWay (.single (.letIn Nat.one_pos))
  have hover := awaitWithin_over (fun _ _ => Reconciled.turn)
    (fun _ _ due h => Reconciled.workedUntil h due) s.patience
    (s := { s with cluster := (Reconciliation.turn i (.planned location) s.cluster).2 })
    ⟨hidle.ready, hidle.blocked⟩ hstart.turn hreconcile
  have hidle' := idle_await (Reconciliation.turn i) Reconciliation.waits (.planned location) hidle
  rw [show s.await _ _ _ = _ from hreconcile] at hidle'
  generalize hcluster' : s'.cluster = c at hover
  cases hover with
  | @reported x _ hrun =>
    obtain ⟨o', hrun', hrest', hcluster'', hreports'⟩ := hrest.sweep hrun rfl
    exact ⟨o', hrun', hidle', hrest', hcluster''.trans hcluster'.symm,
      hreports'.trans (hreports.append_right _)⟩

/-- How far node `i` has come with handing a location over, after what is in the books. -/
inductive HandedOver (i : Fin n) (o : Operation n) :
    Progress (HandOver n) (Except ReplicationError Nat) × Cluster n → Prop
  | mk {push : Push n} {c : Cluster n}
    (h : Operation.Run i o ⟨o.calls, o.pushes ++ [push], c⟩) :
    HandedOver i o (push.conversation.talk.progress .talking, c)

/-- A push that goes on is a run of the operation, up to its next wait or to its end. -/
theorem handedOver_resume {push : Push n} {c : Cluster n}
    (h : Operation.Run i o ⟨o.calls, o.pushes ++ [push], c⟩) :
    HandedOver i o ((c.resume i push.conversation.talk).1.progress .talking,
      (c.resume i push.conversation.talk).2) := by
  have hadvances := c.advances_resume (i := i) push.conversation.talk
  generalize c.resume i push.conversation.talk = resumed at hadvances ⊢
  obtain ⟨talk, c'⟩ := resumed
  obtain ⟨push', hrun, rfl⟩ := Operation.run_advances hadvances
  exact .mk (h.trans hrun)

/-- A turn of a hand-over begins a push, if there is none yet, or carries it on. -/
theorem HandedOver.turn {state : HandOver n} {c : Cluster n}
    (h : HandedOver i o (.underWay state, c)) : HandedOver i o (state.turn i c) := by
  generalize hprogress : (Progress.underWay state, c) = p at h
  cases h with
  | @mk push c' hrun =>
    obtain ⟨htalk, rfl⟩ := Prod.mk.inj hprogress
    obtain rfl : state = .talking push.conversation.talk := by
      cases hstate : push.conversation.talk with
      | finished result =>
        rw [hstate] at htalk
        cases htalk
      | resting | asking | silent =>
        rw [hstate] at htalk
        exact Progress.underWay.inj htalk
    exact handedOver_resume hrun

theorem HandedOver.workedUntil {state : HandOver n} {c : Cluster n}
    (h : HandedOver i o (.underWay state, c)) (due : Nat) :
    HandedOver i o (.underWay state, c.workedUntil due) := by
  generalize hprogress : (Progress.underWay state, c) = p at h
  cases h with
  | @mk push c' hrun =>
    obtain ⟨htalk, rfl⟩ := Prod.mk.inj hprogress
    rw [htalk]
    exact .mk (hrun.tail (.elsewhere _ _ ⟨rfl, rfl, rfl⟩))

/-- A hand-over that comes to its end is a run of the operation. The values that it takes along are
those stored when it begins. -/
theorem Shows.push {location : Id} {peer : Peer} {result : Except ReplicationError Nat}
    (h : s.Shows o reports)
    (hvalues : (s.cluster.valuesUnder i location).length < Wire.lengthBound)
    (hpush : s.push i location peer = (some result, s')) :
    ∃ o', Operation.Run i o o' ∧ s'.Shows o' reports := by
  obtain ⟨hidle, hrest, hcluster, hreports⟩ := h
  have hbegun : Operation.Run i o
      ⟨o.calls, o.pushes ++ [.begin i location peer s.cluster], s.cluster⟩ :=
    hcluster ▸ .single (.push o.calls o.pushes o.cluster location peer (hcluster ▸ hvalues))
  have hover := awaitWithin_over (fun _ _ => HandedOver.turn)
    (fun _ _ due h => HandedOver.workedUntil h due) s.patience
    (s := { s with cluster := (HandOver.turn i (.planned location peer .free) s.cluster).2 })
    ⟨hidle.ready, hidle.blocked⟩ (handedOver_resume hbegun) hpush
  have hidle' := idle_await (HandOver.turn i) HandOver.waits (.planned location peer .free) hidle
  rw [show s.await _ _ _ = _ from hpush] at hidle'
  generalize hprogress : (Progress.over result, s'.cluster) = p at hover
  cases hover with
  | @mk push c hrun =>
    obtain ⟨htalk, rfl⟩ := Prod.mk.inj hprogress
    have hfinished : push.conversation.talk = .finished result := by
      cases hstate : push.conversation.talk with
      | finished result' =>
        rw [hstate] at htalk
        rw [Progress.over.inj htalk]
      | resting | asking | silent =>
        rw [hstate] at htalk
        cases htalk
    refine ⟨_, hrun, hidle', ⟨hrest.underWay, hrest.paused, ?_⟩, rfl, hreports⟩
    exact List.forall_mem_append.mpr ⟨hrest.pushes, List.forall_mem_singleton.mpr ⟨_, hfinished⟩⟩

/-- A job is carried out by calls and hand-overs that come to their end. That a peer is cut off or
comes back, and what happens elsewhere, is entered in no book. -/
theorem Job.operates (hjob : Job i s more s') (h : s.Shows o reports) :
    ∃ o', Operation.Run i o o' ∧ s'.Shows o' (reports ++ more) := by
  have helsewhere : ∀ {c : Cluster n}, s.cluster.Uncounted i c →
      ∃ o', Operation.Run i o o' ∧ Shows { s with cluster := c } o' (reports ++ []) := by
    intro c hsame
    obtain ⟨hidle, hrest, hcluster, hreports⟩ := h
    have hstep : Operation.Step i o ⟨o.calls, o.pushes, c⟩ :=
      .elsewhere o.calls o.pushes (hcluster ▸ hsame)
    exact ⟨_, .single hstep, ⟨hidle.ready, hidle.blocked⟩,
      ⟨hrest.underWay, hrest.paused, hrest.pushes⟩, rfl, (List.append_nil reports).symm ▸ hreports⟩
  cases hjob with
  | tick htick => exact h.tick htick
  | reconcile hreconcile => exact h.reconcile hreconcile
  | push hvalues hpush => exact (List.append_nil reports).symm ▸ h.push hvalues hpush
  | reach peer cutOff => exact helsewhere ⟨rfl, rfl, rfl⟩
  | elsewhere hsame => exact helsewhere hsame

/-- Whatever a node is asked to do, in whatever order, is one run of its operation. -/
theorem Jobs.operates (hjobs : Jobs i s₀ reports s) (hidle : s₀.Idle) :
    ∃ o, Operation.Run i ⟨[], [], s₀.cluster⟩ o ∧ s.Shows o reports := by
  induction hjobs with
  | nil =>
    exact ⟨_, .refl, hidle, ⟨rfl, List.forall_mem_nil _, List.forall_mem_nil _⟩, rfl, .refl _⟩
  | concat _ hnext ih =>
    obtain ⟨o, hrun, hshows⟩ := ih
    obtain ⟨o', hrun', hshows'⟩ := hnext.operates hshows
    exact ⟨o', hrun.trans hrun', hshows'⟩

/-- Whatever jobs a node has been given, one after the other, since nothing was counted: it has
carried them out by calls and hand-overs that are over, whose reports are those that came back, and
what the layers have counted agrees with them. -/
theorem jobs_agree (hidle : s₀.Idle) (hfresh : s₀.cluster.ledger i = 0)
    (hscript : s₀.cluster.script = none)
    (hlimit : (s₀.cluster.reconciler i).config.maxValueSize < Wire.lengthBound)
    (hjobs : Jobs i s₀ reports s) : ∃ o, Operation.Run i ⟨[], [], s₀.cluster⟩ o ∧ o.IsOver ∧
      o.cluster = s.cluster ∧ o.reports.Perm reports ∧ o.Agrees i := by
  obtain ⟨o, hrun, hshows⟩ := hjobs.operates hidle
  have hsound := (Operation.sound_nil hfresh hscript hlimit).run hrun
  have hover := hshows.atRest.isOver hsound
  exact ⟨o, hrun, hover, hshows.cluster, hshows.reports, hsound.agrees hover⟩

end Schedule

/-! ### Two nodes with the same value -/

namespace Cluster

variable {i p : Fin n} {c : Cluster n} {peer : Peer} {key : Key} {value : ByteArray}

theorem reconciler_jot (c : Cluster n) (i : Fin n) (what : Note) :
    (c.jot i what).reconciler i = (c.reconciler i).record what := c.reconciler_set_self i _

/-- Of two nodes the one that does not own a location is its only replica. -/
theorem Steady.exists_replica {c : Cluster 2} {ids : Fin 2 → Id} {location : Id}
    (h : c.Steady ids {}) (hrank : ∀ i, rank ids location i = i.val) :
    ∃ peer, (c.recomputed 0).Reaches peer 1 ∧
      ((c.recomputed 0).replica 0).directory.replicas location
        ((c.recomputed 0).reconciler 0).factor = [peer] := by
  obtain ⟨hrecomputed, hfactor⟩ := h.recomputed 0
  obtain ⟨hreplicas, hids, hnodup, hmem⟩ := hrecomputed.targets_spec hfactor (hrank 0)
  have hsecond : ((c.recomputed 0).targets 0 location).map Prod.snd = [1] := by
    rw [← List.perm_singleton, List.perm_ext_iff_of_nodup hnodup (List.nodup_singleton 1)]
    intro q
    rw [hmem, Replicates, hrank, List.mem_singleton]
    show 1 ≤ q.val ∧ q.val ≤ 1 ↔ q = 1
    omega
  obtain ⟨⟨peer, q⟩, htargets, rfl⟩ := List.map_eq_singleton_iff.mp hsecond
  refine ⟨peer, hrecomputed.reaches (hids (peer, 1) (htargets ▸ List.mem_singleton_self _)), ?_⟩
  rw [hreplicas, htargets]
  rfl

/-- A value that a replica holds is found there at once: INFO is answered without checksums. -/
theorem alone_upToDate (hreach : c.Reaches peer p) (t : Terms)
    (hheld : (c.replica p).store.get? key = some value) :
    ∃ c', Alone i [.ok .upToDate] c' 0 (reconcileReplica t peer [(key, value)]) c ∧
      c'.reconciler i = ((c.reconciler i).record (.infoAnswered .same)).record .valueSettled := by
  have hturn : (c.replica p).turn c.network.nextTask
      (.received (.info key (.ofContent value) t.now)) =
        (.answered (.info .same t.now none),
          ((c.replica p).answerInfo key (.ofContent value) t.now).2) := by
    have hanswer : ((c.replica p).answerInfo key (.ofContent value) t.now).1 =
        .info .same t.now none := by
      rw [Replica.answerInfo, hheld, infoAnswer, if_pos rfl]
    rw [Replica.turn]
    simp only [hanswer]
  have hfits : Request.Fits (.info key (.ofContent value) t.now) := trivial
  obtain ⟨c₁, hsend, -, hsame⟩ := send_replied hreach hfits hturn
  rw [Response.arrived_of_fits (by rintro _ ⟨⟩)] at hsend
  refine ⟨(c₁.jot i (.infoAnswered .same)).jot i .valueSettled, ?_, ?_⟩
  · rw [reconcileReplica, reconcileOnto, Exchange.run_reconcileValue]
    exact .answered hsend (.note (.note (.done 0)))
  · rw [reconciler_jot, reconciler_jot, reconciler, hsame]
    rfl

theorem run_handOver_single (t : Terms) (hsize : value.size ≤ t.limit) :
    (handOver t peer [(key, value)]).run =
      Exchange.sendingRows t peer 0 [[(key, value)]] := by
  rw [Exchange.run_handOver t peer (List.forall_mem_singleton.mpr hsize)]
  rfl

/-- A single value is handed over to a replica that can store it at once. It goes out in a row of
its own, and the node counts one value copied and one location handed over. -/
theorem alone_handedOver (hreach : c.Reaches peer p) (t : Terms)
    (hlimit : t.limit < Wire.lengthBound) (hsize : value.size ≤ t.limit)
    (hsound : (c.replica p).locks.Sound c.network.nextTask)
    (hfree : (c.replica p).locks.on key = [])
    (hfaultless : ∀ tried key value, (c.replica p).store.fault tried key value = none) :
    ∃ c', Alone i (.ok 1) c' 0 (handOver t peer [(key, value)]).run c ∧
      c'.reconciler i = ((c.reconciler i).record
        (.copied (Entries.ofPairs [(key, value)]).totalBytes)).record .handedOver ∧
      c'.script = c.script ∧ ∀ q, q ≠ p → c'.replica q = c.replica q := by
  let q : Request := .copy (.ofPairs [(key, value)]) t.now
  have hanswer : ((c.replica p).serve c.network.nextTask q).1 = .copyAck 1 := by
    have houtcome := (c.replica p).copyOutcome_serve c.network.nextTask
      (.ofPairs [(key, value)]) t.now
    generalize hended : (c.replica p).serve c.network.nextTask q = ended
    rw [hended] at houtcome
    obtain ⟨response, r⟩ := ended
    cases houtcome with
    | complete => rw [Entries.size_single]; rfl
    | failed _ _ hfault => cases (hfaultless ..).symm.trans hfault
  have hturn := Replica.turn_copy_eq_serve (.ofPairs [(key, value)]) t.now hsound
    (by rw [Entries.toList_ofPairs_single]; exact List.forall_mem_singleton.mpr hfree)
  rw [hanswer] at hturn
  obtain ⟨c₁, hsend, hstill, hsame⟩ := send_replied hreach
    ((Exchange.covers_fits hlimit key value).copy hsize) hturn
  have hfits : Response.Fits (.copyAck 1) := trivial
  rw [Response.arrived_of_fits hfits] at hsend
  refine ⟨(c₁.jot i (.copied (Entries.ofPairs [(key, value)]).totalBytes)).jot i .handedOver,
    ?_, ?_, hstill.script, fun q hq => ?_⟩
  · rw [run_handOver_single t hsize]
    exact .answered hsend (.note (.note (.done 0)))
  · rw [reconciler_jot, reconciler_jot, reconciler, hsame]
    rfl
  · exact (hstill.replica q).trans (replica_served_of_ne _ _ _ hq)

/-- A hand-over of a single value to a peer that is cut off fails, and one failed request is
counted. -/
theorem alone_cutOff (h : c.CutOff peer) (t : Terms) (hsize : value.size ≤ t.limit) :
    ∃ c', Alone i (.error (.network (.unreachable peer.shortText))) c' 0
        (handOver t peer [(key, value)]).run c ∧
      c'.reconciler i = (c.reconciler i).record (.requestFailed .copy) := by
  obtain ⟨c₁, hsend, -, hsame⟩ := send_cutOff h (.copy (.ofPairs [(key, value)]) t.now)
  refine ⟨c₁.jot i (.requestFailed .copy), ?_, ?_⟩
  · rw [run_handOver_single t hsize]
    exact .answered hsend (.note (.done 0))
  · rw [reconciler_jot, reconciler, hsame]
    rfl

end Cluster

namespace Schedule

variable {key : Key} {value : ByteArray}

/-- What a node holds is what it has held before, if a tick of the first one has found the second
one up to date. -/
theorem held_tick_equalPair {report : TickReport} {c' : Cluster 2} {ids : Fin 2 → Id} {copies : Nat}
    (h : Cluster.Ticked ids copies 0 (.unequalPair key fun _ => value) report c') (q : Fin 2)
    (k : Key) : c'.held? q k = (Cluster.unequalPair key fun _ => value).held? q k := by
  by_cases hbrings : ∃ v, (Cluster.unequalPair key fun _ => value).Brings ids copies 0 q k v
  · obtain ⟨v, hbrings⟩ := hbrings
    obtain ⟨rfl, rfl⟩ := Cluster.eq_of_held_unequalPair key _ hbrings.held
    rw [h.brought q _ _ hbrings, Cluster.held_unequalPair, if_pos rfl]
  · exact h.kept q k (not_exists.mp hbrings)

/-- The first node ticks, and finds the second one up to date. Its report has one location with one
replica and one value. -/
theorem tick_equalPair (hsize : value.size ≤ 15 * 1024 * 1024 - 28)
    (hrank : ∀ i : Fin 2, rank (fun i => (Peer.numbered i).id) key.location i = i.val) :
    ∃ report s₁, (ofCluster (.unequalPair key fun _ => value)).tick 0 = .ok (some report, s₁) ∧
      report.locations = [{ location := key.location, replicas := 1, values := 1, upToDate := 1 }] ∧
      s₁.Idle ∧ s₁.cluster.Steady (fun i => (Peer.numbered i).id) {} ∧
      (s₁.cluster.replica 0).store.entries = .ofPairs [(key, value)] ∧
      (s₁.cluster.reconciler 0).tally = { infos := 1, upToDate := 1 } := by
  let c := Cluster.unequalPair key fun _ => value
  have hunmixed : Cluster.Unmixed fun _ => value := fun _ _ hne => absurd rfl hne
  have hsteady : c.Steady (fun i => (Peer.numbered i).id) {} :=
    Cluster.steady_unequalPair key _ (fun _ => hsize) hunmixed fun i => by
      rw [hrank, ← Fin.val_zero 2, Fin.val_inj]
  obtain ⟨report, s₁, htick, hidle, hticked, hsteady₁⟩ := tick_ends (idle_ofCluster c) hsteady 0
  obtain ⟨peer, hreach, hreplicas⟩ := hsteady.exists_replica hrank
  have hunder : ((c.recomputed 0).replica 0).store.entries.under key.location = [(key, value)] :=
    Entries.under_single key value
  have hheld : ((c.recomputed 0).replica 1).store.get? key = some value :=
    (Cluster.held_unequalPair key (fun _ => value) 1 key).trans (if_pos rfl)
  -- so a tick is the one conversation with it, which consists of one question
  let q := (c.recomputed 0).reconciler 0
  have hclaim :
      q.claim? key.location = some { q with inFlight := q.inFlight.insert key.location } := by
    rw [Reconciler.claim?, if_neg]
    rw [show q.inFlight = ∅ from (hsteady.recomputed 0).1.free 0]
    simp
  obtain ⟨c', halone, htally⟩ := Cluster.alone_upToDate (i := 0)
    (c := (c.recomputed 0).setReconciler 0 { q with inFlight := q.inFlight.insert key.location })
    ⟨hreach.script, hreach.reachable, hreach.registered⟩ (q.terms (c.recomputed 0).now) hheld
  rw [← hunder] at halone
  obtain ⟨c₁, hturn, hreconciler⟩ := turn_planned_alone hclaim hreplicas (by simp [hunder]) halone
  have hfixed : (c.reconciler 0).estimator.config.adaptive = false := hsteady.fixed
  have htick' := tick_alone (s := ofCluster c) hfixed rfl hturn
  obtain ⟨hreport, hs₁⟩ := Prod.mk.inj (Except.ok.inj (htick.symm.trans htick'))
  refine ⟨report, s₁, htick, ?_, hidle, hsteady₁, ?_, ?_⟩
  · rw [Option.some.inj hreport]
    rfl
  · exact Std.ExtTreeMap.ext_getElem? fun k => held_tick_equalPair hticked 0 k
  · rw [hs₁]
    show (c₁.reconciler 0).tally = _
    rw [hreconciler, Reconciler.unclaim, htally]
    rfl

/-- The first node ticks, hands the location over, and cannot do so once more because the second one
has been cut off. -/
theorem jobs_equalPair (key : Key) (value : ByteArray)
    (hsize : value.size ≤ 15 * 1024 * 1024 - 28)
    (hrank : ∀ i : Fin 2, rank (fun i => (Peer.numbered i).id) key.location i = i.val) :
    ∃ s, Jobs 0 (ofCluster (.unequalPair key fun _ => value))
        [{ location := key.location, replicas := 1, values := 1, upToDate := 1 }] s ∧
      (s.cluster.reconciler 0).tally =
        { infos := 1, copies := 1, upToDate := 1, bytesSent := value.size, pushes := 1 } := by
  let owner := Peer.numbered 1
  obtain ⟨report, s₁, htick, hreport, hidle₁, hsteady, hentries, htally₁⟩ :=
    tick_equalPair hsize hrank
  have hunder : (s₁.cluster.replica 0).store.entries.under key.location = [(key, value)] := by
    rw [hentries, Entries.under_single]
  let t := (s₁.cluster.reconciler 0).terms s₁.cluster.now
  have hlimit : t.limit = 15 * 1024 * 1024 :=
    congrArg ReplicationConfig.maxValueSize (hsteady.configs 0)
  have hbelow : t.limit < Wire.lengthBound := by
    rw [hlimit]
    decide
  have hallowed : value.size ≤ t.limit := by omega
  -- the hand-over
  obtain ⟨c₂, halone₂, hreconciler₂, hscript₂, hothers₂⟩ := Cluster.alone_handedOver (i := 0)
    (hsteady.reaches (p := owner) rfl) t hbelow hallowed (hsteady.locks 1)
    (hsteady.unclaimed 1 key) (hsteady.faultless 1)
  rw [← hunder] at halone₂
  have hpush₂ := push_alone halone₂
  -- the hand-over that fails
  let s₂ : Schedule 2 := { s₁ with cluster := c₂ }
  let s₃ := s₂.setUnreachable owner.id true
  have hunder₃ : (s₃.cluster.replica 0).store.entries.under key.location = [(key, value)] := by
    show (c₂.replica 0).store.entries.under key.location = _
    rw [hothers₂ 0 (by decide), hunder]
  have hcutOff : s₃.cluster.CutOff owner :=
    ⟨hscript₂.trans hsteady.script, Std.ExtTreeSet.contains_insert_self⟩
  let t₃ := (s₃.cluster.reconciler 0).terms s₃.cluster.now
  have hlimit₃ : t₃.limit = t.limit := by
    show (c₂.reconciler 0).config.maxValueSize = _
    rw [hreconciler₂]
    rfl
  obtain ⟨c₄, halone₄, hreconciler₄⟩ :=
    Cluster.alone_cutOff (i := 0) hcutOff t₃ (hlimit₃ ▸ hallowed)
  rw [← hunder₃] at halone₄
  have hpush₄ := push_alone halone₄
  refine ⟨{ s₃ with cluster := c₄ }, ?_, ?_⟩
  · have hone : 1 < Wire.lengthBound := by decide
    have hticked : Jobs 0 _ report.locations s₁ := .concat (.nil _) (.tick htick)
    have hhanded : Jobs 0 _ _ s₂ :=
      hticked.concat (.push ((congrArg List.length hunder).trans_lt hone) hpush₂)
    have hparted : Jobs 0 _ _ s₃ := hhanded.concat (.reach s₂ owner.id true)
    have hall :=
      hparted.concat (.push ((congrArg List.length hunder₃).trans_lt hone) hpush₄)
    rwa [List.append_nil, List.append_nil, List.append_nil, hreport] at hall
  · rw [hreconciler₄]
    show (c₂.reconciler 0).tally = _
    rw [hreconciler₂, Entries.totalBytes_single]
    show ((s₁.cluster.reconciler 0).tally.record (.copied value.size)).record .handedOver = _
    rw [htally₁]
    simp [SentTally.record]

end Schedule

/-! ### Any run -/

namespace Operation

variable {i : Fin n} {o : Operation n} {c₀ : Cluster n}

/-- However a node reconciles locations and hands locations over, and whichever peers are cut off
meanwhile: once nothing is under way, the figures of its reports add up; failures are in the
reports, but for the values that were left out of hand-overs; what it has counted is what was
answered; the network has listed the requests that were answered and those that failed; the meter
shows what the node has counted, and how many requests were answered; and each replica has counted
its requests and answers. -/
theorem books_agree (hfresh : c₀.ledger i = 0) (hscript : c₀.script = none)
    (hlimit : (c₀.reconciler i).config.maxValueSize < Wire.lengthBound)
    (hrun : Run i ⟨[], [], c₀⟩ o) (hover : o.IsOver) : o.Agrees i :=
  ((sound_nil hfresh hscript hlimit).run hrun).agrees hover

/-- A node finds in a tick that the other one holds the value that it owns. It hands the value over
nevertheless, and cannot do so once more because the other node has been cut off. -/
theorem books_agree_equalPair :
    let key : Key := ⟨.ofNat 1, .ofNat 2, .ofNat 3⟩
    let value : ByteArray := ⟨#[3, 7, 1, 2]⟩
    let c := Cluster.unequalPair key fun _ => value
    c.ledger 0 = 0 ∧ c.script = none ∧ (c.reconciler 0).config.maxValueSize < Wire.lengthBound ∧
      ∃ o, Run 0 ⟨[], [], c⟩ o ∧ o.IsOver ∧
        o.reports = [{ location := key.location, replicas := 1, values := 1, upToDate := 1 }] ∧
        (o.cluster.reconciler 0).tally =
          { infos := 1, copies := 1, upToDate := 1, bytesSent := 4, pushes := 1 } ∧
        o.Agrees 0 := by
  intro key value c
  have hledger : c.ledger 0 = 0 := by
    refine Ledger.ext rfl rfl rfl rfl (funext fun q => ?_) rfl
    match q with
    | 0 => rfl
    | 1 => rfl
  have hlimit : (c.reconciler 0).config.maxValueSize < Wire.lengthBound := by decide
  obtain ⟨s, hjobs, htally⟩ := Schedule.jobs_equalPair key value (by decide) (by decide)
  obtain ⟨o, hrun, hshows⟩ := hjobs.operates (Schedule.idle_ofCluster c)
  have hover := hshows.atRest.isOver ((sound_nil hledger rfl hlimit).run hrun)
  exact ⟨hledger, rfl, hlimit, o, hrun, hover, List.perm_singleton.mp hshows.reports,
    hshows.cluster ▸ htally, books_agree hledger rfl hlimit hrun hover⟩

end Operation

end DeltaMesh
