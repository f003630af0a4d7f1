import DeltaMesh.Cluster.Talk
import DeltaMesh.Proofs.Message.Frame
import DeltaMesh.Proofs.Replica.Turn

/-!
# One request of a conversation

What a cluster keeps while conversations bring values to replicas (`Cluster.Moves`): all that has to
do with other replicas, or with other keys. A request to a replica that can be reached takes its
turn there at once; either the conversation goes on from the answer (`converse_of_answered`,
`resume_of_answered`) or it rests until a computation ends (`converse_of_computing`).
-/

namespace DeltaMesh

/-- What the asking side of a node keeps until it begins another tick. -/
structure Reconciler.Keeps (q q' : Reconciler) : Prop where
  config : q'.config = q.config
  factorConfig : q'.estimator.config = q.estimator.config
  factor : q'.factor = q.factor

namespace Reconciler.Keeps

theorem refl (q : Reconciler) : Keeps q q := ⟨rfl, rfl, rfl⟩

theorem trans {q q' q'' : Reconciler} (h : Keeps q q') (h' : Keeps q' q'') : Keeps q q'' :=
  ⟨h'.config.trans h.config, h'.factorConfig.trans h.factorConfig, h'.factor.trans h.factor⟩

end Reconciler.Keeps

/-- Watching results moves the estimate, but the factor in force stays until the next `recompute`.
-/
theorem Estimator.update_keeps (e : Estimator) :
    e.update.config = e.config ∧ e.update.current = e.current := by
  rw [update]
  split
  · exact ⟨rfl, rfl⟩
  · dsimp only
    split <;> exact ⟨rfl, rfl⟩

/-- Whatever is noted, the settings and the factor in force stay; only the tally and the estimate
move. -/
theorem Reconciler.keeps_record (q : Reconciler) (what : Note) : q.Keeps (q.record what) := by
  cases what with
  | valueSettled =>
    have h := Estimator.update_keeps { q.estimator with samples := q.estimator.samples + 1 }
    exact ⟨rfl, h.1, h.2⟩
  | valueFailed transient =>
    cases transient with
    | true =>
      have h := Estimator.update_keeps { q.estimator with
        samples := q.estimator.samples + 1
        failures := q.estimator.failures + 1 }
      exact ⟨rfl, h.1, h.2⟩
    | false => exact ⟨rfl, rfl, rfl⟩
  | infoAnswered holding => cases holding <;> exact ⟨rfl, rfl, rfl⟩
  | _ => exact ⟨rfl, rfl, rfl⟩

namespace Cluster

variable {n : Nat}

/-- The locks of all replicas are in order. -/
def LocksSound (c : Cluster n) : Prop := ∀ q, (c.replica q).locks.Sound c.network.nextTask

/-- Requests to the peer are served by replica `p`. -/
structure Reaches (c : Cluster n) (peer : Peer) (p : Fin n) : Prop where
  script : c.script = none
  reachable : c.network.unreachable.contains peer.id = false
  registered : c.network.registered[peer.id]? = some p

/-- How a cluster changes while its nodes lead conversations about the keys `T q` at each replica
`q`. Requests other than INFO are sent only under the condition `D`. -/
structure Changes (T : Fin n → Key → Prop) (D : Prop) (c c' : Cluster n) : Prop where
  replica : ∀ q, (c.replica q).Moves (T q) (c'.replica q)
  reconciler : ∀ j, (c.reconciler j).Keeps (c'.reconciler j)
  registered : c'.network.registered = c.network.registered
  unreachable : c'.network.unreachable = c.network.unreachable
  script : c'.script = c.script
  now : c'.now = c.now
  clock : c.work.now ≤ c'.work.now
  sent : ∃ new, c'.network.sent = new ++ c.network.sent ∧ ∀ q ∈ new, q.kind ≠ .info → D
  locks : c.LocksSound → c'.LocksSound

/-- How a cluster changes while no node claims a location or gives one back. -/
structure Moves (T : Fin n → Key → Prop) (D : Prop) (c c' : Cluster n) : Prop
    extends Changes T D c c' where
  inFlight : ∀ j, (c'.reconciler j).inFlight = (c.reconciler j).inFlight

/-- The keys `K` at replica `p`. -/
def corner (p : Fin n) (K : Key → Prop) (q : Fin n) (k : Key) : Prop := q = p ∧ K k

variable {T T' : Fin n → Key → Prop} {D D' : Prop} {c c' c'' : Cluster n}

namespace Changes

theorem refl (T : Fin n → Key → Prop) (D : Prop) (c : Cluster n) : Changes T D c c where
  replica q := .refl (T q) _
  reconciler _ := .refl _
  registered := rfl
  unreachable := rfl
  script := rfl
  now := rfl
  clock := Nat.le_refl _
  sent := ⟨[], rfl, fun _ h => nomatch h⟩
  locks := id

theorem trans (h : Changes T D c c') (h' : Changes T D c' c'') : Changes T D c c'' where
  replica q := (h.replica q).trans (h'.replica q)
  reconciler j := (h.reconciler j).trans (h'.reconciler j)
  registered := h'.registered.trans h.registered
  unreachable := h'.unreachable.trans h.unreachable
  script := h'.script.trans h.script
  now := h'.now.trans h.now
  clock := Nat.le_trans h.clock h'.clock
  sent := by
    obtain ⟨new, hsent, hnew⟩ := h.sent
    obtain ⟨new', hsent', hnew'⟩ := h'.sent
    refine ⟨new' ++ new, by rw [hsent', hsent, List.append_assoc], fun q hq => ?_⟩
    exact (List.mem_append.mp hq).elim (hnew' q) (hnew q)
  locks := h'.locks ∘ h.locks

theorem mono (h : Changes T D c c') (hT : ∀ q k, T q k → T' q k) (hD : D → D') :
    Changes T' D' c c' :=
  { h with
    replica := fun q => (h.replica q).mono (hT q)
    sent := by
      obtain ⟨new, hsent, hnew⟩ := h.sent
      exact ⟨new, hsent, fun q hq hkind => hD (hnew q hq hkind)⟩ }

/-- Who can be reached stays so, because nothing in a conversation registers or cuts off a peer. -/
theorem reaches (h : Changes T D c c') {peer : Peer} {q : Fin n} (hreach : c.Reaches peer q) :
    c'.Reaches peer q where
  script := h.script.trans hreach.script
  reachable := by rw [h.unreachable]; exact hreach.reachable
  registered := by rw [h.registered]; exact hreach.registered

/-- A computation that has ended stays so. -/
theorem permits_work (h : Changes T D c c') {due : Nat} (hdue : c.permits (.work due) = true) :
    c'.permits (.work due) = true :=
  decide_eq_true (Nat.le_trans (of_decide_eq_true hdue) h.clock)

end Changes

namespace Moves

theorem refl (T : Fin n → Key → Prop) (D : Prop) (c : Cluster n) : Moves T D c c :=
  { Changes.refl T D c with inFlight := fun _ => rfl }

theorem trans (h : Moves T D c c') (h' : Moves T D c' c'') : Moves T D c c'' :=
  { h.toChanges.trans h'.toChanges with
    inFlight := fun j => (h'.inFlight j).trans (h.inFlight j) }

theorem mono (h : Moves T D c c') (hT : ∀ q k, T q k → T' q k) (hD : D → D') :
    Moves T' D' c c' :=
  { h.toChanges.mono hT hD with inFlight := h.inFlight }

end Moves

variable (c : Cluster n) (p : Fin n) {K : Key → Prop}

/-! ### Single operations -/

/-- Replica `p` has served something and is `r` now. -/
def served (r : Replica) : Cluster n :=
  { c with
    network := c.network.setReplica p r
    meter := c.meter.observe (c.replica p).tracker.log.size r.tracker }

theorem replica_served_self (r : Replica) : (c.served p r).replica p = r :=
  Vector.getElem_set_self ..

theorem replica_served_of_ne (r : Replica) {q : Fin n} (h : q ≠ p) :
    (c.served p r).replica q = c.replica q :=
  Vector.getElem_set_ne p.isLt q.isLt fun heq => h (Fin.ext heq.symm)

/-- Serving a request at replica `p` moves the cluster only where the replica itself moved. -/
theorem moves_served {r : Replica} (hmoves : (c.replica p).Moves K r)
    (hsound : r.locks.Sound c.network.nextTask) : Moves (corner p K) D c (c.served p r) :=
  { Moves.refl (corner p K) D c with
    replica := fun q => by
      by_cases hq : q = p
      · subst hq
        rw [replica_served_self]
        exact hmoves.mono fun k hk => ⟨rfl, hk⟩
      · rw [replica_served_of_ne c p r hq]
        exact .refl _ _
    locks := fun hlocks q => by
      by_cases hq : q = p
      · subst hq
        rw [replica_served_self]
        exact hsound
      · rw [replica_served_of_ne c p r hq]
        exact hlocks q }

theorem reconciler_set_self (i : Fin n) (q : Reconciler) :
    (c.setReconciler i q).reconciler i = q :=
  Vector.getElem_set_self ..

theorem reconciler_set_of_ne {i j : Fin n} (q : Reconciler) (h : j ≠ i) :
    (c.setReconciler i q).reconciler j = c.reconciler j :=
  Vector.getElem_set_ne i.isLt j.isLt fun heq => h (Fin.ext heq.symm)

/-- Writing back the asking side is no change to any replica. -/
theorem changes_setReconciler (i : Fin n) {q : Reconciler} (hq : (c.reconciler i).Keeps q) :
    Changes T D c (c.setReconciler i q) :=
  { Changes.refl T D c with
    reconciler := fun j => by
      by_cases hj : j = i
      · subst hj
        rw [reconciler_set_self]
        exact hq
      · rw [reconciler_set_of_ne c q hj]
        exact .refl _ }

theorem moves_jot (i : Fin n) (what : Note) : Moves T D c (c.jot i what) :=
  { c.changes_setReconciler i (Reconciler.keeps_record _ what) with
    inFlight := fun j => by
      show ((c.setReconciler i ((c.reconciler i).record what)).reconciler j).inFlight = _
      by_cases hj : j = i
      · subst hj
        rw [reconciler_set_self]
        rfl
      · rw [reconciler_set_of_ne c _ hj] }

/-- Beginning a computation sets a thread to work and touches no store. -/
theorem moves_beginWork (effort : Nat) : Moves T D c (c.beginWork effort).2 :=
  { Moves.refl T D c with }

/-- A cluster whose computations have gone on until `due`. -/
def workedUntil (due : Nat) : Cluster n := { c with work := c.work.passUntil due }

/-- While computations go on no store, lock or tracker changes; only the clock does. -/
theorem moves_workedUntil (due : Nat) : Moves T D c (c.workedUntil due) :=
  { Moves.refl T D c with clock := Nat.le_max_left c.work.now due }

/-- A computation has ended once the clock has passed its end. -/
theorem permits_workedUntil (due : Nat) : (c.workedUntil due).permits (.work due) = true :=
  decide_eq_true (Nat.le_max_right c.work.now due)

/-! ### A request and its turns -/

/-- A request has gone out. -/
def sending (peer : Peer) (q : Request) : Cluster n :=
  { c with network := { c.network with
      sent := ⟨peer.id, q.kind, q.frame.size⟩ :: c.network.sent
      nextTask := c.network.nextTask + 1 } }

/-- Before a request is served it is only listed, and it takes a task number of its own. -/
theorem moves_sending (peer : Peer) {q : Request} (hD : q.kind ≠ .info → D) :
    Moves T D c (c.sending peer q) :=
  { Moves.refl T D c with
    sent := ⟨[⟨peer.id, q.kind, q.frame.size⟩], rfl, by simpa using hD⟩
    locks := fun hlocks q => (hlocks q).mono (Nat.le_succ _) }

variable {c p}

/-- A request to a peer that can be reached arrives as it was sent: a frame whose lengths fit is
read back, so the delivery holds the very request. -/
theorem send_eq {peer : Peer} (hreach : c.Reaches peer p) {q : Request} (hq : q.Fits) :
    c.send peer q = (c.sending peer q).deliver
      ⟨p, c.network.nextTask, q.kind, q.frame.size, .received q⟩ := by
  obtain ⟨hscript, hreachable, hregistered⟩ := hreach
  obtain ⟨network, reconcilers, meter, script, now, work⟩ := c
  subst hscript
  show sendOver _ peer q = _
  rw [sendOver, Network.dispatch]
  simp only [hreachable, Bool.false_eq_true, if_false, hregistered, Network.handIn,
    Request.ofFrame_frame hq]
  rfl

variable {d : Delivery n} {r : Replica}

/-- If the replica answers in this turn, the response comes back as it was given, and the cluster
has moved as far as the replica has. -/
theorem deliver_of_answered {response : Response} (hresponse : response.Fits)
    (hturn : (c.replica d.replica).turn d.task d.service = (.answered response, r))
    (hmoves : (c.replica d.replica).Moves K r) (hsound : r.locks.Sound c.network.nextTask) :
    ∃ c', c.deliver d = (.back (.ok response), c') ∧ c.Moves (corner d.replica K) D c' ∧
      c'.replica d.replica = r := by
  have hframe : (Response.ofFrame response.frame).mapError Network.unreadable = .ok response := by
    rw [Response.ofFrame_frame hresponse]
    rfl
  rw [deliver, onReplica, hturn]
  simp only [Network.takeBack, hframe]
  exact ⟨_, rfl, { c.moves_served d.replica hmoves hsound with }, c.replica_served_self d.replica r⟩

/-- If the replica leaves something to compute, the delivery stays under way until that computation
ends; the rest of the service is kept with it. -/
theorem deliver_of_computing {effort : Nat} {rest : Service}
    (hturn : (c.replica d.replica).turn d.task d.service = (.computing effort rest, r))
    (hmoves : (c.replica d.replica).Moves K r) (hsound : r.locks.Sound c.network.nextTask) :
    ∃ c' due, c.deliver d = (.underWay { d with service := rest } (.work due), c') ∧
      c.Moves (corner d.replica K) D c' ∧ c'.replica d.replica = r := by
  rw [deliver, onReplica, hturn]
  simp only [beginWork]
  exact ⟨_, _, rfl, { c.moves_served d.replica hmoves hsound with },
    c.replica_served_self d.replica r⟩

/-- A request is listed when it is sent, not again when it is served. -/
theorem sent_deliver (c : Cluster n) (d : Delivery n) :
    (c.deliver d).2.network.sent = c.network.sent := by
  rw [deliver, onReplica]
  rcases (c.replica d.replica).turn d.task d.service with ⟨response | _ | _, r⟩ <;> rfl

variable {α : Type} (i : Fin n) {peer : Peer} {q : Request} (next : Reply → Exchange α)

/-- A request that is answered in its first turn is back at once, is listed, and has moved nothing
but its replica. -/
theorem send_of_answered (hreach : c.Reaches peer p) (hq : q.Fits) (hD : q.kind ≠ .info → D)
    (response : Response) (hresponse : response.Fits)
    (hturn : (c.replica p).turn c.network.nextTask (.received q) = (.answered response, r))
    (hmoves : (c.replica p).Moves K r) (hsound : r.locks.Sound (c.network.nextTask + 1)) :
    ∃ c', c.send peer q = (.back (.ok response), c') ∧ c.Moves (corner p K) D c' ∧
      c'.replica p = r ∧
      c'.network.sent = ⟨peer.id, q.kind, q.frame.size⟩ :: c.network.sent := by
  obtain ⟨c', hdeliver, hmoves', hreplica⟩ := deliver_of_answered (c := c.sending peer q) (D := D)
    (d := ⟨p, c.network.nextTask, q.kind, q.frame.size, .received q⟩) hresponse hturn hmoves hsound
  refine ⟨c', (send_eq hreach hq).trans hdeliver, (c.moves_sending peer hD).trans hmoves', hreplica,
    ?_⟩
  have hsent := sent_deliver (c.sending peer q)
    ⟨p, c.network.nextTask, q.kind, q.frame.size, .received q⟩
  rw [hdeliver] at hsent
  exact hsent

/-- A conversation goes on from the answer. -/
theorem converse_of_answered (hreach : c.Reaches peer p) (hq : q.Fits) (hD : q.kind ≠ .info → D)
    (response : Response) (hresponse : response.Fits)
    (hturn : (c.replica p).turn c.network.nextTask (.received q) = (.answered response, r))
    (hmoves : (c.replica p).Moves K r) (hsound : r.locks.Sound (c.network.nextTask + 1)) :
    ∃ c', converse i (.ask peer q next) c = converse i (next (.ok response)) c' ∧
      c.Moves (corner p K) D c' ∧ c'.replica p = r := by
  obtain ⟨c', hsend, hmoves', hreplica, -⟩ :=
    send_of_answered hreach hq hD response hresponse hturn hmoves hsound
  refine ⟨c', ?_, hmoves', hreplica⟩
  rw [converse, hsend]

/-- A request that leaves something to compute makes the conversation rest until that computation
has ended. -/
theorem converse_of_computing (hreach : c.Reaches peer p) (hq : q.Fits) (hD : q.kind ≠ .info → D)
    {effort : Nat} {rest : Service}
    (hturn : (c.replica p).turn c.network.nextTask (.received q) = (.computing effort rest, r))
    (hmoves : (c.replica p).Moves K r) (hsound : r.locks.Sound (c.network.nextTask + 1)) :
    ∃ c' due, converse i (.ask peer q next) c =
        (.asking ⟨p, c.network.nextTask, q.kind, q.frame.size, rest⟩ (.work due) next, c') ∧
      c.Moves (corner p K) D c' ∧ c'.replica p = r := by
  obtain ⟨c', due, hdeliver, hmoves', hreplica⟩ :=
    deliver_of_computing (c := c.sending peer q) (D := D)
      (d := ⟨p, c.network.nextTask, q.kind, q.frame.size, .received q⟩) hturn hmoves hsound
  refine ⟨c', due, ?_, (c.moves_sending peer hD).trans hmoves', hreplica⟩
  rw [converse, send_eq hreach hq, hdeliver]

/-- A request that is answered after a computation. -/
theorem resume_of_answered {wait : Wait n} (hwait : c.permits wait = true) (response : Response)
    (hresponse : response.Fits)
    (hturn : (c.replica d.replica).turn d.task d.service = (.answered response, r))
    (hmoves : (c.replica d.replica).Moves K r) (hsound : r.locks.Sound c.network.nextTask) :
    ∃ c', c.resume i (.asking d wait next) = converse i (next (.ok response)) c' ∧
      c.Moves (corner d.replica K) D c' ∧ c'.replica d.replica = r := by
  obtain ⟨c', hdeliver, hmoves', hreplica⟩ :=
    deliver_of_answered (D := D) hresponse hturn hmoves hsound
  refine ⟨c', ?_, hmoves', hreplica⟩
  rw [resume, if_pos hwait, hdeliver]

end Cluster

end DeltaMesh
