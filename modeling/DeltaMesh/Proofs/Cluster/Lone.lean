import DeltaMesh.Proofs.Cluster.Account
import DeltaMesh.Proofs.Cluster.Scripted
import DeltaMesh.Proofs.Replica.Lone

/-!
# Conversations with a replica alone

A replica that serves nothing but one conversation answers it like any transport
(`Replica.transport`), so while nothing else goes on the conversation goes as its transcript says
(`Cluster.Asked.alone`). Whatever becomes of the frames of its responses, they show whether a value
is held or was stored (`Response.arrived_info`, `Response.arrived_failed`).
-/

namespace DeltaMesh

variable {n : Nat} {α : Type}

/-! ### What arrives of a response -/

namespace Response

/-- A response whose lengths fit arrives as it was sent. -/
theorem arrived_of_fits {response : Response} (h : response.Fits) :
    response.arrived = .ok response := by
  rw [arrived, ofFrame_frame h]
  rfl

theorem ofFrame_of_arrived {response response' : Response} (h : response.arrived = .ok response') :
    ofFrame response.frame = .ok response' := by
  rw [arrived] at h
  cases hframe : ofFrame response.frame with
  | error why =>
    rw [hframe] at h
    cases h
  | ok response'' =>
    rw [hframe] at h
    rw [Except.ok.inj h]

/-- A failure arrives as a failure, though perhaps with a shorter text if that is not well formed.
-/
theorem arrived_failed {reason : String} {response : Response}
    (h : (failed reason).arrived = .ok response) : ∃ reason', response = failed reason' := by
  have hnumber := number_of_ofFrame (ofFrame_of_arrived h)
  cases response with
  | failed reason' => exact ⟨reason', rfl⟩
  | info | copyAck | syncAck => cases hnumber

/-- The fifth byte of the frame tells what the replica holds. -/
theorem getElem?_frame_info (holding : Holding) (stamp : Int64) (checksums? : Option ByteArray) :
    (info holding stamp checksums?).frame.data.toList[4]? = some holding.number.toUInt8 := by
  rw [frame, ByteArray.append_assoc, ByteArray.toList_data_append]
  generalize (Wire.putI64 stamp ++ Wire.putOptional Wire.putBytes checksums?).data.toList = rest
  cases holding <;> rfl

/-- Whatever becomes of the checksums, an answer to INFO says what is held. A frame whose lengths do
not fit is read differently behind that place, but not before it. -/
theorem arrived_info {holding : Holding} {stamp : Int64} {checksums? : Option ByteArray}
    {response : Response} (h : (info holding stamp checksums?).arrived = .ok response) :
    ∃ stamp' checksums?', response = info holding stamp' checksums?' := by
  have hframe := ofFrame_of_arrived h
  have hnumber := number_of_ofFrame hframe
  cases response with
  | info holding' stamp' checksums?' =>
    obtain ⟨_, ⟨rfl, -⟩, rest, hrest⟩ := (ofFrame_eq_ok reads_response _ _).mp hframe
    have hfifth := congrArg (·[4]?) hrest
    have hlong : 4 < (info holding' stamp' checksums?').frame.data.toList.length :=
      (List.getElem?_eq_some_iff.mp (getElem?_frame_info holding' stamp' checksums?')).1
    simp only [List.getElem?_append_left hlong, getElem?_frame_info] at hfifth
    refine ⟨stamp', checksums?', ?_⟩
    cases holding <;> cases holding' <;> first | rfl | cases hfifth
  | copyAck | syncAck | failed => cases hnumber

end Response

/-- The replies of a replica that serves nothing but these requests, one after the other, the first
one as `task`. -/
def Replica.transport (r : Replica) (task : Nat) : Transport := fun asked =>
  match asked.getLast? with
  | none => .error (.timeout 0)
  | some (_, q) =>
    ((r.after task (asked.dropLast.map Prod.snd)).serve (task + asked.dropLast.length) q).1.arrived

/-- What a lone replica answers depends on the requests before, which are all it ever saw. -/
theorem Replica.transport_concat (r : Replica) (task : Nat) (asked : List (Peer × Request))
    (peer : Peer) (q : Request) : r.transport task (asked ++ [(peer, q)]) =
      ((r.after task (asked.map Prod.snd)).serve (task + asked.length) q).1.arrived := by
  simp [transport]

namespace Cluster

variable {c₀ c c' c₁ : Cluster n} {peer : Peer} {p : Fin n}

/-! ### What one request changes -/

/-- Nothing has happened but that something was computed or counted. -/
structure Still (c c' : Cluster n) : Prop where
  replica : ∀ j, c'.replica j = c.replica j
  registered : c'.network.registered = c.network.registered
  unreachable : c'.network.unreachable = c.network.unreachable
  sent : c'.network.sent = c.network.sent
  nextTask : c'.network.nextTask = c.network.nextTask
  script : c'.script = c.script

theorem still_jot (c : Cluster n) (i : Fin n) (what : Note) : Still c (c.jot i what) :=
  ⟨fun _ => rfl, rfl, rfl, rfl, rfl, rfl⟩

/-- While something is computed only time passes. -/
theorem still_compute (c : Cluster n) (effort due : Nat) :
    Still c ((c.beginWork effort).2.workedUntil due) :=
  ⟨fun _ => rfl, rfl, rfl, rfl, rfl, rfl⟩

/-- What a replica serves in between does not matter to those who look at the other replicas. -/
theorem Still.served {r : Replica} (h : Still (c.served p r) c₁) (r' : Replica) :
    Still (c.served p r') (c₁.served p r') :=
  { h with
    replica := fun j => by
      by_cases hj : j = p
      · subst hj
        rw [replica_served_self, replica_served_self]
      · rw [replica_served_of_ne _ _ _ hj, h.replica, replica_served_of_ne _ _ _ hj,
          replica_served_of_ne _ _ _ hj] }

theorem Still.trans (h : Still c c') (h' : Still c' c₁) : Still c c₁ where
  replica j := (h'.replica j).trans (h.replica j)
  registered := h'.registered.trans h.registered
  unreachable := h'.unreachable.trans h.unreachable
  sent := h'.sent.trans h.sent
  nextTask := h'.nextTask.trans h.nextTask
  script := h'.script.trans h.script

/-- A request that is answered in its first turn is back at once, and only the replica that served
it has changed. -/
theorem deliver_replied {d : Delivery n} {response : Response} {r : Replica}
    (hturn : (c.replica d.replica).turn d.task d.service = (.answered response, r)) :
    ∃ c', c.deliver d = (.back response.arrived, c') ∧ Still (c.served d.replica r) c' ∧
      c'.reconcilers = c.reconcilers := by
  rw [deliver, onReplica, hturn]
  exact ⟨_, rfl, ⟨fun _ => rfl, rfl, rfl, rfl, rfl, rfl⟩, rfl⟩

/-- A request that is answered in its first turn changes no asking side. -/
theorem send_replied (hreach : c.Reaches peer p) {q : Request} (hq : q.Fits) {response : Response}
    {r : Replica} (hturn : (c.replica p).turn c.network.nextTask (.received q) =
      (.answered response, r)) :
    ∃ c', c.send peer q = (.back response.arrived, c') ∧
      Still ((c.sending peer q).served p r) c' ∧ c'.reconcilers = c.reconcilers := by
  rw [send_eq hreach hq]
  exact deliver_replied (c := c.sending peer q)
    (d := ⟨p, c.network.nextTask, q.kind, q.frame.size, .received q⟩) hturn

theorem deliver_rests {d : Delivery n} {effort : Nat} {rest : Service} {r : Replica}
    (hturn : (c.replica d.replica).turn d.task d.service = (.computing effort rest, r)) :
    ∃ due c', c.deliver d = (.underWay { d with service := rest } (.work due), c') ∧
      Still (c.served d.replica r) (c'.workedUntil due) := by
  rw [deliver, onReplica, hturn]
  exact ⟨_, _, rfl, fun _ => rfl, rfl, rfl, rfl, rfl, rfl⟩

/-- A request that waits for no lock is sent, served and answered, perhaps after one stop for a
computation. In either case the conversation goes on from what the replica answers when it serves
the request as a whole. -/
theorem alone_ask (hreach : c.Reaches peer p) {q : Request} (hq : q.Fits)
    (hsound : (c.replica p).locks.Sound c.network.nextTask)
    (hfree : ∀ k ∈ Replica.keysOf q, (c.replica p).locks.on k = []) :
    ∃ c₁, Still ((c.sending peer q).served p ((c.replica p).serve c.network.nextTask q).2) c₁ ∧
      ∀ (i : Fin n) (a : α) (c' : Cluster n) (m : Nat) (next : Reply → Exchange α),
        Alone i a c' m (next ((c.replica p).serve c.network.nextTask q).1.arrived) c₁ →
          Alone i a c' (m + 1) (.ask peer q next) c := by
  have hsend := send_eq hreach hq
  obtain hturn | ⟨effort, rest, r', hturn, hturn'⟩ := Replica.turns_serve q hsound hfree
  · obtain ⟨c₁, hdeliver, hstill, -⟩ := deliver_replied (c := c.sending peer q)
      (d := ⟨p, c.network.nextTask, q.kind, q.frame.size, .received q⟩) hturn
    refine ⟨c₁, hstill, fun i a c' m next hnext => ?_⟩
    exact .answered (hsend.trans hdeliver) (hnext.mono (Nat.le_succ m))
  · obtain ⟨due, c₂, hdeliver, hstill⟩ := deliver_rests (c := c.sending peer q)
      (d := ⟨p, c.network.nextTask, q.kind, q.frame.size, .received q⟩) hturn
    have hlater : (c₂.workedUntil due).replica p = r' :=
      (hstill.replica p).trans (replica_served_self ..)
    rw [← hlater] at hturn'
    obtain ⟨c₁, hdeliver', hstill', -⟩ := deliver_replied
      (d := ⟨p, c.network.nextTask, q.kind, q.frame.size, rest⟩) hturn'
    refine ⟨c₁, (hstill.served _).trans hstill', fun i a c' m next hnext => ?_⟩
    exact .awaited (hsend.trans hdeliver) hdeliver' hnext

/-! ### What a conversation changes -/

/-- Since the cluster was `c₀`, replica `p` has served the requests `asked`, one after the other,
and no one has done anything else. -/
structure Asked (c₀ : Cluster n) (peer : Peer) (p : Fin n) (asked : List (Peer × Request))
    (c : Cluster n) : Prop where
  reaches : c.Reaches peer p
  sound : c.LocksSound
  nextTask : c.network.nextTask = c₀.network.nextTask + asked.length
  replica : c.replica p = (c₀.replica p).after c₀.network.nextTask (asked.map Prod.snd)
  locks : ∀ k, (c.replica p).locks.on k = (c₀.replica p).locks.on k

namespace Asked

variable {asked : List (Peer × Request)}

theorem nil (hreach : c₀.Reaches peer p) (hsound : c₀.LocksSound) : c₀.Asked peer p [] c₀ :=
  ⟨hreach, hsound, rfl, rfl, fun _ => rfl⟩

theorem still (h : c₀.Asked peer p asked c) (hstill : Still c c') : c₀.Asked peer p asked c' where
  reaches :=
    { script := hstill.script.trans h.reaches.script
      reachable := hstill.unreachable ▸ h.reaches.reachable
      registered := hstill.registered ▸ h.reaches.registered }
  sound j := by
    rw [hstill.replica, hstill.nextTask]
    exact h.sound j
  nextTask := hstill.nextTask.trans h.nextTask
  replica := (hstill.replica p).trans h.replica
  locks k := by rw [hstill.replica, h.locks]

/-- One more request is served; the replica is then where all requests up to this one have brought
it. -/
theorem served (h : c₀.Asked peer p asked c) (q : Request)
    (hfree : ∀ k ∈ Replica.keysOf q, (c.replica p).locks.on k = []) :
    c₀.Asked peer p (asked ++ [(peer, q)])
      ((c.sending peer q).served p ((c.replica p).serve c.network.nextTask q).2) := by
  obtain ⟨hclaims, -, hsound⟩ := Replica.locks_serve q (h.sound p) hfree
  have hself := (c.sending peer q).replica_served_self p
    ((c.replica p).serve c.network.nextTask q).2
  refine ⟨⟨h.reaches.script, h.reaches.reachable, h.reaches.registered⟩, fun j => ?_, ?_, ?_,
    fun k => ?_⟩
  · by_cases hj : j = p
    · subst hj
      rw [hself]
      exact (hsound _ (h.sound j)).mono (Nat.le_succ _)
    · rw [replica_served_of_ne _ _ _ hj]
      exact (h.sound j).mono (Nat.le_succ _)
  · rw [List.length_append, List.length_singleton, ← Nat.add_assoc, ← h.nextTask]
    rfl
  · rw [hself, List.map_append, List.map_singleton, Replica.after_concat, List.length_map,
      ← h.replica, ← h.nextTask]
  · rw [hself, KeyLocks.on, hclaims]
    exact h.locks k

/-- A conversation with the replica goes as its transcript says, with a stop for each computation
and each request at most. -/
theorem alone (h : c₀.Asked peer p asked c) {x : Exchange α} {m : Nat} (hx : x.Computes m)
    (hasks : x.Asks peer) (hsends : x.Sends fun q => q.Fits ∧
      ∀ k ∈ Replica.keysOf q, (c₀.replica p).locks.on k = []) (i : Fin n) :
    let record := x.transcript ((c₀.replica p).transport c₀.network.nextTask) asked
    ∃ c', Alone i record.result c' (m + record.asked.length) x c ∧
      c₀.Asked peer p (asked ++ record.requests) c' := by
  intro record
  induction x generalizing m asked c with
  | done result => exact ⟨c, .done _, (List.append_nil asked).symm ▸ h⟩
  | note what next ih =>
    obtain ⟨c', halone, hasked⟩ := ih (h.still (c.still_jot i what)) hx hasks hsends
    exact ⟨c', .note halone, hasked⟩
  | compute effort next ih =>
    cases m with
    | zero => exact hx.elim
    | succ m =>
      obtain ⟨c', halone, hasked⟩ := ih (h.still (c.still_compute effort _)) hx hasks hsends
      refine ⟨c', ?_, hasked⟩
      rw [Nat.add_right_comm]
      exact .compute rfl halone
  | ask peer' q next ih =>
    obtain ⟨rfl, hasks⟩ := hasks
    obtain ⟨⟨hfits, hfree⟩, hsends⟩ := hsends
    have hfree' : ∀ k ∈ Replica.keysOf q, (c.replica p).locks.on k = [] := fun k hk =>
      (h.locks k).trans (hfree k hk)
    obtain ⟨c₁, hstill, hask⟩ := alone_ask (α := α) h.reaches hfits (h.sound p) hfree'
    have hreply : ((c.replica p).serve c.network.nextTask q).1.arrived =
        (c₀.replica p).transport c₀.network.nextTask (asked ++ [(peer', q)]) := by
      rw [Replica.transport_concat, ← h.replica, ← h.nextTask]
    rw [hreply] at hask
    obtain ⟨c', halone, hasked⟩ :=
      ih _ ((h.served q hfree').still hstill) (hx _) (hasks _) (hsends _)
    refine ⟨c', hask i _ c' _ next halone, ?_⟩
    rwa [List.append_assoc] at hasked

end Asked

end Cluster

end DeltaMesh
