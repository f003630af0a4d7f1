import DeltaMesh.Proofs.Cluster.Agenda
import DeltaMesh.Proofs.Cluster.Completion
import DeltaMesh.Proofs.Cluster.HandOver
import DeltaMesh.Proofs.Cluster.Turns
import DeltaMesh.Proofs.Responsibility.Agreement
import DeltaMesh.Proofs.Schedule.Await

/-!
# Ticks in any order

In an `Undisturbed` cluster nothing but the tick goes on, and each peer is a node of its own. There
a tick comes to the same whatever the order of its steps is: as many locations at a time as there is
room for and all their conversations at once, or one location after the other and in it one replica
after the other (`Schedule.tick_agrees`). A schedule carries it out in one of these orders
(`Schedule.tick_completes`).
-/

namespace DeltaMesh

variable {n : Nat}

/-! ### Replicas -/

namespace Directory

variable {d : Directory} {p : Peer} {location : Id} {factor : Nat}

theorem ne_self_of_mem_replicas (h : p ∈ d.replicas location factor) : p.id ≠ d.self.id := by
  have hmem := (List.mem_filter.mp (List.mem_of_mem_take h)).2
  exact of_decide_eq_true hmem

/-- No two replicas of a location have the same id, so conversations about one location go to
different replicas. -/
theorem nodup_replicas (hentered : ∀ (id : Id) (p : Peer), d.others[id]? = some p → p.id = id)
    (location : Id) (factor : Nat) : ((d.replicas location factor).map Peer.id).Nodup := by
  have hothers : ((d.ranked location).filter fun p => p.id ≠ d.self.id).Perm
      (d.peers.filter fun p => p.id ≠ d.self.id) := by
    refine ((d.ranked_perm location).filter _).trans (.of_eq ?_)
    rw [members, List.filter_append, List.filter_singleton]
    simp
  have hpeers : ((d.peers.filter fun p => p.id ≠ d.self.id).map Peer.id).Nodup := by
    refine List.Nodup.sublist (List.filter_sublist.map Peer.id) ?_
    rw [map_id_peers hentered]
    exact Std.ExtTreeMap.nodup_keys
  refine ((hothers.map Peer.id).nodup_iff.mpr hpeers).sublist (List.Sublist.map Peer.id ?_)
  exact (List.take_sublist _ _).trans ((List.take_sublist _ _).filter _)

end Directory

/-! ### What a tick relies on -/

namespace Cluster

variable {c c₀ : Cluster n} {i j : Fin n} {p : Peer} {t : Tick n}

/-- Requests go over the network, where they reach a node under its own id. Storing never fails, no
request is under way, and node `i` has entered its peers under their ids. -/
structure Undisturbed (c : Cluster n) (i : Fin n) : Prop extends c.Calm where
  script : c.script = none
  registered : ∀ (id : Id) (q : Fin n), c.network.registered[id]? = some q →
    (c.replica q).directory.self.id = id
  entered : ∀ (id : Id) (p : Peer), (c.replica i).directory.others[id]? = some p → p.id = id
  faultless : ∀ q tried key value, (c.replica q).store.fault tried key value = none
  /-- Sizes are words of 64 bits. -/
  limit : (c.reconciler i).config.maxValueSize < UInt64.size

theorem Undisturbed.id_of_route (h : c.Undisturbed i) (hroute : c.route p = .ok j) :
    (c.replica j).directory.self.id = p.id := by
  rw [route] at hroute
  split at hroute
  case isTrue => cases hroute
  case isFalse =>
    cases hregistered : c.network.registered[p.id]? with
    | none =>
      rw [hregistered] at hroute
      cases hroute
    | some q =>
      rw [hregistered] at hroute
      obtain rfl := Except.ok.inj hroute
      exact h.registered p.id q hregistered

theorem Undisturbed.parted (h : c.Undisturbed i) (location : Id) : c.Parted i location where
  apart := by
    have hnodup := Directory.nodup_replicas h.entered location (c.reconciler i).factor
    refine (List.pairwise_map.mp hnodup).imp fun hne j hroute hroute' => hne ?_
    exact (h.id_of_route hroute).symm.trans (h.id_of_route hroute')
  others p hp hroute := Directory.ne_self_of_mem_replicas hp (h.id_of_route hroute).symm

/-- Node `i` begins a tick. -/
structure Begun (c : Cluster n) (i : Fin n) (t : Tick n) (c₀ : Cluster n) : Prop where
  network : c₀.network = c.network
  script : c₀.script = c.script
  config : (c₀.reconciler i).config = (c.reconciler i).config
  waiting : t.waiting = (c.replica i).tracker.responsible
  window : 0 < t.window
  shows : t.Shows c₀ (.start t.waiting c₀)

theorem begun_of_begin (h : Tick.begin i c = .ok (t, c₀)) : c.Begun i t c₀ := by
  obtain ⟨estimator, rfl, rfl⟩ := Tick.begin_eq_ok h
  have hself := c.reconciler_set_self i { c.reconciler i with estimator }
  exact ⟨rfl, rfl, (congrArg Reconciler.config hself).trans rfl, rfl,
    Nat.lt_of_lt_of_le Nat.one_pos (Nat.le_max_right _ _), ⟨rfl, .refl _, rfl, rfl⟩⟩

theorem Begun.replica (h : c.Begun i t c₀) (q : Fin n) : c₀.replica q = c.replica q := by
  rw [Cluster.replica, h.network, ← Cluster.replica]

theorem Undisturbed.begun (h : c.Undisturbed i) (hbegun : c.Begun i t c₀) : c₀.Undisturbed i where
  script := hbegun.script.trans h.script
  registered id q hq := by
    rw [hbegun.network] at hq
    rw [hbegun.replica]
    exact h.registered id q hq
  entered := by
    rw [hbegun.replica]
    exact h.entered
  faultless q := by
    rw [hbegun.replica]
    exact h.faultless q
  locks q := by
    rw [hbegun.replica, hbegun.network]
    exact h.locks q
  free q := by
    rw [hbegun.replica]
    exact h.free q
  limit := by
    rw [hbegun.config]
    exact h.limit

theorem Undisturbed.sound (h : c.Undisturbed i) (hbegun : c.Begun i t c₀) :
    Sweep.Sound c₀ i t.waiting where
  live := ⟨(h.begun hbegun).script, (h.begun hbegun).faultless, (h.begun hbegun).locks⟩
  limit := (h.begun hbegun).limit
  free q _ k _ := (h.begun hbegun).free q k
  parted := (h.begun hbegun).parted
  nodup := hbegun.waiting ▸ Tracker.nodup_responsible _

end Cluster

namespace Network

/-- A network of replicas keeps each of them and registers it under the id of its node. -/
theorem ofReplicas_spec (replicas : Vector Replica n) : (ofReplicas replicas).replicas = replicas ∧
    ∀ (id : Id) (q : Fin n), (ofReplicas replicas).registered[id]? = some q →
      (replicas.get q).directory.self.id = id := by
  suffices ∀ (numbers : List (Fin n)) (net : Network n), net.replicas = replicas →
      (∀ (id : Id) (q : Fin n), net.registered[id]? = some q →
        (replicas.get q).directory.self.id = id) →
      let after := numbers.foldl (fun net number =>
        net.register (replicas.get number).directory.self.id number) net
      after.replicas = replicas ∧ ∀ (id : Id) (q : Fin n), after.registered[id]? = some q →
        (replicas.get q).directory.self.id = id by
    refine this _ _ rfl fun id q hq => ?_
    rw [Std.ExtTreeMap.getElem?_empty] at hq
    cases hq
  intro numbers
  induction numbers with
  | nil => exact fun net hreplicas hregistered => ⟨hreplicas, hregistered⟩
  | cons number numbers ih =>
    intro net hreplicas hregistered
    refine ih _ hreplicas fun id q hq => ?_
    replace hq : (net.registered.insert _ number)[id]? = some q := hq
    rw [Std.ExtTreeMap.getElem?_insert] at hq
    split at hq
    case isTrue heq =>
      obtain rfl := Option.some.inj hq
      exact Std.LawfulEqOrd.eq_of_compare heq
    case isFalse => exact hregistered id q hq

end Network

/-- A cluster whose nodes have done nothing yet is undisturbed: nobody holds a lock, no write fails,
and nothing is claimed. -/
theorem Cluster.undisturbed_ofNodes {replicas : Vector Replica n}
    {reconcilers : Vector Reconciler n} {i : Fin n} {node : Peer}
    (hentered : (replicas.get i).directory.WellEntered node)
    (hfaultless : ∀ q tried key value, (replicas.get q).store.fault tried key value = none)
    (hlocks : ∀ q, (replicas.get q).locks = .empty)
    (hlimit : (reconcilers.get i).config.maxValueSize < UInt64.size) :
    (ofNodes replicas reconcilers none).Undisturbed i := by
  obtain ⟨hreplicas, hregistered⟩ := Network.ofReplicas_spec replicas
  have hreplica : ∀ q, (ofNodes replicas reconcilers none).replica q = replicas.get q := fun q =>
    congrArg (Vector.get · q) hreplicas
  refine ⟨⟨fun q => ?_, fun q k => ?_⟩, rfl, fun id q hq => ?_, ?_, fun q => ?_, hlimit⟩
  · rw [hreplica, hlocks]
    exact .empty _
  · rw [hreplica, hlocks]
    rfl
  · rw [hreplica]
    exact hregistered id q hq
  · rw [hreplica]
    exact hentered.entered
  · rw [hreplica]
    exact hfaultless q

/-! ### What a schedule does -/

namespace Schedule

variable {σ ρ : Type} {s s' : Schedule n} {i : Fin n} {t : Tick n} {c₀ : Cluster n}

/-- What holds of the beginning holds of the end, if every turn and every computation keeps it. -/
theorem awaitWithin_over {turn : σ → Cluster n → Progress σ ρ × Cluster n}
    {waits : σ → List (Wait n)} {P : Progress σ ρ × Cluster n → Prop}
    (hturn : ∀ state c, P (.underWay state, c) → P (turn state c))
    (hwork : ∀ state c due, P (.underWay state, c) → P (.underWay state, c.workedUntil due))
    (turns : Nat) {progress : Progress σ ρ} {result : ρ} (hidle : s.Idle)
    (hstart : P (progress, s.cluster))
    (h : awaitWithin turn waits turns progress s = (some result, s')) :
    P (.over result, s'.cluster) := by
  induction turns generalizing progress s with
  | zero =>
    rcases progress with state | result'
    · cases h
    · obtain ⟨hresult, rfl⟩ := Prod.mk.inj h
      exact Option.some.inj hresult ▸ hstart
  | succ turns ih =>
    rcases progress with state | result'
    · rw [awaitWithin, hidle.step?] at h
      dsimp only at h
      split at h
      case isTrue =>
        exact ih (s := { s with cluster := (turn state s.cluster).2 }) ⟨hidle.ready, hidle.blocked⟩
          (hturn state s.cluster hstart) h
      case isFalse =>
        split at h
        case h_1 due hdue =>
          exact ih (s := s.workUntil due) ⟨hidle.ready, hidle.blocked⟩
            (hwork state s.cluster due hstart) h
        case h_2 => cases h
    · obtain ⟨hresult, rfl⟩ := Prod.mk.inj h
      exact Option.some.inj hresult ▸ hstart

/-- A tick that a schedule carries out goes on in one of the orders in which its steps may follow
one another. -/
theorem tick_completes {report : TickReport} (hidle : s.Idle)
    (hbegin : Tick.begin i s.cluster = .ok (t, c₀)) (h : s.tick i = .ok (some report, s')) :
    ∃ w, Sweep.Completes i ⟨t.window, False⟩ (.start t.waiting c₀) w ∧ w.cluster = s'.cluster ∧
      report.locations = (w.ended.map (·.report)).reverse := by
  have hbegun := Cluster.begun_of_begin hbegin
  have hturn : ∀ (t' : Tick n) c,
      Tick.Follows i t.window (.start t.waiting c₀) (.underWay t', c) →
        Tick.Follows i t.window (.start t.waiting c₀) (t'.turn i c) :=
    fun t' c => Tick.Follows.turn hbegun.window
  rw [tick, hbegin] at h
  have hover := awaitWithin_over hturn (fun t' c due hfollows => hfollows.workedUntil due) _
    (s := { s with cluster := (t.turn i c₀).2 }) ⟨hidle.ready, hidle.blocked⟩
    (hturn t c₀ (.underWay .refl hbegun.shows rfl)) (Except.ok.inj h)
  generalize hcluster : s'.cluster = c at hover
  cases hover with
  | finished hcompletes hreports => exact ⟨_, hcompletes, rfl, hreports⟩

end Schedule

/-! ### Any order -/

/-- Two ticks of node `i` have come to the same: the nodes have the same values and
responsibilities, the locations have reported the same, and node `i` has counted the same. -/
structure Sweep.Agrees (i : Fin n) (s s' : Sweep n) : Prop where
  entries : ∀ q, (s.cluster.replica q).store.entries = (s'.cluster.replica q).store.entries
  owned : ∀ q, (s.cluster.replica q).tracker.owned = (s'.cluster.replica q).tracker.owned
  reports : (s.ended.map (·.report)).Perm (s'.ended.map (·.report))
  tally : (s.cluster.reconciler i).tally = (s'.cluster.reconciler i).tally

theorem Sweep.Foreseen.agrees {c₀ : Cluster n} {i : Fin n} {locations : List Id} {s s' : Sweep n}
    (h : Foreseen c₀ i locations s) (h' : Foreseen c₀ i locations s') : s.Agrees i s' := by
  obtain ⟨hended, htally, hshelves⟩ := h.unique h'
  exact ⟨fun q => (Replica.eq_of_shelves (hshelves q)).1,
    fun q => (Replica.eq_of_shelves (hshelves q)).2, hended.map _, htally⟩

namespace Schedule

/-- A tick can always be gone on with until it is over, in whatever order its steps were taken, and
also location by location and replica by replica. Its order makes no difference to what it comes to.
A tick that a schedule carries out is one in such an order. -/
theorem tick_agrees (s : Schedule n) (i : Fin n) (hidle : s.Idle) (hquiet : s.cluster.Undisturbed i)
    {t : Tick n} {c₀ : Cluster n} (hbegin : Tick.begin i s.cluster = .ok (t, c₀)) :
    (∃ alone, Sweep.Completes i ⟨1, True⟩ (.start t.waiting c₀) alone) ∧
      (∀ w, Sweep.Run i ⟨t.window, False⟩ (.start t.waiting c₀) w →
        ∃ w', Sweep.Completes i ⟨t.window, False⟩ w w') ∧
      (∀ w alone, Sweep.Completes i ⟨t.window, False⟩ (.start t.waiting c₀) w →
        Sweep.Completes i ⟨1, True⟩ (.start t.waiting c₀) alone → w.Agrees i alone) ∧
      ∀ report s', s.tick i = .ok (some report, s') →
        ∃ w, Sweep.Completes i ⟨t.window, False⟩ (.start t.waiting c₀) w ∧
          w.cluster = s'.cluster ∧ report.locations = (w.ended.map (·.report)).reverse := by
  have hbegun := Cluster.begun_of_begin hbegin
  have hsound := hquiet.sound hbegun
  have hstart := Sweep.stands_start hsound
  refine ⟨hstart.completed hsound Nat.one_pos, fun w hrun => ?_, fun w alone hw halone => ?_,
    fun report s' htick => tick_completes hidle hbegin htick⟩
  · obtain ⟨sent, hstands⟩ := hstart.run hsound hrun
    exact hstands.completed hsound hbegun.window
  · exact (hw.foreseen hsound).agrees (halone.foreseen hsound)

end Schedule

/-! ### Three nodes -/

/-- Three nodes that know each other. The first one is responsible for two locations and holds a
value under each; the third one holds another value under the first of the keys. -/
def Cluster.trio (first second : Key) (value base : ByteArray) : Cluster 3 :=
  let config : ReplicationConfig := {}
  let asking : Reconciler :=
    ⟨config, ⟨config.factor, 0, config.factor.initialAvailability, 0, 0⟩, {}, ∅⟩
  let peer (number : Nat) : Peer := ⟨.ofNat number, .v4 [127, 0, 0, 1] (.ofNat (7000 + number))⟩
  let holding (pairs : List (Key × ByteArray)) : Store :=
    { Store.empty with entries := .ofPairs pairs }
  .ofNodes
    #v[{ Replica.ofStore (.ofPeers (peer 1) [peer 2, peer 3])
            (holding [(first, value), (second, value)]) config.blockSize with
        tracker := (Tracker.empty.announce (.gained first.location)).announce
          (.gained second.location) },
      .ofStore (.ofPeers (peer 2) [peer 1, peer 3]) .empty config.blockSize,
      .ofStore (.ofPeers (peer 3) [peer 1, peer 2]) (holding [(first, base)]) config.blockSize]
    #v[asking, asking, asking] none

theorem Cluster.undisturbed_trio (first second : Key) (value base : ByteArray) :
    (Cluster.trio first second value base).Undisturbed 0 :=
  undisturbed_ofNodes (Directory.wellEntered_ofPeers _ _)
    (fun
      | 0, _, _, _ => rfl
      | 1, _, _, _ => rfl
      | 2, _, _, _ => rfl)
    (fun
      | 0 => rfl
      | 1 => rfl
      | 2 => rfl)
    (by decide)

/-- The tick of a node with two locations and two replicas for each. One location after the other it
comes to the same as with as many at a time as the node lets in. -/
theorem Schedule.tick_agrees_trio :
    let first : Key := ⟨.ofNat 4, .ofNat 5, .ofNat 6⟩
    let second : Key := ⟨.ofNat 7, .ofNat 8, .ofNat 9⟩
    let s := Schedule.ofCluster (.trio first second ⟨#[3, 7, 1, 2]⟩ ⟨#[5, 1, 1, 2]⟩)
    s.Idle ∧ s.cluster.Undisturbed 0 ∧ ∃ t c₀, Tick.begin 0 s.cluster = .ok (t, c₀) ∧
      t.waiting = [first.location, second.location] ∧ t.factor = 2 ∧
      ∃ alone w, Sweep.Completes 0 ⟨1, True⟩ (.start t.waiting c₀) alone ∧
        Sweep.Completes 0 ⟨t.window, False⟩ (.start t.waiting c₀) w ∧ w.Agrees 0 alone := by
  intro first second s
  have hidle : s.Idle := Schedule.idle_ofCluster _
  have hquiet : s.cluster.Undisturbed 0 := Cluster.undisturbed_trio ..
  obtain ⟨t, c₀, hbegin, hwaiting, hfactor⟩ : ∃ t c₀, Tick.begin 0 s.cluster = .ok (t, c₀) ∧
      t.waiting = [first.location, second.location] ∧ t.factor = 2 := ⟨_, _, rfl, rfl, rfl⟩
  obtain ⟨⟨alone, halone⟩, hgoesOn, hagrees, -⟩ :=
    Schedule.tick_agrees s 0 hidle hquiet hbegin
  obtain ⟨w, hw⟩ := hgoesOn _ .refl
  exact ⟨hidle, hquiet, t, c₀, hbegin, hwaiting, hfactor, alone, w, halone, hw,
    hagrees w alone hw halone⟩

end DeltaMesh
