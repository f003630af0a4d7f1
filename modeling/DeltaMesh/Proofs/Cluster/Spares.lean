import DeltaMesh.Proofs.Cluster.Tick
import DeltaMesh.Proofs.Exchange.Sends
import DeltaMesh.Proofs.Replica.Spares

/-!
# What a node does not bring to others

As long as the conversations of a node write under some locations only, nothing is stored at any
node under another one, and no node becomes or ceases to be responsible for it (`Cluster.Spares`).
A turn of a conversation keeps to its locations (`Cluster.spares_resume`), a turn of a
reconciliation to its location (`Reconciliation.spares_turn`), and a turn of a tick to the locations
that the tick began with (`Tick.spares_turn`).
-/

namespace DeltaMesh

variable {n : Nat} {L : Id → Prop} {α σ ρ : Type}

/-- A request arrives as it was sent, and writes under the locations `L` only. -/
def Request.Lands (L : Id → Prop) (q : Request) : Prop := q.Fits ∧ q.Within L

/-- What is left of a request after a turn writes under the locations `L` only. -/
def Passage.Within (L : Id → Prop) : Passage n → Prop
  | .underWay d _ => d.service.Within L
  | .back _ | .lost => True

/-- What is left of a conversation writes under the locations `L` only. -/
def Talk.Within (L : Id → Prop) : Talk n α → Prop
  | .resting _ next => next.Sends (Request.Lands L)
  | .asking d _ next => d.service.Within L ∧ ∀ reply, (next reply).Sends (Request.Lands L)
  | .silent | .finished _ => True

/-- The same for a reconciliation. -/
def Reconciliation.Within (L : Id → Prop) : Reconciliation n → Prop
  | .planned location => L location
  | .talking _ talks => ∀ talk ∈ talks, talk.Within L

/-- The same for a tick. -/
structure Tick.Within (L : Id → Prop) (t : Tick n) : Prop where
  waiting : ∀ location ∈ t.waiting, L location
  ready : ∀ r ∈ t.ready, r.Within L
  blocked : ∀ r ∈ t.blocked, r.Within L

/-- What is under way after a turn is like this. -/
def Progress.Leaves (P : σ → Prop) : Progress σ ρ → Prop
  | .underWay state => P state
  | .over _ => True

/-- A request that fits is handed in as it was sent, if it is handed in; if not, no replica hears of
it. -/
theorem Network.dispatch_spec (net : Network n) (peer : Peer) {q : Request} (hq : q.Fits) :
    (net.dispatch peer q).2.replicas = net.replicas ∧
      ∀ d, (net.dispatch peer q).1 = .ok d → d.service = .received q := by
  rw [dispatch]
  dsimp only
  split
  case isTrue => exact ⟨rfl, fun d h => by cases h⟩
  case isFalse =>
    cases net.registered[peer.id]? with
    | none => exact ⟨rfl, fun d h => by cases h⟩
    | some p =>
      dsimp only [handIn]
      rw [Request.ofFrame_frame hq]
      refine ⟨rfl, fun d h => ?_⟩
      obtain rfl := Except.ok.inj h
      rfl

namespace Cluster

/-- Nothing has changed outside of the locations `L` at any node. -/
structure Spares (L : Id → Prop) (c c' : Cluster n) : Prop where
  replica : ∀ q, (c.replica q).Spares L (c'.replica q)
  config : ∀ j, (c'.reconciler j).config = (c.reconciler j).config

namespace Spares

variable {c c' c'' : Cluster n}

theorem refl (L : Id → Prop) (c : Cluster n) : Spares L c c := ⟨fun _ => .refl L _, fun _ => rfl⟩

theorem trans (h : Spares L c c') (h' : Spares L c' c'') : Spares L c c'' where
  replica q := (h.replica q).trans (h'.replica q)
  config j := (h'.config j).trans (h.config j)

theorem mono {L' : Id → Prop} (h : Spares L c c') (hL : ∀ location, L location → L' location) :
    Spares L' c c' := ⟨fun q => (h.replica q).mono hL, h.config⟩

end Spares

section

variable (c : Cluster n)

/-- A replica that spares some locations makes the cluster spare them. -/
theorem spares_served {p : Fin n} {r : Replica} (h : (c.replica p).Spares L r) :
    c.Spares L (c.served p r) where
  replica q := by
    by_cases hq : q = p
    · subst hq
      rw [replica_served_self]
      exact h
    · rw [replica_served_of_ne c p r hq]
      exact .refl L _
  config _ := rfl

theorem spares_setReconciler {i : Fin n} {q : Reconciler}
    (hq : q.config = (c.reconciler i).config) : c.Spares L (c.setReconciler i q) where
  replica _ := .refl L _
  config j := by
    by_cases hj : j = i
    · subst hj
      rw [reconciler_set_self, hq]
    · rw [reconciler_set_of_ne c q hj]

theorem spares_jot (i : Fin n) (what : Note) : c.Spares L (c.jot i what) := by
  have h := c.spares_setReconciler (L := L) (i := i) (q := (c.reconciler i).record what) rfl
  exact ⟨h.replica, h.config⟩

end

/-! ### A request -/

variable {c : Cluster n} {i : Fin n}

/-- A request that lands under certain locations leaves all others alone, also while it is under
way. -/
theorem spares_deliver {d : Delivery n} (h : d.service.Within L) :
    c.Spares L (c.deliver d).2 ∧ (c.deliver d).1.Within L := by
  have hturn := Replica.spares_turn (r := c.replica d.replica) d.task h
  rw [deliver, onReplica]
  generalize (c.replica d.replica).turn d.task d.service = ended at hturn ⊢
  obtain ⟨response | ⟨effort, rest⟩ | rest, r⟩ := ended
  all_goals have hserved := c.spares_served hturn.1
  · exact ⟨⟨hserved.replica, hserved.config⟩, trivial⟩
  · exact ⟨⟨hserved.replica, hserved.config⟩, hturn.2⟩
  · exact ⟨⟨hserved.replica, hserved.config⟩, hturn.2⟩

/-- A request that goes out changes no replica. -/
theorem spares_network {network : Network n} (h : network.replicas = c.network.replicas) :
    c.Spares L { c with network } where
  replica q := by
    rw [replica, replica, h]
    exact .refl L _
  config _ := rfl

/-- Sending such a request over the network spares all other locations. -/
theorem spares_sendOver (peer : Peer) {q : Request} (h : q.Lands L) :
    c.Spares L (c.sendOver peer q).2 ∧ (c.sendOver peer q).1.Within L := by
  obtain ⟨hreplicas, hservice⟩ := c.network.dispatch_spec peer h.1
  rw [sendOver]
  generalize c.network.dispatch peer q = dispatched at hreplicas hservice ⊢
  obtain ⟨why | d, network⟩ := dispatched
  · exact ⟨spares_network hreplicas, trivial⟩
  · have hwithin : d.service.Within L := by
      rw [hservice d rfl]
      exact h.2
    have hdelivered := spares_deliver (c := { c with network }) hwithin
    exact ⟨(spares_network hreplicas).trans hdelivered.1, hdelivered.2⟩

/-- Sending such a request spares all other locations, over the network as well as to a script. -/
theorem spares_send (peer : Peer) {q : Request} (h : q.Lands L) :
    c.Spares L (c.send peer q).2 ∧ (c.send peer q).1.Within L := by
  obtain ⟨network, reconcilers, meter, _ | script, now, work⟩ := c
  · exact spares_sendOver peer h
  · rw [send]
    generalize script.request peer q = answered
    obtain ⟨reply?, script'⟩ := answered
    refine ⟨⟨fun _ => .refl L _, fun _ => rfl⟩, ?_⟩
    cases reply? <;> exact trivial

/-! ### A conversation -/

/-- A conversation all of whose requests land under certain locations spares the others as far as it
goes in this turn, and what is left of it does so later. -/
theorem spares_converse {x : Exchange α} (hx : x.Sends (Request.Lands L)) :
    c.Spares L (converse i x c).2 ∧ (converse i x c).1.Within L := by
  induction x generalizing c with
  | done result => exact ⟨.refl L c, trivial⟩
  | note what next ih =>
    have hnext := ih (c := c.jot i what) hx
    exact ⟨(c.spares_jot i what).trans hnext.1, hnext.2⟩
  | compute effort next ih => exact ⟨⟨fun _ => .refl L _, fun _ => rfl⟩, hx⟩
  | ask peer q next ih =>
    obtain ⟨hq, hnext⟩ := hx
    have hsent := spares_send (c := c) peer hq
    rw [converse]
    generalize c.send peer q = sent at hsent ⊢
    obtain ⟨reply | ⟨d, wait⟩ | _, c'⟩ := sent
    · have hrest := ih reply (c := c') (hnext reply)
      exact ⟨hsent.1.trans hrest.1, hrest.2⟩
    · exact ⟨hsent.1, hsent.2, hnext⟩
    · exact ⟨hsent.1, trivial⟩

/-- A turn of a conversation that lands under some locations spares all others, whatever it rested
at. -/
theorem spares_resume {talk : Talk n α} (h : talk.Within L) :
    c.Spares L (c.resume i talk).2 ∧ (c.resume i talk).1.Within L := by
  rcases talk with ⟨wait, next⟩ | ⟨d, wait, next⟩ | _ | result
  · rw [resume]
    split
    case isTrue => exact spares_converse h
    case isFalse => exact ⟨.refl L c, h⟩
  · rw [resume]
    split
    case isTrue =>
      obtain ⟨hservice, hnext⟩ := h
      have hdelivered := spares_deliver (c := c) hservice
      generalize c.deliver d = delivered at hdelivered ⊢
      obtain ⟨reply | ⟨d', wait'⟩ | _, c'⟩ := delivered
      · have hrest := spares_converse (c := c') (i := i) (hnext reply)
        exact ⟨hdelivered.1.trans hrest.1, hrest.2⟩
      · exact ⟨hdelivered.1, hdelivered.2, hnext⟩
      · exact ⟨hdelivered.1, trivial⟩
    case isFalse => exact ⟨.refl L c, h⟩
  · exact ⟨.refl L c, trivial⟩
  · exact ⟨.refl L c, trivial⟩

end Cluster

/-! ### The reconciliation of a location -/

/-- What brings a value under one of the locations to a replica arrives as it was sent. -/
theorem covers_lands {t : Terms} {key : Key} (value : ByteArray) (hkey : L key.location)
    (hlimit : t.limit < Wire.lengthBound) : Exchange.Covers (Request.Lands L) t key value where
  info := ⟨trivial, trivial⟩
  copy hsize := by
    rw [Request.Lands, Request.Fits, Request.Within, Entries.toList_ofPairs_single]
    refine ⟨⟨(by decide : 1 < Wire.lengthBound), fun p hp => ?_⟩, fun p hp => ?_⟩
    · rw [List.mem_singleton.mp hp]
      exact Nat.lt_of_le_of_lt hsize hlimit
    · rw [List.mem_singleton.mp hp]
      exact hkey
  sync _ hsize := ⟨Nat.lt_of_le_of_lt hsize hlimit, hkey⟩

namespace Reconciliation

variable {c : Cluster n} {i : Fin n} {location : Id}

/-- The conversations of a reconciliation take their turns one after the other. -/
theorem spares_turnTalks {talks : List (Talk n (List ValueResult))}
    (h : ∀ talk ∈ talks, talk.Within L) :
    c.Spares L (turnTalks i talks c).2 ∧ ∀ talk ∈ (turnTalks i talks c).1, talk.Within L := by
  induction talks generalizing c with
  | nil => exact ⟨.refl L c, h⟩
  | cons talk talks ih =>
    obtain ⟨htalk, htalks⟩ := List.forall_mem_cons.mp h
    have hfirst := Cluster.spares_resume (c := c) (i := i) htalk
    have hrest := ih (c := (c.resume i talk).2) htalks
    exact ⟨hfirst.1.trans hrest.1, List.forall_mem_cons.mpr ⟨hfirst.2, hrest.2⟩⟩

theorem spares_carryOn (location : Id) {talks : List (Talk n (List ValueResult))}
    (h : ∀ talk ∈ talks, talk.Within L) : c.Spares L (carryOn i location talks c).2 ∧
      (carryOn i location talks c).1.Leaves (Reconciliation.Within L) := by
  have hturned := spares_turnTalks (c := c) (i := i) h
  rw [carryOn]
  generalize turnTalks i talks c = turned at hturned ⊢
  obtain ⟨talks', c'⟩ := turned
  dsimp only at hturned ⊢
  cases results? talks' with
  | none => exact hturned
  | some results =>
    have hgiven := c'.spares_setReconciler (L := L) (i := i)
      (q := (c'.reconciler i).unclaim location) rfl
    exact ⟨hturned.1.trans ⟨hgiven.replica, hgiven.config⟩, trivial⟩

/-- A tick is about the locations that the node is responsible for as it begins. A location that it
becomes responsible for later has to wait for the next tick. -/
theorem spares_begin (hlocation : L location)
    (hlimit : (c.reconciler i).config.maxValueSize < Wire.lengthBound) :
    c.Spares L (begin i location c).2 ∧
      (begin i location c).1.Leaves (Reconciliation.Within L) := by
  rw [begin, Reconciler.claim?]
  split
  case h_1 => exact ⟨.refl L c, trivial⟩
  case h_2 q hclaim =>
    have hconfig : q.config = (c.reconciler i).config := by
      split at hclaim
      case isTrue => cases hclaim
      case isFalse =>
        obtain rfl := Option.some.inj hclaim
        rfl
    dsimp only
    split
    case isTrue => exact ⟨.refl L c, trivial⟩
    case isFalse =>
      have htalks : ∀ talk ∈ ((c.replica i).directory.replicas location q.factor).map fun p =>
          (Talk.ofExchange (reconcileReplica (q.terms c.now) p
            ((c.replica i).store.entries.under location)) : Talk n (List ValueResult)),
          talk.Within L := by
        intro talk hmem
        obtain ⟨p, -, rfl⟩ := List.mem_map.mp hmem
        refine Exchange.sends_reconcileReplica _ p fun pair hpair => covers_lands pair.2 ?_ ?_
        · exact (Entries.mem_under.mp hpair).1 ▸ hlocation
        · show q.config.maxValueSize < Wire.lengthBound
          rw [hconfig]
          exact hlimit
      have hcarried := spares_carryOn (c := c.setReconciler i q) (i := i) location
        htalks
      exact ⟨(c.spares_setReconciler hconfig).trans hcarried.1, hcarried.2⟩

/-- A turn of a reconciliation spares what lies outside its location. -/
theorem spares_turn {r : Reconciliation n} (h : r.Within L)
    (hlimit : (c.reconciler i).config.maxValueSize < Wire.lengthBound) :
    c.Spares L (r.turn i c).2 ∧ (r.turn i c).1.Leaves (Reconciliation.Within L) := by
  rcases r with location | ⟨location, talks⟩
  · exact spares_begin h hlimit
  · exact spares_carryOn location h

end Reconciliation

/-! ### A tick -/

namespace Tick

variable {c : Cluster n} {i : Fin n} {t : Tick n}

theorem Within.letIn (h : t.Within L) : t.letIn.Within L where
  waiting _ hmem := h.waiting _ (List.mem_of_mem_drop hmem)
  ready r hmem := by
    rcases List.mem_append.mp hmem with hready | htaken
    · exact h.ready r hready
    · obtain ⟨location, hlocation, rfl⟩ := List.mem_map.mp htaken
      exact h.waiting location (List.mem_of_mem_take hlocation)
  blocked := h.blocked

theorem Within.settle (h : t.Within L) {p : Progress (Reconciliation n) LocationReport}
    (hp : p.Leaves (Reconciliation.Within L)) : (t.settle p).Within L := by
  rcases p with r | report
  · exact ⟨h.waiting, h.ready, List.forall_mem_append.mpr
      ⟨h.blocked, List.forall_mem_singleton.mpr hp⟩⟩
  · exact ⟨h.waiting, h.ready, h.blocked⟩

/-- The locations of a tick get turns until none can go on; each of them spares what lies outside
the tick. The limit on sizes stays in force throughout. -/
theorem spares_run (i : Fin n) (t : Tick n) (c : Cluster n) (h : t.Within L)
    (hlimit : (c.reconciler i).config.maxValueSize < Wire.lengthBound) :
    c.Spares L (t.run i c).2 ∧ (t.run i c).1.Within L := by
  induction t, c using Tick.run.induct i with
  | case1 t c hnil =>
    rw [run_of_nil hnil]
    exact ⟨.refl L c, h.letIn⟩
  | case2 t c r line hline hlt progress c' hturn ih =>
    have hready := h.letIn.ready
    rw [hline] at hready
    obtain ⟨hr, hline'⟩ := List.forall_mem_cons.mp hready
    have hfirst := Reconciliation.spares_turn (c := c) (i := i) hr hlimit
    rw [run_of_cons hline, hturn]
    rw [hturn] at hfirst
    have hleft : { t.letIn with ready := line }.Within L :=
      ⟨h.letIn.waiting, hline', h.letIn.blocked⟩
    have hsettled := hleft.settle hfirst.2
    have hrest := ih hsettled (hfirst.1.config i ▸ hlimit)
    exact ⟨hfirst.1.trans hrest.1, hrest.2⟩

/-- A turn of a tick spares what lies outside the locations of the tick. -/
theorem spares_turn (h : t.Within L)
    (hlimit : (c.reconciler i).config.maxValueSize < Wire.lengthBound) :
    c.Spares L (t.turn i c).2 ∧ (t.turn i c).1.Leaves (Tick.Within L) := by
  have hwoken : ({ t with
      ready := t.ready ++ (t.blocked.partition (canGoOn c)).1
      blocked := (t.blocked.partition (canGoOn c)).2 } : Tick n).Within L := by
    rw [List.partition_eq_filter_filter]
    refine ⟨h.waiting, List.forall_mem_append.mpr ⟨h.ready, fun r hr => ?_⟩, fun r hr => ?_⟩
    · exact h.blocked r (List.mem_of_mem_filter hr)
    · exact h.blocked r (List.mem_of_mem_filter hr)
  have hrun := spares_run i _ c hwoken hlimit
  rw [turn]
  refine ⟨hrun.1, ?_⟩
  dsimp only
  split
  case isTrue => exact trivial
  case isFalse => exact hrun.2

/-- A tick is about the locations that the node is responsible for as it begins. -/
theorem spares_begin {c' : Cluster n} (h : Tick.begin i c = .ok (t, c')) :
    c.Spares (· ∈ (c.replica i).tracker.owned) c' ∧
      t.Within (· ∈ (c.replica i).tracker.owned) := by
  rw [Tick.begin] at h
  cases hq : (c.reconciler i).recompute (c.replica i).directory.size with
  | error why =>
    rw [hq] at h
    cases h
  | ok q =>
    rw [hq] at h
    obtain ⟨rfl, rfl⟩ := Prod.mk.inj (Except.ok.inj h)
    have hconfig : q.config = (c.reconciler i).config := by
      rw [Reconciler.recompute] at hq
      cases hestimator : (c.reconciler i).estimator.recompute (c.replica i).directory.size with
      | error why =>
        rw [hestimator] at hq
        cases hq
      | ok estimator =>
        rw [hestimator] at hq
        obtain rfl := Except.ok.inj hq
        rfl
    have hset := c.spares_setReconciler (L := (· ∈ (c.replica i).tracker.owned)) hconfig
    refine ⟨⟨hset.replica, hset.config⟩, ?_, List.forall_mem_nil _, List.forall_mem_nil _⟩
    exact fun location hlocation => Std.ExtTreeSet.mem_toList.mp hlocation

end Tick

end DeltaMesh
