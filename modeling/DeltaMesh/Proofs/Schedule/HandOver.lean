import DeltaMesh.Proofs.Cluster.HandOver
import DeltaMesh.Proofs.Responsibility.Tracker
import DeltaMesh.Proofs.Schedule.Bring

/-!
# Handing over after a change of membership

A node hears of changes of the membership and looks again at the locations that it stores
(`Cluster.regroup`). If it was responsible for all of them it announces exactly those that others
own now. Once it has reacted to the announcements, in any order, every such location is with its new
owner, and nothing else has changed (`Schedule.hand_over_complete`).
-/

namespace DeltaMesh

open Exchange (rowsOf)

variable {n : Nat}

/-! ### Changes of the membership -/

/-- A node hears of a change. -/
def Replica.learn (r : Replica) : MembershipChange → Replica
  | .joined p => (r.addPeer p).2
  | .left id => (r.removePeer id).2

/-- Hearing of a change touches the directory alone; locations are looked at again separately. -/
theorem Replica.learn_eq (r : Replica) (change : MembershipChange) :
    r.learn change = { r with directory := r.directory.learn change } := by
  cases change <;> rfl

/-- What was announced from `position` on. -/
def Tracker.announcedSince (t : Tracker) (position : Nat) : List Event := t.log.toList.drop position

namespace Cluster

/-- Node `i` hears of changes of the membership, and looks again at the locations that it stores. -/
def regroup (c : Cluster n) (i : Fin n) (changes : List MembershipChange) : Cluster n :=
  let c := changes.foldl (fun c change => (c.onReplica i fun r => ((), r.learn change)).2) c
  (c.onReplica i fun r => ((), r.reevaluate r.store.entries.locations)).2

/-- Only the serving side of node `i` may differ, and what the meter shows. -/
structure OnlyAt (i : Fin n) (c c' : Cluster n) : Prop where
  others : ∀ j, j ≠ i → c'.replica j = c.replica j
  reconcilers : c'.reconcilers = c.reconcilers
  nextTask : c'.network.nextTask = c.network.nextTask
  sent : c'.network.sent = c.network.sent

variable {i : Fin n} {c c' c'' : Cluster n} {α : Type}

theorem OnlyAt.trans (h : OnlyAt i c c') (h' : OnlyAt i c' c'') : OnlyAt i c c'' where
  others j hj := (h'.others j hj).trans (h.others j hj)
  reconcilers := h'.reconcilers.trans h.reconcilers
  nextTask := h'.nextTask.trans h.nextTask
  sent := h'.sent.trans h.sent

theorem onlyAt_onReplica (c : Cluster n) (i : Fin n) (act : Replica → α × Replica) :
    OnlyAt i c (c.onReplica i act).2 :=
  ⟨fun _ hj => c.replica_served_of_ne i _ hj, rfl, rfl, rfl⟩

theorem replica_onReplica (c : Cluster n) (i : Fin n) (act : Replica → α × Replica) :
    (c.onReplica i act).2.replica i = (act (c.replica i)).2 :=
  c.replica_served_self i _

/-- The members that node `i` knows after changes. -/
def learned (c : Cluster n) (i : Fin n) (changes : List MembershipChange) : Directory :=
  changes.foldl Directory.learn (c.replica i).directory

/-- What regrouping leaves behind at node `i`: a directory that has learned all changes, and a
tracker that has looked at every stored location with it. Nobody else is concerned. -/
theorem regroup_eq (c : Cluster n) (i : Fin n) (changes : List MembershipChange) :
    OnlyAt i c (c.regroup i changes) ∧
      (c.regroup i changes).replica i = { c.replica i with
        directory := c.learned i changes
        tracker := (c.replica i).tracker.reevaluate (c.learned i changes)
          (c.replica i).store.entries.locations } := by
  have hlearn : ∀ c : Cluster n, ∃ c',
      changes.foldl (fun c change => (c.onReplica i fun r => ((), r.learn change)).2) c = c' ∧
        OnlyAt i c c' ∧
        c'.replica i = { c.replica i with directory := c.learned i changes } := by
    induction changes with
    | nil => exact fun c => ⟨c, rfl, ⟨fun _ _ => rfl, rfl, rfl, rfl⟩, rfl⟩
    | cons change changes ih =>
      intro c
      obtain ⟨c', hfold, honly, hreplica⟩ := ih (c.onReplica i fun r => ((), r.learn change)).2
      refine ⟨c', hfold, (c.onlyAt_onReplica i _).trans honly, ?_⟩
      rw [hreplica, learned, replica_onReplica, Replica.learn_eq]
      rfl
  obtain ⟨c', hfold, honly, hreplica⟩ := hlearn c
  rw [regroup, hfold]
  refine ⟨honly.trans (c'.onlyAt_onReplica i _), ?_⟩
  rw [replica_onReplica, hreplica]
  rfl

end Cluster

/-! ### Single announcements -/

namespace Cluster

variable {P : Fin n → Key → Prop} {requests : List SentRequest} {c c' : Cluster n} {i : Fin n}

/-- A node that is sent nothing stores what it stored. -/
theorem Conveys.entries (h : c.Conveys P requests c') (hi : ∀ k, ¬P i k) :
    (c'.replica i).store.entries = (c.replica i).store.entries :=
  Std.ExtTreeMap.ext_getElem? fun k => (h.replica i).held k (hi k)

theorem Conveys.portable (h : c.Conveys P requests c') (hi : ∀ k, ¬P i k)
    (hportable : c.Portable i) : c'.Portable i where
  limit := by rw [(h.reconciler i).config]; exact hportable.limit
  sizes k value hvalue := by
    rw [(h.reconciler i).config]
    exact hportable.sizes k value (((h.replica i).held k (hi k)).symm.trans hvalue)
  count := by rw [h.entries hi]; exact hportable.count

/-- Node `j` is sent the value under the key when a node that stores these entries hands the
locations over to their owners. -/
def Pushed (c : Cluster n) (d : Directory) (e : Entries) (locations : List Id) (j : Fin n)
    (k : Key) : Prop :=
  k ∈ e ∧ k.location ∈ locations ∧ c.network.registered[(d.owner k.location).id]? = some j

/-- Node `i`, which stores these entries, has handed the locations over to their owners, each of
which is another node that receives them. -/
structure Discharges (i : Fin n) (d : Directory) (e : Entries) (locations : List Id)
    (c c' : Cluster n) : Prop where
  receives : ∀ location ∈ locations, ∃ q, q ≠ i ∧ c.Receives d (d.owner location) q
  conveys : c.Conveys (c.Pushed d e locations)
    (locations.flatMap fun location => requestsOf (d.owner location) (e.under location)).reverse c'
  supplied : ∀ location ∈ locations, ∀ q, c.Receives d (d.owner location) q →
    c'.Supplied q location (e.under location)

namespace Discharges

variable {d : Directory} {e : Entries} {locations : List Id}

/-- What is sent to a node is sent because it receives the location. -/
theorem receives_of_pushed (h : Discharges i d e locations c c') {q : Fin n} {k : Key}
    (hpushed : c.Pushed d e locations q k) : q ≠ i ∧ c.Receives d (d.owner k.location) q := by
  obtain ⟨-, hlocation, hregistered⟩ := hpushed
  obtain ⟨p, hpi, hp⟩ := h.receives k.location hlocation
  obtain rfl : p = q := Option.some.inj (hp.registered.symm.trans hregistered)
  exact ⟨hpi, hp⟩

/-- What the node is responsible for has been settled when it looked at its locations. -/
theorem tracker_eq (h : Discharges i d e locations c c') :
    (c'.replica i).tracker = (c.replica i).tracker :=
  (h.conveys.replica i).tracker fun _ hk => absurd rfl (h.receives_of_pushed hk).1

/-- Whatever is stored somewhere afterwards was stored there before, or was handed over. -/
theorem held_or_pushed (h : Discharges i d e locations c c') (q : Fin n) (k : Key) :
    (c'.replica q).store.get? k = (c.replica q).store.get? k ∨
      k ∈ e ∧ k.location ∈ locations ∧ c.Receives d (d.owner k.location) q := by
  by_cases hpushed : c.Pushed d e locations q k
  · exact .inr ⟨hpushed.1, hpushed.2.1, (h.receives_of_pushed hpushed).2⟩
  · exact .inl ((h.conveys.replica q).held k hpushed)

end Discharges

end Cluster

namespace Schedule

variable {s : Schedule n} {d : Directory} {owner : Peer} {q i : Fin n} {location : Id}
  {e : Entries}

theorem conveys_setTime (s : Schedule n) (P : Fin n → Key → Prop) (now : Nat) :
    s.cluster.Conveys P [] (s.setTime now).cluster :=
  { Cluster.Conveys.refl P s.cluster with }

/-- What a schedule comes to when node `q` is supplied with the values under a location. -/
structure HandsOver (s s' : Schedule n) (e : Entries) (location : Id) (owner : Peer) (q : Fin n) :
    Prop extends s'.Idle where
  conveys : s.cluster.Conveys (Cluster.corner q (· ∈ (e.under location).map Prod.fst))
    (requestsOf owner (e.under location)).reverse s'.cluster
  supplied : s'.cluster.Supplied q location (e.under location)

/-- Pushing a location to the peer that the directory names as its owner hands the location over.
This is the result about a single conversation, seen from an idle schedule. -/
theorem handsOver_push (hidle : s.Idle) (hcalm : s.cluster.Calm) (hportable : s.cluster.Portable i)
    (he : (s.cluster.replica i).store.entries = e) (h : s.cluster.Receives d owner q)
    (howner : (d.owner location).id = owner.id) :
    s.HandsOver (s.push i location owner).2 e location owner q := by
  subst he
  obtain ⟨c', total, hturn, hconveys, hsupplied⟩ :=
    s.cluster.turn_handOver i h hcalm howner hportable
  have hpush : (s.push i location owner).2 = { s with cluster := c' } := by
    rw [push, await, hturn]
    simp only [awaitWithin]
  rw [hpush]
  exact ⟨⟨hidle.ready, hidle.blocked⟩, hconveys, hsupplied⟩

/-- A node reacts to the loss of a location by handing it over, after a wait if the loss was
delayed. Nothing happens during the wait. -/
theorem handsOver_react (hidle : s.Idle) (hcalm : s.cluster.Calm)
    (hportable : s.cluster.Portable i) (he : (s.cluster.replica i).store.entries = e)
    (h : s.cluster.Receives d owner q) (howner : (d.owner location).id = owner.id)
    (delayed : Bool) :
    s.HandsOver (s.react i (.lost location owner delayed)) e location owner q := by
  obtain ⟨now, hwait⟩ :=
    hidle.wait_if delayed (min (s.cluster.reconciler i).config.maxPushJitter 1)
  have htime := s.conveys_setTime (fun _ _ => False) now
  have hpushed := handsOver_push (s := s.setTime now) ⟨hidle.ready, hidle.blocked⟩
    (htime.calm hcalm) (htime.portable (fun _ h => h) hportable) he (htime.receives h) howner
  rw [react, yieldTo]
  simp only [hwait]
  refine ⟨hpushed.toIdle, ?_, hpushed.supplied⟩
  simpa using (s.conveys_setTime _ now).trans hpushed.conveys

/-! ### All announcements -/

/-- The locations are handed over one after the other. The induction is on those that are left;
since no location comes twice, what one hand-over changes is not touched by the next. -/
theorem foldl_react {locations : List Id} (hidle : s.Idle) (hcalm : s.cluster.Calm)
    (hportable : s.cluster.Portable i) (he : (s.cluster.replica i).store.entries = e)
    (hnodup : locations.Nodup)
    (hreceive : ∀ location ∈ locations, ∃ q, q ≠ i ∧ s.cluster.Receives d (d.owner location) q) :
    ∃ s', locations.foldl (fun s location => s.react i (.lost location (d.owner location) true)) s =
      s' ∧ s.cluster.Discharges i d e locations s'.cluster := by
  induction locations generalizing s with
  | nil => exact ⟨s, rfl, List.forall_mem_nil _, .refl _ _, List.forall_mem_nil _⟩
  | cons location locations ih =>
    obtain ⟨hnotin, hnodup⟩ := List.nodup_cons.mp hnodup
    obtain ⟨⟨q, hqi, hq⟩, hothers⟩ := List.forall_mem_cons.mp hreceive
    have hfirst := handsOver_react hidle hcalm hportable he hq rfl true
    rw [List.foldl_cons]
    generalize s.react i (.lost location (d.owner location) true) = s₁ at hfirst ⊢
    have hi : ∀ k, ¬Cluster.corner q (· ∈ (e.under location).map Prod.fst) i k :=
      fun k hk => hqi hk.1.symm
    have hothers' : ∀ other ∈ locations, ∃ p, p ≠ i ∧
        s₁.cluster.Receives d (d.owner other) p := by
      intro other hother
      obtain ⟨p, hpi, hp⟩ := hothers other hother
      exact ⟨p, hpi, hfirst.conveys.receives hp⟩
    obtain ⟨s', hfold, -, hconveys, hsupplied⟩ := ih hfirst.toIdle (hfirst.conveys.calm hcalm)
      (hfirst.conveys.portable hi hportable) ((hfirst.conveys.entries hi).trans he) hnodup hothers'
    refine ⟨s', hfold, hreceive, ?_, ?_⟩
    · rw [List.flatMap_cons, List.reverse_append]
      refine (hfirst.conveys.mono ?_).trans (hconveys.mono ?_)
      · rintro j k ⟨rfl, hk⟩
        obtain ⟨⟨key, value⟩, hp, rfl⟩ := List.mem_map.mp hk
        obtain ⟨rfl, hvalue⟩ := Entries.mem_under.mp hp
        refine ⟨Std.ExtTreeMap.mem_iff_isSome_getElem?.mpr ?_, List.mem_cons_self, hq.registered⟩
        rw [hvalue]
        rfl
      · rintro j k ⟨hk, hlocation, hregistered⟩
        exact ⟨hk, List.mem_cons_of_mem _ hlocation, hfirst.conveys.registered ▸ hregistered⟩
    · intro other hother p hp
      rcases List.mem_cons.mp hother with rfl | hother
      · obtain rfl : p = q := Option.some.inj (hp.registered.symm.trans hq.registered)
        refine hconveys.supplied hfirst.supplied fun entry hentry hpushed => hnotin ?_
        exact (Entries.mem_under.mp hentry).1 ▸ hpushed.2.1
      · exact hsupplied other hother p (hfirst.conveys.receives hp)

end Schedule

/-! ### The whole change -/

namespace Cluster

variable {c c' : Cluster n} {i : Fin n} {d : Directory} {e : Entries}

/-- The locations that a node is to hand over: others own them. -/
def lostLocations (d : Directory) (e : Entries) : List Id :=
  e.locations.filter fun location => (d.owner location).id ≠ d.self.id

/-- A location is lost if something is stored under it and another member owns it. -/
theorem mem_lostLocations {location : Id} : location ∈ lostLocations d e ↔
    location ∈ e.locations ∧ (d.owner location).id ≠ d.self.id := by
  rw [lostLocations, List.mem_filter, decide_eq_true_eq]

/-- No location is lost twice in one regrouping. -/
theorem nodup_lostLocations (d : Directory) (e : Entries) : (lostLocations d e).Nodup :=
  e.nodup_locations.filter _

/-- The announcement that a location is lost. -/
def lossOf (d : Directory) (location : Id) : Event := .lost location (d.owner location) true

theorem location_lossOf (d : Directory) (location : Id) :
    (lossOf d location).location = location := rfl

/-- A node that was responsible for all it stores announces the locations that it lost. -/
theorem announced_regroup (changes : List MembershipChange)
    (he : (c.replica i).store.entries = e) (hd : c.learned i changes = d)
    (hresponsible : ∀ location ∈ e.locations, location ∈ (c.replica i).tracker.owned) :
    ((c.regroup i changes).replica i).tracker.announcedSince (c.replica i).tracker.log.size =
      (lostLocations d e).map (lossOf d) := by
  rw [(c.regroup_eq i changes).2, he, hd, Tracker.announcedSince,
    Tracker.log_reevaluate_of_owned _ d e.nodup_locations hresponsible]
  exact List.drop_left

/-- A node that has looked again at all it stores is responsible for exactly those of these
locations that it owns. About other locations its tracker knows what it knew before. -/
theorem mem_owned_regroup (changes : List MembershipChange)
    (he : (c.replica i).store.entries = e) (hd : c.learned i changes = d)
    (location : Id) : location ∈ ((c.regroup i changes).replica i).tracker.owned ↔
      if location ∈ e.locations then (d.owner location).id = d.self.id
      else location ∈ (c.replica i).tracker.owned := by
  rw [(c.regroup_eq i changes).2, he, hd]
  exact Tracker.mem_owned_reevaluate ..

/-- A node hands nothing over to itself. -/
theorem Receives.ne_of_directory {location : Id} {q : Fin n}
    (h : c.Receives d (d.owner location) q) (hd : (c.replica i).directory = d)
    (hne : (d.owner location).id ≠ d.self.id) : q ≠ i := by
  rintro rfl
  exact hne (h.self.symm.trans (congrArg (·.self.id) hd))

/-- Quiescence of the cluster depends on locks alone, which a change of membership leaves alone. -/
theorem OnlyAt.calm (h : OnlyAt i c c') (hlocks : (c'.replica i).locks = (c.replica i).locks)
    (hcalm : c.Calm) : c'.Calm := by
  have hall : ∀ q, (c'.replica q).locks = (c.replica q).locks := by
    intro q
    by_cases hq : q = i
    · rw [hq, hlocks]
    · rw [h.others q hq]
  refine ⟨fun q => ?_, fun q k => ?_⟩
  · rw [hall, h.nextTask]
    exact hcalm.locks q
  · rw [hall]
    exact hcalm.free q k

theorem OnlyAt.store (h : OnlyAt i c c') (hstore : (c'.replica i).store = (c.replica i).store)
    (q : Fin n) : (c'.replica q).store = (c.replica q).store := by
  by_cases hq : q = i
  · rw [hq, hstore]
  · rw [h.others q hq]

theorem OnlyAt.portable (h : OnlyAt i c c') (hstore : (c'.replica i).store = (c.replica i).store)
    (hportable : c.Portable i) : c'.Portable i := by
  have hconfig : (c'.reconciler i).config = (c.reconciler i).config := by
    rw [reconciler, h.reconcilers, ← reconciler]
  exact ⟨hconfig ▸ hportable.limit, by rw [hstore, hconfig]; exact hportable.sizes,
    hstore ▸ hportable.count⟩

/-- Node `i` has announced once that it lost the location, and node `q` has taken its place: it
holds every value that `i` stored there and is responsible for the location. -/
structure Relieved (before after : Cluster n) (i : Fin n) (announced : List Event) (location : Id)
    (owner : Peer) (q : Fin n) : Prop where
  announced : announced.filter (·.location = location) = [.lost location owner true]
  stored : ∀ (k : Key) (value : ByteArray), k.location = location →
    (before.replica i).store.get? k = some value → (after.replica q).store.get? k = some value
  responsible : location ∈ (after.replica q).tracker.owned
  released : location ∉ (after.replica i).tracker.owned

/-- Node `i` has announced nothing about the location and is responsible for it. -/
structure Retains (after : Cluster n) (i : Fin n) (announced : List Event) (location : Id) :
    Prop where
  quiet : announced.filter (·.location = location) = []
  responsible : location ∈ (after.replica i).tracker.owned

end Cluster

open Cluster (lostLocations lossOf)

/-- Announcements of losses in another order are those of the locations in another order. -/
theorem order_eq {d : Directory} {locations : List Id} {order : List Event}
    (h : order.Perm (locations.map (lossOf d))) :
    order = (order.map Event.location).map (lossOf d) ∧
      (order.map Event.location).Perm locations := by
  constructor
  · rw [List.map_map]
    refine ((List.map_congr_left fun event hevent => ?_).trans (List.map_id order)).symm
    obtain ⟨location, -, rfl⟩ := List.mem_map.mp (h.mem_iff.mp hevent)
    rfl
  · have hlocations := h.map Event.location
    rw [List.map_map] at hlocations
    exact hlocations.trans (.of_eq (List.map_id locations))

/-- Each loss is announced once, since no location is listed twice. -/
theorem filter_losses {d : Directory} {locations : List Id} (hnodup : locations.Nodup)
    (location : Id) : (locations.map (lossOf d)).filter (·.location = location) =
      if location ∈ locations then [lossOf d location] else [] := by
  induction locations with
  | nil => rfl
  | cons first rest ih =>
    obtain ⟨hnotin, hnodup⟩ := List.nodup_cons.mp hnodup
    rw [List.map_cons, List.filter_cons, ih hnodup, Cluster.location_lossOf]
    by_cases hfirst : first = location
    · subst hfirst
      rw [if_pos (decide_eq_true rfl), if_neg hnotin, if_pos List.mem_cons_self]
    · rw [if_neg (by simpa using hfirst)]
      simp only [List.mem_cons, Ne.symm hfirst, false_or]

/-- Of all the losses at most one is about a given location. -/
theorem filter_lostLocations (d : Directory) (e : Entries) (location : Id) :
    ((lostLocations d e).map (lossOf d)).filter (·.location = location) =
      if location ∈ e.locations ∧ (d.owner location).id ≠ d.self.id then [lossOf d location]
      else [] := by
  rw [filter_losses (Cluster.nodup_lostLocations d e)]
  simp only [Cluster.mem_lostLocations]

/-- After a change of membership a node that was responsible for all it stores hands over exactly
the locations that others own now. Whatever the changes were and in whatever order the losses are
heard of, each new owner stores all values of its locations and is responsible for them, the node
has given them up, and nothing else has changed anywhere. -/
theorem Schedule.hand_over_complete (s : Schedule n) (i : Fin n) (changes : List MembershipChange)
    (order : List Event) {e : Entries} {d : Directory} {c : Cluster n} {announced : List Event}
    (he : (s.cluster.replica i).store.entries = e) (hd : s.cluster.learned i changes = d)
    (hc : s.cluster.regroup i changes = c)
    (hannounced : (c.replica i).tracker.announcedSince (s.cluster.replica i).tracker.log.size =
      announced)
    (hidle : s.Idle) (hcalm : s.cluster.Calm) (hportable : s.cluster.Portable i)
    (hresponsible : ∀ location ∈ e.locations, location ∈ (s.cluster.replica i).tracker.owned)
    (hreceive : ∀ location ∈ e.locations, (d.owner location).id ≠ d.self.id →
      ∃ q, c.Receives d (d.owner location) q)
    (horder : order.Perm announced) :
    let after := (order.foldl (fun (s : Schedule n) event => s.react i event)
      { s with cluster := c }).cluster
    (∀ location ∈ e.locations,
      ((d.owner location).id = d.self.id → after.Retains i announced location) ∧
      ((d.owner location).id ≠ d.self.id → ∃ q, c.Receives d (d.owner location) q ∧
        s.cluster.Relieved after i announced location (d.owner location) q)) ∧
    (∀ q k, (after.replica q).store.get? k = (s.cluster.replica q).store.get? k ∨
      k ∈ e ∧ (d.owner k.location).id ≠ d.self.id ∧ c.Receives d (d.owner k.location) q) ∧
    after.network.sent = (order.flatMap fun event =>
      requestsOf (d.owner event.location) (e.under event.location)).reverse ++
        s.cluster.network.sent := by
  intro after
  obtain ⟨honly, hreplica⟩ := s.cluster.regroup_eq i changes
  have hlosses := Cluster.announced_regroup changes he hd hresponsible
  have howned := Cluster.mem_owned_regroup changes he hd
  rw [hc] at honly hreplica hlosses howned
  rw [he, hd] at hreplica
  have hstore : (c.replica i).store = (s.cluster.replica i).store := by rw [hreplica]
  obtain rfl : (lostLocations d e).map (lossOf d) = announced := hlosses.symm.trans hannounced
  obtain ⟨horder, hlocations⟩ := order_eq horder
  generalize order.map Event.location = locations at horder hlocations
  subst horder
  have hmem : ∀ location, location ∈ locations ↔
      location ∈ e.locations ∧ (d.owner location).id ≠ d.self.id := fun location =>
    hlocations.mem_iff.trans Cluster.mem_lostLocations
  have hreceive' : ∀ location ∈ locations, ∃ q, q ≠ i ∧ c.Receives d (d.owner location) q := by
    intro location hlocation
    obtain ⟨hstored, hne⟩ := (hmem location).mp hlocation
    obtain ⟨q, hq⟩ := hreceive location hstored hne
    exact ⟨q, hq.ne_of_directory (by rw [hreplica]) hne, hq⟩
  obtain ⟨s', hfold, hdischarges⟩ := foldl_react (s := { s with cluster := c })
    ⟨hidle.ready, hidle.blocked⟩ (honly.calm (by rw [hreplica]) hcalm)
    (honly.portable hstore hportable) (hstore ▸ he)
    (hlocations.nodup_iff.mpr (Cluster.nodup_lostLocations d e)) hreceive'
  have hafter : s'.cluster = after := by
    rw [← hfold]
    simp only [after, List.foldl_map, lossOf]
  rw [hafter] at hdischarges
  refine ⟨fun location hlocation => ⟨fun howner => ⟨?_, ?_⟩, fun hne => ?_⟩, fun q k => ?_, ?_⟩
  · rw [filter_lostLocations, if_neg]
    exact fun hlost => hlost.2 howner
  · rw [hdischarges.tracker_eq, howned, if_pos hlocation]
    exact howner
  · obtain ⟨q, hq⟩ := hreceive location hlocation hne
    have hgone := hdischarges.supplied location ((hmem location).mpr ⟨hlocation, hne⟩) q hq
    refine ⟨q, hq, ?_, ?_, hgone.owned ?_, ?_⟩
    · rw [filter_lostLocations, if_pos ⟨hlocation, hne⟩]
      rfl
    · intro k value hk hvalue
      exact hgone.held (k, value) (Entries.mem_under.mpr ⟨hk, he ▸ hvalue⟩)
    · exact Entries.under_ne_nil hlocation
    · rw [hdischarges.tracker_eq, howned, if_pos hlocation]
      exact hne
  · rcases hdischarges.held_or_pushed q k with hheld | ⟨hk, hlocation, hq⟩
    · exact .inl (hheld.trans (by rw [honly.store hstore q]))
    · exact .inr ⟨hk, ((hmem k.location).mp hlocation).2, hq⟩
  · rw [hdischarges.conveys.sent, honly.sent, List.flatMap_map]
    rfl

/-! ### A second node joins -/

section

variable (key : Key) (value : ByteArray)

theorem Cluster.calm_joiningPair : (Cluster.joiningPair key value).Calm where
  locks
    | 0 => .empty _
    | 1 => .empty _
  free
    | 0, _ => rfl
    | 1, _ => rfl

theorem Cluster.held_joiningPair :
    ((Cluster.joiningPair key value).replica 0).store.get? key = some value :=
  Entries.getElem?_single key value

/-- The values of node 0 can all be sent. -/
theorem Cluster.portable_joiningPair (hsize : value.size ≤ 15 * 1024 * 1024) :
    (Cluster.joiningPair key value).Portable 0 where
  limit := (by decide : 15 * 1024 * 1024 < Wire.lengthBound)
  sizes k v hv := by
    obtain ⟨-, rfl⟩ := Entries.eq_of_getElem?_single key value hv
    exact hsize
  count := by
    show (Entries.ofPairs [(key, value)]).size < _
    rw [Entries.size_single]
    exact (by decide : 1 < Wire.lengthBound)

/-- The members that the first node knows after it has heard of the second one. -/
theorem Cluster.lists_learned_joiningPair :
    ((Cluster.joiningPair key value).learned 0 [.joined (.numbered 1)]).Lists
      (fun i => (Peer.numbered i).id) 0 :=
  Directory.lists_pair (by decide)

/-- Node 1 would take what it is sent as its own: it comes to the same owner as node 0. -/
theorem Cluster.receives_joiningPair {d : Directory}
    (hlists : d.Lists (fun i => (Peer.numbered i).id) 0) {owner : Peer}
    (howner : owner.id = (Peer.numbered 1).id) :
    ((Cluster.joiningPair key value).regroup 0 [.joined (.numbered 1)]).Receives d owner 1 where
  script := rfl
  reachable := rfl
  registered := by
    rw [howner]
    exact Std.ExtTreeMap.getElem?_insert_self
  self := by
    rw [howner]
    exact (Directory.lists_pair (by decide : (1 : Fin 2) ≠ 0)).self
  members := hlists.sameMembers (Directory.lists_pair (by decide : (1 : Fin 2) ≠ 0)) (by
    rw [Function.Injective]
    decide)
  faultless _ _ _ := rfl

end

/-- The second node joins, and gets the value, to whose location it is closer. The first node has
one value, under one location, and was responsible for it. -/
theorem Schedule.hand_over_complete_joiningPair :
    let key : Key := ⟨.ofNat 2, .ofNat 1, .ofNat 1⟩
    let value : ByteArray := ⟨#[7]⟩
    let s := Schedule.ofCluster (.joiningPair key value)
    let c := s.cluster.regroup 0 [.joined (.numbered 1)]
    let announced := (c.replica 0).tracker.announcedSince (s.cluster.replica 0).tracker.log.size
    let after := (announced.foldl (fun (s : Schedule 2) event => s.react 0 event)
      { s with cluster := c }).cluster
    (after.replica 1).store.get? key = some value ∧
      key.location ∈ (after.replica 1).tracker.owned ∧
      key.location ∉ (after.replica 0).tracker.owned := by
  intro key value s c announced after
  let d := s.cluster.learned 0 [.joined (.numbered 1)]
  have hlists := Cluster.lists_learned_joiningPair key value
  have hids : Function.Injective fun i => (Peer.numbered i).id := by
    rw [Function.Injective]
    decide
  have howner : (d.owner key.location).id = (Peer.numbered 1).id :=
    (hlists.owner_id_eq_iff hids key.location 1).mpr (by decide)
  have hreceives : ∀ location ∈ (Entries.ofPairs [(key, value)]).locations,
      c.Receives d (d.owner location) 1 := by
    intro location hlocation
    rw [← (Entries.mem_locations_single key value).mp hlocation]
    exact Cluster.receives_joiningPair key value hlists howner
  obtain ⟨hlocations, -, -⟩ := Schedule.hand_over_complete s 0 [.joined (.numbered 1)] announced
    rfl rfl rfl rfl (idle_ofCluster _) (Cluster.calm_joiningPair key value)
    (Cluster.portable_joiningPair key value (by decide))
    (fun location hlocation => (Entries.mem_locations_single key value).mp hlocation ▸
      Std.ExtTreeSet.mem_insert_self)
    (fun location hlocation _ => ⟨1, hreceives location hlocation⟩) (.refl _)
  have hself : d.self.id = (Peer.numbered 0).id := hlists.self
  have hother : (d.owner key.location).id ≠ d.self.id := by
    rw [howner, hself]
    decide
  have hstored : key.location ∈ (Entries.ofPairs [(key, value)]).locations :=
    (Entries.mem_locations_single key value).mpr rfl
  obtain ⟨q, hq, hrelieved⟩ := (hlocations key.location hstored).2 hother
  obtain rfl : q = 1 := Option.some.inj
    (hq.registered.symm.trans (hreceives key.location hstored).registered)
  change s.cluster.Relieved after 0 announced key.location (d.owner key.location) 1 at hrelieved
  exact ⟨hrelieved.stored key value rfl (Cluster.held_joiningPair key value),
    hrelieved.responsible, hrelieved.released⟩

end DeltaMesh
