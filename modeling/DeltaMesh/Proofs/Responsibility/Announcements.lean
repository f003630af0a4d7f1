import DeltaMesh.Proofs.Cluster.Moves
import DeltaMesh.Proofs.Responsibility.Agreement
import Mathlib.Data.List.Induction

/-!
# What announcements tell

A node gets to know and forgets peers, and looks at locations now because values were written under
them and now because the membership has changed. Whatever the order of all this, its announcements
tell exactly what it is responsible for (`Cluster.announcements_exact`): those about one location
are by turns a gain and a loss (`Tracker.Recorded`), and a location belongs to the node as long as
the node was the closest member when it last looked at it.
-/

namespace DeltaMesh

/-- Whether a node becomes responsible for a location. -/
def Event.gains : Event → Bool
  | gained _ => true
  | lost .. => false

namespace Directory

variable (d : Directory) (location : Id)

/-- The peer is a member, and no other one is as close to the location. -/
structure IsClosest (p : Peer) : Prop where
  member : p ∈ d.members
  nearest : ∀ m ∈ d.members, m.id ≠ p.id → Id.closer location p.id m.id = true

/-- The owner that a directory names is a member, and no other member is closer. -/
theorem isClosest_owner : d.IsClosest location (d.owner location) :=
  ⟨(d.owner_closest location).1, (d.owner_closest location).2⟩

/-- A node owns the location in its own eyes if it is the closest member. -/
theorem owner_id_eq_self_iff : (d.owner location).id = d.self.id ↔ d.IsClosest location d.self := by
  obtain ⟨howner, hnearest⟩ := d.isClosest_owner location
  have hself : d.self ∈ d.members := List.mem_append_right _ (List.mem_singleton_self _)
  refine ⟨fun heq => ⟨hself, fun m hm hne => ?_⟩, fun h => ?_⟩
  · rw [← heq] at hne ⊢
    exact hnearest m hm hne
  · by_contra hne
    have hcloser := Id.not_closer_of_closer (h.nearest _ howner hne)
    rw [hnearest _ hself fun heq => hne heq.symm] at hcloser
    cases hcloser

end Directory

namespace Tracker

variable {t : Tracker} {d : Directory} {location : Id} {delayed : Bool} {locations : List Id}

/-! ### One location -/

/-- Nothing is announced if and only if the tracker is right about the location already. -/
theorem change?_eq_none_iff : t.change? d location delayed = none ↔
    (location ∈ t.owned ↔ (d.owner location).id = d.self.id) := by
  rw [change?, ← Std.ExtTreeSet.contains_iff_mem]
  by_cases howner : (d.owner location).id = d.self.id <;>
    cases t.owned.contains location <;> simp [howner]

/-- A change is either a gain or the loss to the closest member; the tracker was wrong about the
location before. -/
theorem change?_eq_some {e : Event} (h : t.change? d location delayed = some e) :
    e = .gained location ∧ location ∉ t.owned ∧ (d.owner location).id = d.self.id ∨
      e = .lost location (d.owner location) delayed ∧ location ∈ t.owned ∧
        (d.owner location).id ≠ d.self.id := by
  rw [change?] at h
  rw [← Std.ExtTreeSet.contains_iff_mem]
  split at h <;> split at h
  case isTrue.isFalse howner hnew => exact .inl ⟨(Option.some.inj h).symm, hnew, howner⟩
  case isFalse.isTrue howner hold => exact .inr ⟨(Option.some.inj h).symm, hold, howner⟩
  all_goals cases h

/-- The announcements about a location, oldest first. -/
def about (t : Tracker) (location : Id) : List Event :=
  t.log.toList.filter (·.location = location)

/-- The announcements account for what the node is responsible for. -/
structure Recorded (t : Tracker) : Prop where
  replayed : t.log.toList.foldl Event.apply ∅ = t.owned
  alternating : ∀ (location : Id) (k : Nat) (e : Event), (t.about location)[k]? = some e →
    (e.gains = true ↔ k % 2 = 0)
  /-- So the last one about a location that the node is responsible for is a gain. -/
  odd : ∀ location : Id, location ∈ t.owned ↔ (t.about location).length % 2 = 1

/-- A new tracker is responsible for nothing and has announced nothing. -/
theorem recorded_empty : empty.Recorded where
  replayed := rfl
  alternating _ _ _ h := nomatch h
  odd _ := ⟨fun h => absurd h Std.ExtTreeSet.not_mem_empty, fun h => nomatch h⟩

/-- An announcement is the latest about its location. -/
theorem about_announce_self (t : Tracker) (e : Event) :
    (t.announce e).about e.location = t.about e.location ++ [e] := by
  rw [about, announce, Array.toList_push, List.filter_append, about,
    List.filter_cons_of_pos (by simp), List.filter_nil]

/-- An announcement says nothing about other locations. -/
theorem about_announce_of_ne (t : Tracker) {e : Event} (hne : location ≠ e.location) :
    (t.announce e).about location = t.about location := by
  rw [about, announce, Array.toList_push, List.filter_append, about,
    List.filter_cons_of_neg (by simpa using hne.symm), List.filter_nil, List.append_nil]

/-- After an announcement the node is responsible if and only if a gain was announced. -/
theorem mem_owned_announce_self (t : Tracker) (e : Event) :
    e.location ∈ (t.announce e).owned ↔ e.gains = true := by
  cases e <;> simp [announce, Event.apply, Event.location, Event.gains]

/-- What is announced is a change, so gains and losses of a location alternate, and replaying them
gives what the node is responsible for. -/
theorem Recorded.announce (h : t.Recorded) {e : Event}
    (hchange : e.gains = true ↔ e.location ∉ t.owned) : (t.announce e).Recorded where
  replayed := by
    rw [Tracker.announce, Array.toList_push, List.foldl_append, h.replayed]
    rfl
  alternating location k e' hk := by
    by_cases hlocation : location = e.location
    · subst hlocation
      rw [about_announce_self, List.getElem?_append] at hk
      split at hk
      case isTrue => exact h.alternating _ k e' hk
      case isFalse hlast =>
        -- the new announcement comes after all earlier ones
        obtain ⟨hindex, rfl⟩ := List.getElem?_eq_some_iff.mp hk
        rw [List.length_singleton, Nat.lt_one_iff] at hindex
        simp only [hindex, List.getElem_singleton]
        rw [hchange, h.odd]
        omega
    · rw [t.about_announce_of_ne hlocation] at hk
      exact h.alternating location k e' hk
  odd location := by
    by_cases hlocation : location = e.location
    · subst hlocation
      rw [mem_owned_announce_self, about_announce_self, List.length_append, List.length_singleton,
        hchange, h.odd]
      omega
    · rw [t.about_announce_of_ne hlocation]
      exact (e.mem_apply_of_ne t.owned hlocation).trans (h.odd location)

/-- A look at one location keeps the record: replaying the announcements gives the responsible
locations, and those about one location alternate. -/
theorem Recorded.evaluate (h : t.Recorded) (d : Directory) (location : Id) (delayed : Bool) :
    (t.evaluate d location delayed).Recorded := by
  rw [Tracker.evaluate]
  cases hchange : t.change? d location delayed with
  | none => exact h
  | some e =>
    refine h.announce ?_
    rcases change?_eq_some hchange with ⟨rfl, hnew, -⟩ | ⟨rfl, hold, -⟩
    · exact iff_of_true rfl hnew
    · exact iff_of_false (by simp [Event.gains]) (not_not_intro hold)

/-! ### Several locations -/

/-- The node looks at locations one after the other. -/
def evaluateAll (t : Tracker) (d : Directory) (delayed : Bool) (locations : List Id) : Tracker :=
  locations.foldl (fun t location => t.evaluate d location delayed) t

/-- How often one of the locations has changed when it was its turn. -/
def countChanges (d : Directory) (delayed : Bool) : List Id → Tracker → Nat
  | [], _ => 0
  | location :: rest, t =>
    (if (t.change? d location delayed).isSome then 1 else 0) +
      countChanges d delayed rest (t.evaluate d location delayed)

/-- What may be announced when a node looks at locations: a location that it is closest to is
gained, another one is lost to the member that is closest. -/
def Announces (d : Directory) (delayed : Bool) (locations : List Id) : Event → Prop
  | .gained location => location ∈ locations ∧ d.IsClosest location d.self
  | .lost location newOwner delayed' => location ∈ locations ∧ d.IsClosest location newOwner ∧
    newOwner.id ≠ d.self.id ∧ delayed' = delayed

theorem Announces.mono {locations' : List Id} (hsubset : locations ⊆ locations') {e : Event}
    (h : Announces d delayed locations e) : Announces d delayed locations' e := by
  cases e with
  | gained location => exact ⟨hsubset h.1, h.2⟩
  | lost location newOwner delayed' => exact ⟨hsubset h.1, h.2⟩

/-- What a look announces is right at that moment: a gain names a location that the node owns, a
loss names the member that owns it instead. -/
theorem announces_of_change? {e : Event} (h : t.change? d location delayed = some e) :
    Announces d delayed [location] e := by
  rcases change?_eq_some h with ⟨rfl, -, howner⟩ | ⟨rfl, -, howner⟩
  · exact ⟨List.mem_singleton_self _, (d.owner_id_eq_self_iff location).mp howner⟩
  · exact ⟨List.mem_singleton_self _, d.isClosest_owner location, howner, rfl⟩

/-- Looks at many locations, one after the other, keep the record as well. -/
theorem Recorded.evaluateAll (h : t.Recorded) (d : Directory) (delayed : Bool)
    (locations : List Id) : (t.evaluateAll d delayed locations).Recorded := by
  induction locations generalizing t with
  | nil => exact h
  | cons location locations ih => exact ih (h.evaluate d location delayed)

/-- Each change is announced once, and nothing else is. The changes are counted against the tracker
as it was before the first look. -/
theorem exists_sent (t : Tracker) (d : Directory) (delayed : Bool) (locations : List Id) :
    ∃ sent, (t.evaluateAll d delayed locations).log.toList = t.log.toList ++ sent ∧
      sent.length = countChanges d delayed locations t ∧
      (∀ e ∈ sent, Announces d delayed locations e) ∧
      (sent = [] → t.evaluateAll d delayed locations = t) := by
  induction locations generalizing t with
  | nil => exact ⟨[], (List.append_nil _).symm, rfl, fun _ h => (nomatch h), fun _ => rfl⟩
  | cons location locations ih =>
    obtain ⟨sent, hlog, hlength, hsent, hnone⟩ := ih (t.evaluate d location delayed)
    have hfirst : ∀ e ∈ t.change? d location delayed,
        Announces d delayed (location :: locations) e := fun e he =>
      (announces_of_change? he).mono (by simp)
    refine ⟨(t.change? d location delayed).toList ++ sent, ?_, ?_, ?_, fun hnil => ?_⟩
    · rw [Tracker.evaluateAll, List.foldl_cons, ← Tracker.evaluateAll, hlog, log_evaluate,
        List.append_assoc]
    · rw [List.length_append, hlength, countChanges]
      cases t.change? d location delayed <;> rfl
    · intro e he
      rcases List.mem_append.mp he with hchange | hlater
      · exact hfirst e (Option.mem_toList.mp hchange)
      · exact (hsent e hlater).mono (List.subset_cons_self _ _)
    · obtain ⟨hchange, hlater⟩ := List.append_eq_nil_iff.mp hnil
      have hunchanged : t.evaluate d location delayed = t := by
        rw [Tracker.evaluate, Option.toList_eq_nil_iff.mp hchange]
      exact (hnone hlater).trans hunchanged

/-- Locations that the node is responsible for exactly if it is closest to them have not changed. -/
theorem evaluateAll_of_settled
    (h : ∀ location ∈ locations, location ∈ t.owned ↔ (d.owner location).id = d.self.id) :
    t.evaluateAll d delayed locations = t ∧ countChanges d delayed locations t = 0 := by
  induction locations with
  | nil => exact ⟨rfl, rfl⟩
  | cons location locations ih =>
    obtain ⟨hfirst, hrest⟩ := List.forall_mem_cons.mp h
    have hnone : t.change? d location delayed = none := change?_eq_none_iff.mpr hfirst
    have hunchanged : t.evaluate d location delayed = t := by
      rw [Tracker.evaluate, hnone]
    rw [Tracker.evaluateAll, List.foldl_cons, hunchanged, countChanges, hnone, hunchanged]
    exact ⟨(ih hrest).1, (Nat.zero_add _).trans (ih hrest).2⟩

/-- When the node looks at them again at once nothing has changed. -/
theorem evaluateAll_again (t : Tracker) (d : Directory) (delayed : Bool) (locations : List Id) :
    (t.evaluateAll d delayed locations).evaluateAll d delayed locations =
        t.evaluateAll d delayed locations ∧
      countChanges d delayed locations (t.evaluateAll d delayed locations) = 0 :=
  evaluateAll_of_settled fun location hlocation =>
    (t.mem_owned_foldl_evaluate d delayed location).trans (by rw [if_pos hlocation])

end Tracker

/-! ### The life of a node -/

/-- What happens to a node. -/
inductive Occurrence
  | membership (change : MembershipChange)
  | look (look : Look)

namespace Occurrence

/-- The locations that the node looks at. -/
def locations : Occurrence → List Id
  | membership _ => []
  | look l => l.locations

/-- The members after the occurrence. -/
def directory (d : Directory) : Occurrence → Directory
  | membership change => d.learn change
  | look _ => d

/-- Whether hand-overs that follow are delayed: if the membership is why the node looks. -/
def delayed : Occurrence → Bool
  | look (.surveyed _) => true
  | look (.written _) | membership _ => false

/-- No occurrence changes who the node is. -/
theorem self_directory (d : Directory) (o : Occurrence) : (o.directory d).self = d.self := by
  rcases o with (p | _) | _
  case membership.joined =>
    rw [directory, Directory.learn, Directory.add]
    split <;> rfl
  all_goals rfl

/-- Of the occurrences `past` the one after `earlier` is the last in which the node looks at the
location. -/
def LastLook (location : Id) (past earlier : List Occurrence) : Prop :=
  ∃ o later, past = earlier ++ o :: later ∧ location ∈ o.locations ∧
    ∀ o' ∈ later, location ∉ o'.locations

/-- The last look at a location is at the last occurrence if that one looked at it, and otherwise
where it was before. -/
theorem lastLook_concat {location : Id} {past earlier : List Occurrence} {last : Occurrence} :
    LastLook location (past ++ [last]) earlier ↔
      location ∈ last.locations ∧ earlier = past ∨
        location ∉ last.locations ∧ LastLook location past earlier := by
  constructor
  · rintro ⟨o, later, hsplit, hlocation, hlater⟩
    rcases List.eq_nil_or_concat' later with rfl | ⟨later, o', rfl⟩
    · obtain ⟨rfl, heq⟩ := List.append_inj' hsplit rfl
      exact .inl ⟨List.singleton_inj.mp heq ▸ hlocation, rfl⟩
    · rw [← List.cons_append, ← List.append_assoc] at hsplit
      obtain ⟨hpast, heq⟩ := List.append_inj' hsplit rfl
      obtain ⟨hrest, hlast⟩ := List.forall_mem_append.mp hlater
      refine .inr ⟨?_, o, later, hpast, hlocation, hrest⟩
      rw [List.singleton_inj.mp heq]
      exact hlast o' (List.mem_singleton_self o')
  · rintro (⟨hlast, rfl⟩ | ⟨hlast, o, later, rfl, hlocation, hlater⟩)
    · exact ⟨last, [], rfl, hlast, fun _ h => nomatch h⟩
    · refine ⟨o, later ++ [last], by simp, hlocation, ?_⟩
      exact List.forall_mem_append.mpr ⟨hlater, List.forall_mem_singleton.mpr hlast⟩

end Occurrence

/-- The serving side of a node after an occurrence. -/
def Replica.undergo (r : Replica) : Occurrence → Replica
  | .membership (.joined p) => (r.addPeer p).2
  | .membership (.left id) => (r.removePeer id).2
  | .look (.written location) => r.notify location
  | .look (.surveyed locations) => r.reevaluate locations

/-- The directory hears of the membership, and the tracker looks at the locations. -/
theorem Replica.undergo_eq (r : Replica) (o : Occurrence) : r.undergo o =
    { r with
      directory := o.directory r.directory
      tracker := r.tracker.evaluateAll r.directory o.delayed o.locations } := by
  rcases o with (_ | _) | (_ | _) <;> rfl

namespace Cluster

variable {n : Nat}

/-- A cluster after an occurrence at node `i`. -/
def undergo (i : Fin n) (c : Cluster n) (o : Occurrence) : Cluster n :=
  (c.onReplica i fun r => ((), r.undergo o)).2

variable {c c' : Cluster n} {i : Fin n} {node : Peer}

/-- An occurrence at node `i` is an occurrence at its replica. -/
theorem replica_undergo (c : Cluster n) (i : Fin n) (o : Occurrence) :
    (undergo i c o).replica i = (c.replica i).undergo o :=
  c.replica_served_self i _

/-- What is known of a node whatever has happened to it since it came up. -/
structure Known (i : Fin n) (node : Peer) (c : Cluster n) : Prop where
  node : (c.replica i).directory.self = node
  recorded : (c.replica i).tracker.Recorded
  gauge : c.meter.responsibleLocations =
    if (c.replica i).tracker.log.size = 0 then none
    else some (c.replica i).tracker.owned.size

/-- The step lemma: every occurrence leaves the record of the tracker in order, and the gauge at the
number of responsible locations. -/
theorem Known.undergo (h : c.Known i node) (o : Occurrence) : (undergo i c o).Known i node := by
  have hreplica := c.replica_undergo i o
  rw [Replica.undergo_eq] at hreplica
  obtain ⟨sent, hlog, -, -, hnone⟩ :=
    (c.replica i).tracker.exists_sent (c.replica i).directory o.delayed o.locations
  have hsize := congrArg List.length hlog
  rw [List.length_append, Array.length_toList, Array.length_toList] at hsize
  constructor
  · rw [hreplica]
    exact (o.self_directory _).trans h.node
  · rw [hreplica]
    exact h.recorded.evaluateAll _ _ _
  · show (c.meter.observe (c.replica i).tracker.log.size
      ((c.replica i).undergo o).tracker).responsibleLocations = _
    rw [hreplica, Replica.undergo_eq, Meter.observe]
    dsimp only
    split
    case isTrue hgrown => rw [if_neg (Nat.ne_of_gt (Nat.lt_of_le_of_lt (Nat.zero_le _) hgrown))]
    case isFalse hsame =>
      -- nothing was announced, so nothing has changed
      rw [hnone (List.length_eq_zero_iff.mp (by omega))]
      exact h.gauge

/-- By induction over the occurrences, with `Known.undergo` for each. -/
theorem Known.foldl_undergo (h : c.Known i node) (past : List Occurrence) :
    (past.foldl (Cluster.undergo i) c).Known i node := by
  induction past generalizing c with
  | nil => exact h
  | cons o past ih => exact ih (h.undergo o)

/-- A node is responsible for a location if it was so at first and has not looked at it since, or
if it owned the location when it last looked. -/
theorem mem_owned_foldl_undergo (past : List Occurrence) (location : Id) :
    location ∈ ((past.foldl (undergo i) c).replica i).tracker.owned ↔
      (location ∈ (c.replica i).tracker.owned ∧ ∀ o ∈ past, location ∉ o.locations) ∨
      ∃ earlier, Occurrence.LastLook location past earlier ∧
        (((earlier.foldl (undergo i) c).replica i).directory.owner location).id =
          ((earlier.foldl (undergo i) c).replica i).directory.self.id := by
  induction past using List.reverseRecOn with
  | nil => simp [Occurrence.LastLook]
  | append_singleton past last ih =>
    rw [List.foldl_append, List.foldl_cons, List.foldl_nil, replica_undergo, Replica.undergo_eq]
    refine (Tracker.mem_owned_foldl_evaluate _ _ _ location).trans ?_
    simp only [Occurrence.lastLook_concat, List.forall_mem_append, List.forall_mem_singleton]
    by_cases hlast : location ∈ last.locations
    · simp [hlast]
    · simp [hlast, ih]

/-- What the announcements of a node tell, whatever has happened to it since it came up. Those about
a location are by turns a gain and a loss, and replayed they give what the node is responsible for,
which is what the gauge counts once it is set. That is the locations to which the node was the
closest member when it last looked. A loss names the member that is closest, which is not the node,
and is delayed if the node looked again because of the membership. As often as a location turns out
to have changed then, something is announced, and nothing when the node looks again at once. -/
theorem announcements_exact (hnode : (c.replica i).directory = .alone node)
    (htracker : (c.replica i).tracker = .empty) (hgauge : c.meter.responsibleLocations = none)
    {past : List Occurrence} (hpast : past.foldl (undergo i) c = c') :
    let d := (c'.replica i).directory
    let t := (c'.replica i).tracker
    (∀ (location : Id) (k : Nat) (e : Event), (t.about location)[k]? = some e →
      (e.gains = true ↔ k % 2 = 0)) ∧
    (t.log.toList.foldl Event.apply ∅).toList = t.responsible ∧
    c'.meter.responsibleLocations =
      (if t.log.size = 0 then none else some t.responsible.length) ∧
    (∀ location, location ∈ t.responsible ↔ ∃ earlier, Occurrence.LastLook location past earlier ∧
      ((earlier.foldl (undergo i) c).replica i).directory.IsClosest location node) ∧
    (∀ o, ∃ sent, ((undergo i c' o).replica i).tracker.log.toList = t.log.toList ++ sent ∧
      ∀ e ∈ sent, Tracker.Announces d o.delayed o.locations e) ∧
    ∀ locations, Tracker.countChanges d true locations t =
        (t.reevaluate d locations).changesSince t ∧
      Tracker.countChanges d true locations (t.reevaluate d locations) = 0 ∧
      (t.reevaluate d locations).reevaluate d locations = t.reevaluate d locations := by
  have hstart : c.Known i node :=
    ⟨by rw [hnode]; rfl, htracker ▸ Tracker.recorded_empty, by rw [hgauge, htracker]; rfl⟩
  have hknown : c'.Known i node := hpast ▸ hstart.foldl_undergo past
  intro d t
  refine ⟨hknown.recorded.alternating, ?_, ?_, fun location => ?_, fun o => ?_,
    fun locations => ⟨?_, ?_⟩⟩
  · rw [hknown.recorded.replayed]
    rfl
  · rw [hknown.gauge, Tracker.responsible, Std.ExtTreeSet.length_toList]
  · have hnever : location ∉ (c.replica i).tracker.owned := by
      rw [htracker]
      exact Std.ExtTreeSet.not_mem_empty
    have howned := mem_owned_foldl_undergo (c := c) (i := i) past location
    rw [or_iff_right fun h => hnever h.1, hpast] at howned
    refine (Std.ExtTreeSet.mem_toList.trans howned).trans (exists_congr fun earlier => ?_)
    rw [Directory.owner_id_eq_self_iff, (hstart.foldl_undergo earlier).node]
  · obtain ⟨sent, hlog, -, hsent, -⟩ := t.exists_sent d o.delayed o.locations
    rw [replica_undergo, Replica.undergo_eq]
    exact ⟨sent, hlog, hsent⟩
  · obtain ⟨sent, hlog, hlength, -, -⟩ := t.exists_sent d true locations
    have hsize := congrArg List.length hlog
    rw [List.length_append, Array.length_toList, Array.length_toList, hlength] at hsize
    rw [Tracker.changesSince]
    exact (Nat.sub_eq_of_eq_add' hsize).symm
  · exact ⟨(t.evaluateAll_again d true locations).2, (t.evaluateAll_again d true locations).1⟩

/-- A location is gained, lost to a closer peer and gained again when that peer has left. -/
theorem announcements_exact_regained :
    let first : Peer := .numbered 0
    let second : Peer := .numbered 1
    let location : Id := .ofNat 2
    let c : Cluster 1 := .ofNodes #v[.ofStore (.alone first) .empty 32]
      #v[⟨{}, ⟨{}, 6, 0.9, 0, 0⟩, {}, ∅⟩] none
    let lost : List Occurrence :=
      [.look (.written location), .membership (.joined second),
        .look (.surveyed [location, location])]
    let regained : List Occurrence :=
      lost ++ [.membership (.left second.id), .look (.surveyed [location])]
    (c.replica 0).directory = .alone first ∧ (c.replica 0).tracker = .empty ∧
      c.meter.responsibleLocations = none ∧
      location ∉ ((lost.foldl (undergo 0) c).replica 0).tracker.responsible ∧
      location ∈ ((regained.foldl (undergo 0) c).replica 0).tracker.responsible := by
  intro first second location c lost regained
  obtain ⟨-, -, -, hlost, -⟩ :=
    @announcements_exact 1 c _ 0 first rfl rfl rfl lost rfl
  obtain ⟨-, -, -, hregained, -⟩ :=
    @announcements_exact 1 c _ 0 first rfl rfl rfl regained rfl
  refine ⟨rfl, rfl, rfl, fun hmem => ?_, (hregained location).mpr ?_⟩
  · obtain ⟨earlier, hlast, hclosest⟩ := (hlost location).mp hmem
    -- the survey was the last look, and the second node had joined by then
    rw [show lost = [.look (.written location), .membership (.joined second)] ++
      [.look (.surveyed [location, location])] from rfl, Occurrence.lastLook_concat] at hlast
    obtain ⟨-, rfl⟩ := hlast.resolve_right fun h => h.1 List.mem_cons_self
    have hcloser := hclosest.nearest second (by decide +kernel) (by decide)
    exact absurd hcloser (by decide)
  · let left : List Occurrence := lost ++ [.membership (.left second.id)]
    have hmembers : ((left.foldl (undergo 0) c).replica 0).directory.members = [first] := by
      decide +kernel
    refine ⟨left, ⟨.look (.surveyed [location]), [], rfl, List.mem_singleton_self _,
      fun _ h => nomatch h⟩, ?_, fun m hm hne => ?_⟩
    · rw [hmembers]
      exact List.mem_singleton_self _
    · rw [hmembers, List.mem_singleton] at hm
      exact absurd (congrArg Peer.id hm) hne

end Cluster

end DeltaMesh
