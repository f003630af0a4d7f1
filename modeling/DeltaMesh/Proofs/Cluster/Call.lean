import DeltaMesh.Proofs.Cluster.Course
import DeltaMesh.Proofs.Cluster.Record
import Mathlib.Logic.Relation

/-!
# Calls

A call has a node reconcile a location. If the location is claimed already the call reports that and
is over. Otherwise it claims the location, looks up replicas and values, leads one conversation with
each replica, reports, and gives the location back (`Call.Step`); it may also be broken off
(`Call.breakOff`). A conversation keeps a record of what happens in it (`Conversation.advance`).

Of the locations that the node has claimed a step changes at most the call's own, which is claimed
exactly while the call is open (`Call.Step.shift`).
-/

namespace DeltaMesh

variable {n : Nat} {α : Type}

/-! ### The course of a call -/

/-- How far a call has come. -/
inductive Call.Stage
  /-- It has not begun. -/
  | planned
  /-- The location is claimed. -/
  | claimed
  /-- The conversations go on. -/
  | talking
  /-- It is over. -/
  | reported (report : LocationReport)
  | brokenOff

/-- A call for the reconciliation of a location. -/
structure Call (n : Nat) where
  location : Id
  stage : Call.Stage := .planned
  /-- Whether the location was claimed already when the call began. -/
  found : Option Bool := none
  /-- The values that the call has found under the location. -/
  values : List (Key × ByteArray) := []
  /-- The conversations with the replicas, closest first. -/
  conversations : List (Conversation n (List ValueResult)) := []

namespace Cluster

/-- Node `i` gives a location back. -/
def release (c : Cluster n) (i : Fin n) (location : Id) : Cluster n :=
  c.setReconciler i ((c.reconciler i).unclaim location)

/-- The values that node `i` has under a location. -/
def valuesUnder (c : Cluster n) (i : Fin n) (location : Id) : List (Key × ByteArray) :=
  (c.replica i).store.entries.under location

end Cluster

namespace Call

/-- A call that has not begun. -/
def plan (location : Id) : Call n := { location := location }

/-- The call has claimed its location and is not over. -/
def isOpen (call : Call n) : Bool :=
  match call.stage with
  | .claimed | .talking => true
  | .planned | .reported _ | .brokenOff => false

def talks (call : Call n) : List (Talk n (List ValueResult)) := call.conversations.map (·.talk)

/-- The requests that the call has sent. -/
def requests (call : Call n) : List (Peer × Request) :=
  call.conversations.flatMap fun x => x.record.filterMap Incident.request?

/-- A step of a call of node `i`. -/
inductive Step (i : Fin n) : Call n → Cluster n → Call n → Cluster n → Prop
  /-- The location is claimed already. -/
  | skip {call : Call n} {c : Cluster n} (hstage : call.stage = .planned)
    (hclaim : (c.reconciler i).claim? call.location = none) :
    Step i call c
      { call with
        stage := .reported { location := call.location, skipped := true }
        found := some ((c.reconciler i).inFlight.contains call.location) } c
  | claim {call : Call n} {c : Cluster n} {q : Reconciler} (hstage : call.stage = .planned)
    (hclaim : (c.reconciler i).claim? call.location = some q) :
    Step i call c
      { call with
        stage := .claimed
        found := some ((c.reconciler i).inFlight.contains call.location) } (c.setReconciler i q)
  /-- There are no replicas, or no values. -/
  | idle {call : Call n} {c : Cluster n} (hstage : call.stage = .claimed)
    (hidle : (c.replicasOf i call.location).isEmpty ∨ (c.valuesUnder i call.location).isEmpty) :
    Step i call c
      { call with
        stage := .reported
          { location := call.location, replicas := (c.replicasOf i call.location).length }
        values := c.valuesUnder i call.location } (c.release i call.location)
  | begin {call : Call n} {c : Cluster n} (hstage : call.stage = .claimed)
    (hbusy : ¬((c.replicasOf i call.location).isEmpty ∨ (c.valuesUnder i call.location).isEmpty)) :
    Step i call c
      { call with
        stage := .talking
        values := c.valuesUnder i call.location
        conversations := (c.replicasOf i call.location).map fun p =>
          ⟨.ofExchange (reconcileReplica ((c.reconciler i).terms c.now) p
            (c.valuesUnder i call.location)), []⟩ } c
  | talk {call : Call n} {c : Cluster n} (hstage : call.stage = .talking)
    (front : List (Conversation n (List ValueResult))) (x : Conversation n (List ValueResult))
    (back : List (Conversation n (List ValueResult)))
    (hconversations : call.conversations = front ++ x :: back) :
    Step i call c { call with conversations := front ++ (x.advance i c).1 :: back }
      (x.advance i c).2
  /-- All conversations are over. -/
  | close {call : Call n} {c : Cluster n} (hstage : call.stage = .talking)
    (rows : List (List ValueResult)) (hover : call.talks = rows.map .finished) :
    Step i call c
      { call with stage := .reported (Reconciliation.close i call.location rows c).1.report }
      (Reconciliation.close i call.location rows c).2

/-- Breaks a call of node `i` off. -/
def breakOff (i : Fin n) (call : Call n) (c : Cluster n) : Call n × Cluster n :=
  match call.stage with
  | .planned => ({ call with stage := .brokenOff }, c)
  | .claimed => ({ call with stage := .brokenOff }, c.release i call.location)
  | .talking =>
    ({ call with stage := .brokenOff },
      (call.talks.foldl Cluster.breakOff c).release i call.location)
  | .reported _ | .brokenOff => (call, c)

end Call

/-! ### What is claimed -/

namespace Cluster

variable {c : Cluster n} {i j : Fin n} {location other : Id}

/-- Serving a request changes nothing about the asking sides, not even at the node that serves it.
-/
theorem reconcilers_deliver (c : Cluster n) (d : Delivery n) :
    (c.deliver d).2.reconcilers = c.reconcilers := by
  rw [deliver, onReplica]
  rcases (c.replica d.replica).turn d.task d.service with ⟨response | _ | _, r⟩ <;> rfl

/-- Sending a request changes no asking side. What a node counts it counts by its notes. -/
theorem reconcilers_send (c : Cluster n) (peer : Peer) (q : Request) :
    (c.send peer q).2.reconcilers = c.reconcilers := by
  obtain ⟨network, reconcilers, meter, script, now, work⟩ := c
  cases script with
  | some script => rfl
  | none =>
    rw [send, sendOver]
    · rcases network.dispatch peer q with ⟨why | d, network'⟩
      · rfl
      · exact reconcilers_deliver _ d
    · intro _ _ _ _ _ _ h
      cases congrArg Cluster.script h

/-- No conversation claims a location or gives one back; both are done by the call that leads it. -/
theorem inFlight_advance (c : Cluster n) (i j : Fin n) (talk : Talk n α) :
    ((c.advance i talk).2.reconciler j).inFlight = (c.reconciler j).inFlight := by
  have hpassed : ∀ (next : Reply → Exchange α) (gone : Passage n × Cluster n),
      (passed next gone).2 = gone.2 := by
    rintro next ⟨_ | _ | _, c'⟩ <;> rfl
  rcases talk with ⟨wait, result | ⟨peer, q, next⟩ | ⟨what, next⟩ | ⟨effort, next⟩⟩ |
    ⟨d, wait, next⟩ | _ | result
  case resting.ask =>
    rw [advance, hpassed, reconciler, reconciler, reconcilers_send]
  case resting.note => exact (c.moves_jot (T := fun _ _ => False) (D := True) i what).inFlight j
  case asking => rw [advance, hpassed, reconciler, reconciler, reconcilers_deliver]
  all_goals rfl

theorem reconcilers_breakOff (c : Cluster n) (talk : Talk n α) :
    (c.breakOff talk).reconcilers = c.reconcilers := by
  cases talk <;> rfl

theorem reconciler_breakOffAll (c : Cluster n) (talks : List (Talk n α)) (j : Fin n) :
    (talks.foldl breakOff c).reconciler j = c.reconciler j := by
  induction talks generalizing c with
  | nil => rfl
  | cons talk talks ih =>
    exact (ih _).trans (congrArg (Vector.get · j) (reconcilers_breakOff c talk))

/-- Giving a location back removes this claim and no other. -/
theorem inFlight_release (c : Cluster n) (i : Fin n) (location : Id) :
    ((c.release i location).reconciler i).inFlight =
      (c.reconciler i).inFlight.erase location := by
  rw [release, reconciler_set_self, Reconciler.unclaim]

end Cluster

/-- How a call changes the claimed locations: it was open and is open afterwards, or not. -/
inductive Call.Shift (location : Id) :
    Bool → Std.ExtTreeSet Id compare → Bool → Std.ExtTreeSet Id compare → Prop
  | keeps (wasOpen : Bool) (claimed : Std.ExtTreeSet Id compare) :
    Shift location wasOpen claimed wasOpen claimed
  | claims {claimed : Std.ExtTreeSet Id compare} (hfree : location ∉ claimed) :
    Shift location false claimed true (claimed.insert location)
  | returns (claimed : Std.ExtTreeSet Id compare) :
    Shift location true claimed false (claimed.erase location)

namespace Reconciler

variable {q q' : Reconciler} {location : Id}

/-- A claim succeeds only for a location that is not claimed, and adds it. -/
theorem claim?_eq_some (h : q.claim? location = some q') :
    location ∉ q.inFlight ∧ q' = { q with inFlight := q.inFlight.insert location } := by
  rw [claim?] at h
  split at h
  case isTrue => cases h
  case isFalse hfree =>
    refine ⟨fun hmem => hfree (Std.ExtTreeSet.contains_iff_mem.mpr hmem), ?_⟩
    exact (Option.some.inj h).symm

/-- A claim fails only for a location that is claimed already. -/
theorem claim?_eq_none (h : q.claim? location = none) : q.inFlight.contains location = true := by
  rw [claim?] at h
  split at h
  case isTrue hclaimed => exact hclaimed
  case isFalse => cases h

end Reconciler

namespace Call

variable {i : Fin n} {call call' : Call n} {c c' : Cluster n}

theorem isOpen_of_claimed (h : call.stage = .claimed) : call.isOpen = true := by rw [isOpen, h]

theorem isOpen_of_talking (h : call.stage = .talking) : call.isOpen = true := by rw [isOpen, h]

theorem isOpen_of_planned (h : call.stage = .planned) : call.isOpen = false := by rw [isOpen, h]

/-- A call is about one location from its beginning to its end. -/
theorem Step.location (h : Step i call c call' c') : call'.location = call.location := by
  cases h <;> rfl

/-- The step lemma: in one step a call opens and claims its location, or closes and gives it back,
or does neither. -/
theorem Step.shift (h : Step i call c call' c') :
    Shift call.location call.isOpen (c.reconciler i).inFlight call'.isOpen
      (c'.reconciler i).inFlight := by
  cases h with
  | skip hstage _ =>
    rw [isOpen_of_planned hstage]
    exact .keeps false _
  | claim hstage hclaim =>
    obtain ⟨hfree, rfl⟩ := Reconciler.claim?_eq_some hclaim
    rw [isOpen_of_planned hstage, Cluster.reconciler_set_self]
    exact .claims hfree
  | idle hstage _ =>
    rw [isOpen_of_claimed hstage, Cluster.inFlight_release]
    exact .returns _
  | begin hstage _ =>
    rw [isOpen_of_claimed hstage]
    exact .keeps true _
  | talk hstage front x back _ =>
    rw [Conversation.advance, Cluster.inFlight_advance]
    exact .keeps _ _
  | close hstage rows _ =>
    have hreleased := c.inFlight_release i call.location
    rw [isOpen_of_talking hstage]
    exact hreleased ▸ .returns _

theorem location_breakOff (i : Fin n) (call : Call n) (c : Cluster n) :
    (call.breakOff i c).1.location = call.location := by
  cases hstage : call.stage <;> simp only [breakOff, hstage]

/-- A call that is broken off closes, and its claim is given back if it was open. The claim is given
back by whoever drops the call, not by the call itself, as nothing of it runs any more. -/
theorem shift_breakOff (i : Fin n) (call : Call n) (c : Cluster n) :
    Shift call.location call.isOpen (c.reconciler i).inFlight (call.breakOff i c).1.isOpen
      ((call.breakOff i c).2.reconciler i).inFlight := by
  cases hstage : call.stage with
  | planned =>
    simp only [breakOff, isOpen, hstage]
    exact .keeps false _
  | claimed =>
    simp only [breakOff, isOpen, hstage, Cluster.inFlight_release]
    exact .returns _
  | talking =>
    simp only [breakOff, isOpen, hstage, Cluster.inFlight_release, Cluster.reconciler_breakOffAll]
    exact .returns _
  | reported report =>
    simp only [breakOff, isOpen, hstage]
    exact .keeps false _
  | brokenOff =>
    simp only [breakOff, isOpen, hstage]
    exact .keeps false _

end Call

end DeltaMesh
