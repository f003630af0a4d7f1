import DeltaMesh.Proofs.Cluster.Advance
import Mathlib.Algebra.BigOperators.Group.List.Basic

/-!
# The record of a conversation

A conversation keeps a record of what happens in it: what is noted, what is asked, and what comes
back (`Conversation.advance`). What a record says can be counted, and counts of records that follow
one another add up: what the node has counted (`Record.tally`), and the answers of each sort that
have come back (`Incident.brings`). The record of a conversation balances if the one agrees with the
other (`Record.Balances`).
-/

namespace DeltaMesh

variable {n : Nat} {α : Type}

/-- What happens in a conversation. -/
inductive Incident (n : Nat)
  | noted (what : Note)
  | asked (peer : Peer) (q : Request)
  /-- A replica answers a request of this kind. -/
  | answered (replica : Fin n) (kind : RequestKind) (response : Response)
  /-- The network fails a request. -/
  | refused (why : NetworkError)

/-- What has happened, in order. -/
abbrev Record (n : Nat) := List (Incident n)

namespace Cluster

/-- What happens in the turn of a request at its replica. -/
def answering (c : Cluster n) (d : Delivery n) : Record n :=
  match ((c.replica d.replica).turn d.task d.service).1 with
  | .answered response => [.answered d.replica d.kind response]
  | .computing .. | .locked _ => []

/-- What happens when a request is sent over the network. -/
def meeting (c : Cluster n) (peer : Peer) (q : Request) : Record n :=
  match c.network.dispatch peer q with
  | (.error why, _) => [.refused why]
  | (.ok d, network) => { c with network }.answering d

/-- What happens in a step of a conversation. What a script answers is not recorded. -/
def incidents (c : Cluster n) : Talk n α → Record n
  | .resting _ (.note what _) => [.noted what]
  | .resting _ (.ask peer q _) =>
    .asked peer q :: if c.script.isNone then c.meeting peer q else []
  | .asking d _ _ => c.answering d
  | _ => []

end Cluster

/-- A conversation with what has happened in it. -/
structure Conversation (n : Nat) (α : Type) where
  talk : Talk n α
  record : Record n := []

/-- Carries a conversation of a node on by one step. -/
def Conversation.advance (i : Fin n) (x : Conversation n α) (c : Cluster n) :
    Conversation n α × Cluster n :=
  (⟨(c.advance i x.talk).1, x.record ++ c.incidents x.talk⟩, (c.advance i x.talk).2)

/-! ### Counting -/

namespace SentTally

variable (t u : SentTally)

@[simp] theorem infos_add : (t + u).infos = t.infos + u.infos := rfl

@[simp] theorem copies_add : (t + u).copies = t.copies + u.copies := rfl

@[simp] theorem syncs_add : (t + u).syncs = t.syncs + u.syncs := rfl

@[simp] theorem failures_add : (t + u).failures = t.failures + u.failures := rfl

end SentTally

def Response.isInfo (response : Response) : Bool := response matches .info ..

def Response.isCopyAck (response : Response) : Bool := response matches .copyAck _

def Response.isSyncAck (response : Response) : Bool := response matches .syncAck _

def Response.isFailed (response : Response) : Bool := response matches .failed _

/-- The reply is such a response. -/
def Reply.brings (p : Response → Bool) : Reply → Bool
  | .ok response => p response
  | .error _ => false

namespace Incident

/-- The request that is sent. -/
def request? : Incident n → Option (Peer × Request)
  | asked peer q => some (peer, q)
  | noted _ | answered .. | refused _ => none

def isAsked : Incident n → Bool
  | asked .. => true
  | noted _ | answered .. | refused _ => false

def isAnswered : Incident n → Bool
  | answered .. => true
  | noted _ | asked .. | refused _ => false

def isRefused : Incident n → Bool
  | refused _ => true
  | noted _ | asked .. | answered .. => false

/-- A value is left out of a hand-over. -/
def isSkipped : Incident n → Bool
  | noted what => what = .valueSkipped
  | asked .. | answered .. | refused _ => false

/-- Such a response comes back. -/
def brings (p : Response → Bool) : Incident n → Bool
  | answered _ _ response => Reply.brings p response.arrived
  | noted _ | asked .. | refused _ => false

/-- What the asking node counts. -/
def tally : Incident n → SentTally
  | noted what => SentTally.record 0 what
  | asked .. | answered .. | refused _ => 0

end Incident

namespace Record

/-- What the asking node has counted. -/
def tally (record : Record n) : SentTally := (record.map Incident.tally).sum

theorem tally_append (record more : Record n) :
    tally (record ++ more) = tally record + tally more := by
  rw [tally, List.map_append, List.sum_append]
  rfl

theorem tally_cons (incident : Incident n) (record : Record n) :
    tally (incident :: record) = incident.tally + tally record := List.sum_cons

/-- Each request was answered or refused, and the node has counted each answer that has come back,
and so many failures. -/
structure Balances (failures : Nat) (record : Record n) : Prop where
  settled : record.countP Incident.isAsked =
    record.countP Incident.isAnswered + record.countP Incident.isRefused
  infos : (tally record).infos = record.countP (Incident.brings Response.isInfo)
  copies : (tally record).copies = record.countP (Incident.brings Response.isCopyAck)
  syncs : (tally record).syncs = record.countP (Incident.brings Response.isSyncAck)
  failures : (tally record).failures = failures

variable {record more : Record n} {failures others : Nat}

theorem Balances.nil : Balances 0 ([] : Record n) := ⟨rfl, rfl, rfl, rfl, rfl⟩

theorem Balances.append (h : Balances failures record) (hmore : Balances others more) :
    Balances (failures + others) (record ++ more) where
  settled := by
    rw [List.countP_append, List.countP_append, List.countP_append, h.settled, hmore.settled]
    omega
  infos := by rw [tally_append, SentTally.infos_add, List.countP_append, h.infos, hmore.infos]
  copies := by rw [tally_append, SentTally.copies_add, List.countP_append, h.copies, hmore.copies]
  syncs := by rw [tally_append, SentTally.syncs_add, List.countP_append, h.syncs, hmore.syncs]
  failures := by rw [tally_append, SentTally.failures_add, h.failures, hmore.failures]

/-- Records that balance do so together. -/
theorem balances_flatMap {β : Type} {l : List β} {record : β → Record n} {failures : β → Nat}
    (h : ∀ b ∈ l, Balances (failures b) (record b)) :
    Balances (l.map failures).sum (l.flatMap record) := by
  induction l with
  | nil => exact .nil
  | cons b l ih =>
    obtain ⟨hfirst, hrest⟩ := List.forall_mem_cons.mp h
    rw [List.map_cons, List.sum_cons, List.flatMap_cons]
    exact hfirst.append (ih hrest)

/-- The record balances, and each failure is a value that was left out of a hand-over. -/
structure Skips (skipped : Nat) (record : Record n) : Prop extends Balances skipped record where
  skipped : record.countP Incident.isSkipped = skipped

/-- A value that is left out is a failure, so there are no more of them than failures. -/
theorem countP_isSkipped_le (record : Record n) :
    record.countP Incident.isSkipped ≤ (tally record).failures := by
  induction record with
  | nil => exact Nat.le_refl 0
  | cons incident record ih =>
    rw [tally_cons, SentTally.failures_add, List.countP_cons, Nat.add_comm]
    refine Nat.add_le_add ?_ ih
    cases incident with
    | noted what => cases what <;> first | exact Nat.le_refl _ | exact Nat.zero_le _
    | asked | answered | refused => exact Nat.zero_le _

/-- A conversation without hand-over skips no value. -/
theorem Balances.skips (h : Balances 0 record) : Skips 0 record :=
  { h with skipped := Nat.le_zero.mp (h.failures ▸ countP_isSkipped_le record) }

theorem Skips.append (h : Skips failures record) (hmore : Skips others more) :
    Skips (failures + others) (record ++ more) :=
  { h.toBalances.append hmore.toBalances with
    skipped := by rw [List.countP_append, h.skipped, hmore.skipped] }

end Record

end DeltaMesh
