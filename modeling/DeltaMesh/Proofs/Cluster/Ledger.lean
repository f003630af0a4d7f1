import DeltaMesh.Proofs.Cluster.Call
import DeltaMesh.Proofs.Cluster.Account
import DeltaMesh.Proofs.Replica.Served
import Mathlib.Algebra.Group.Pi.Lemmas

/-!
# One ledger for all layers

What the asking node, the network, the replicas and the meter have counted makes up one ledger
(`Cluster.ledger`). The record of a conversation says what should be in it (`Record.ledger`), apart
from what replicas have counted of a request that is under way (`Talk.held`). In each step of a
conversation the ledger grows by what is entered in the books of that conversation
(`Conversation.Sound.advance`).
-/

namespace DeltaMesh

variable {n : Nat} {α : Type}

/-! ### Ledgers -/

/-- What the layers have counted. -/
@[ext]
structure Ledger (n : Nat) where
  /-- What the asking node has counted. -/
  tally : SentTally := 0
  /-- The requests that the network has listed. -/
  sent : Nat := 0
  /-- The requests that the network counts as answered. -/
  answered : Nat := 0
  /-- The requests that the network has failed. -/
  refused : Nat := 0
  /-- What the replicas have counted. -/
  served : Fin n → ServedTally := 0
  /-- What the counters show. -/
  counts : Counter → Nat := 0

namespace Ledger

instance : Zero (Ledger n) := ⟨{}⟩

instance : Add (Ledger n) where
  add l m :=
    ⟨l.tally + m.tally, l.sent + m.sent, l.answered + m.answered, l.refused + m.refused,
      l.served + m.served, l.counts + m.counts⟩

instance : SMul Nat (Ledger n) where
  smul k l :=
    ⟨k • l.tally, k * l.sent, k * l.answered, k * l.refused, k • l.served, k • l.counts⟩

def toTuple (l : Ledger n) :
    SentTally × Nat × Nat × Nat × (Fin n → ServedTally) × (Counter → Nat) :=
  (l.tally, l.sent, l.answered, l.refused, l.served, l.counts)

theorem toTuple_injective : Function.Injective (toTuple : Ledger n → _) := by
  rintro ⟨a, b, c, d, e, f⟩ ⟨a', b', c', d', e', f'⟩ h
  simp only [toTuple, Prod.mk.injEq] at h
  obtain ⟨rfl, rfl, rfl, rfl, rfl, rfl⟩ := h
  rfl

instance : AddCommMonoid (Ledger n) :=
  toTuple_injective.addCommMonoid toTuple rfl (fun _ _ => rfl) fun _ _ => rfl

/-- The books of one come after those of the others. -/
theorem sum_middle {β : Type} (books : β → Ledger n) (front back : List β) (b : β) :
    ((front ++ b :: back).map books).sum = ((front ++ back).map books).sum + books b := by
  rw [(List.perm_middle.map books).sum_eq, List.map_cons, List.sum_cons, add_comm]

end Ledger

/-! ### Counters -/

/-- By how much a note moves each counter. -/
def Note.moves : Note → Counter → Nat
  | infoAnswered holding => Pi.single (.infoAnswers holding) 1
  | copied bytes => Pi.single .copies 1 + Pi.single (.bytesSent .copy) bytes
  | synced ack payload saved =>
    Pi.single (.syncs ack) 1 + Pi.single (.bytesSent .sync) payload + Pi.single .bytesSaved saved
  | requestFailed kind => Pi.single (.requestFailures kind) 1
  | valueSettled | valueFailed _ | valueSkipped | handedOver => 0

namespace Meter

/-- Moving a counter adds to that counter and to no other, whether it was listed before or not. -/
theorem lookup_move (counter other : Counter) (amount : Nat) (counts : List (Counter × Nat)) :
    ((move counter amount counts).lookup other).getD 0 =
      (counts.lookup other).getD 0 + if other = counter then amount else 0 := by
  induction counts with
  | nil =>
    rw [move, List.lookup_cons, List.lookup_nil]
    split <;> simp_all
  | cons p rest ih =>
    obtain ⟨c, k⟩ := p
    rw [move]
    split
    case isTrue heq =>
      subst heq
      rw [List.lookup_cons, List.lookup_cons]
      split <;> simp_all
    case isFalse hne =>
      rw [List.lookup_cons, List.lookup_cons]
      split
      · simp_all
      · exact ih

theorem count_add (m : Meter) (counter : Counter) (amount : Nat) :
    (m.add counter amount).count = m.count + Pi.single counter amount := by
  funext other
  rw [Pi.add_apply, Pi.single_apply]
  exact lookup_move counter other amount m.counts

/-- What a note adds to the meter is what the ledger of the note says. -/
theorem count_record (m : Meter) (what : Note) : (m.record what).count = m.count + what.moves := by
  cases what with
  | infoAnswered holding => exact count_add ..
  | copied bytes => rw [record, count_add, count_add, add_assoc]; rfl
  | synced ack payload saved =>
    rw [record, count_add, count_add, count_add, add_assoc, add_assoc, Note.moves, add_assoc]
  | requestFailed kind => exact count_add ..
  | valueSettled | valueFailed _ | valueSkipped | handedOver => exact (add_zero _).symm

theorem count_observe (m : Meter) (position : Nat) (t : Tracker) :
    (m.observe position t).count = m.count := by
  rw [observe]
  split <;> rfl

end Meter

/-! ### Books -/

/-- What the cluster has counted, with node `i` asking. -/
def Cluster.ledger (i : Fin n) (c : Cluster n) : Ledger n where
  tally := (c.reconciler i).tally
  sent := c.network.sent.length
  answered := c.network.traffic.requestsSent
  refused := c.network.traffic.failures
  served q := (c.replica q).served
  counts := c.meter.count

/-- What should be counted. -/
def Incident.ledger : Incident n → Ledger n
  | noted what => { tally := SentTally.record 0 what, counts := what.moves }
  | asked .. => { sent := 1 }
  | answered replica kind response =>
    { answered := 1
      served := Pi.single replica (.ofAnswer kind response)
      counts := Pi.single (.served kind response.isFailed) 1 }
  | refused _ => { refused := 1 }

/-- What should be counted. -/
def Record.ledger (record : Record n) : Ledger n := (record.map Incident.ledger).sum

/-- What the replica has counted of a request. -/
def Delivery.held (d : Delivery n) : Ledger n :=
  { served := Pi.single d.replica d.service.counted }

/-- What a replica has counted of a request of the conversation that is under way. -/
def Talk.held : Talk n α → Ledger n
  | asking d _ _ => d.held
  | resting .. | silent | finished _ => 0

/-- What should be counted of a conversation. -/
def Conversation.books (x : Conversation n α) : Ledger n := x.record.ledger + x.talk.held

/-- The ledger of two records is the sum of theirs. -/
theorem Record.ledger_append (record more : Record n) :
    ledger (record ++ more) = ledger record + ledger more := by
  rw [ledger, List.map_append, List.sum_append]
  rfl

theorem Record.ledger_flatMap {β : Type} (l : List β) (record : β → Record n) :
    ledger (l.flatMap record) = (l.map fun b => ledger (record b)).sum := by
  induction l with
  | nil => rfl
  | cons b l ih => rw [List.flatMap_cons, ledger_append, ih, List.map_cons, List.sum_cons]

namespace Record

theorem ledger_cons (incident : Incident n) (record : Record n) :
    ledger (incident :: record) = incident.ledger + ledger record := List.sum_cons

/-- What the asking node counts is read off the record alone: it is moved by notes and by nothing
else. -/
theorem tally_ledger (record : Record n) : (ledger record).tally = tally record := by
  induction record with
  | nil => rfl
  | cons incident record ih =>
    rw [ledger_cons, tally_cons, ← ih]
    cases incident <;> rfl

/-- A figure of the ledger that such incidents raise by one counts them. -/
theorem ledger_countP (figure : Ledger n → Nat) (hzero : figure 0 = 0)
    (hadd : ∀ l m, figure (l + m) = figure l + figure m) {p : Incident n → Bool}
    (h : ∀ incident : Incident n, figure incident.ledger = (p incident).toNat) (record : Record n) :
    figure (ledger record) = record.countP p := by
  induction record with
  | nil => exact hzero
  | cons incident record ih =>
    rw [ledger_cons, hadd, ih, h, List.countP_cons, Nat.add_comm]
    cases p incident <;> rfl

end Record

/-- A request of replica `q` that was answered like this. -/
def Incident.servedAt (q : Fin n) (p : RequestKind → Response → Bool) : Incident n → Bool
  | answered replica kind response => replica = q && p kind response
  | noted _ | asked .. | refused _ => false

/-- Each replica has counted its requests and answers: of what a record tells, those incidents at
which a request was served at this replica. -/
theorem Record.served_ledger (record : Record n) (q : Fin n) : (ledger record).served q =
    { infos := record.countP (Incident.servedAt q fun kind _ => kind = .info)
      copies := record.countP (Incident.servedAt q fun kind _ => kind = .copy)
      syncsApplied := record.countP (Incident.servedAt q fun _ response =>
        response matches .syncAck .applied)
      syncsUnchanged := record.countP (Incident.servedAt q fun _ response =>
        response matches .syncAck .unchanged)
      failures := record.countP (Incident.servedAt q fun _ response => response.isFailed) } := by
  have hfigure : ∀ figure : ServedTally → Nat, figure 0 = 0 →
      (∀ t u, figure (t + u) = figure t + figure u) → ∀ p : RequestKind → Response → Bool,
        (∀ kind response, figure (.ofAnswer kind response) = (p kind response).toNat) →
          figure ((ledger record).served q) = record.countP (Incident.servedAt q p) := by
    intro figure hzero hadd p h
    refine ledger_countP (fun l => figure (l.served q)) hzero (fun _ _ => hadd _ _) ?_ record
    intro incident
    cases incident with
    | answered j kind response =>
      show figure ((Pi.single j (ServedTally.ofAnswer kind response) : Fin n → ServedTally) q) =
        (j = q && p kind response).toNat
      by_cases hj : j = q
      · subst hj
        rw [Pi.single_eq_same, h, decide_eq_true rfl, Bool.true_and]
      · rw [Pi.single_eq_of_ne (Ne.symm hj), hzero, decide_eq_false hj]
        rfl
    | noted | asked | refused => exact hzero
  rw [← hfigure ServedTally.infos rfl (fun _ _ => rfl) _ fun kind _ => by cases kind <;> rfl,
    ← hfigure ServedTally.copies rfl (fun _ _ => rfl) _ fun kind _ => by cases kind <;> rfl,
    ← hfigure ServedTally.syncsApplied rfl (fun _ _ => rfl) _ fun _ response => by
      rcases response with _ | _ | (_ | _) | _ <;> rfl,
    ← hfigure ServedTally.syncsUnchanged rfl (fun _ _ => rfl) _ fun _ response => by
      rcases response with _ | _ | (_ | _) | _ <;> rfl,
    ← hfigure ServedTally.failures rfl (fun _ _ => rfl) _ fun _ response => by
      cases response <;> rfl]

/-- What the meter shows agrees with what the node has counted, and with the requests that were
answered. -/
structure Ledger.Metered (l : Ledger n) : Prop where
  infos : ([.same, .nothing, .other].map fun holding => l.counts (.infoAnswers holding)).sum =
    l.tally.infos
  upToDate : l.counts (.infoAnswers .same) = l.tally.upToDate
  copies : l.counts .copies = l.tally.copies
  syncs : ([.applied, .unchanged].map fun ack => l.counts (.syncs ack)).sum = l.tally.syncs
  bytesSent : ([.copy, .sync].map fun kind => l.counts (.bytesSent kind)).sum = l.tally.bytesSent
  bytesSaved : l.counts .bytesSaved = l.tally.bytesSaved
  served : (([.info, .copy, .sync].product [false, true]).map fun p =>
    l.counts (.served p.1 p.2)).sum = l.answered

namespace Ledger

variable {l m : Ledger n}

theorem metered_zero : Metered (0 : Ledger n) := ⟨rfl, rfl, rfl, rfl, rfl, rfl, rfl⟩

theorem Metered.add (h : l.Metered) (h' : m.Metered) : (l + m).Metered where
  infos := (List.sum_map_add ..).trans (congrArg₂ (· + ·) h.infos h'.infos)
  upToDate := congrArg₂ (· + ·) h.upToDate h'.upToDate
  copies := congrArg₂ (· + ·) h.copies h'.copies
  syncs := (List.sum_map_add ..).trans (congrArg₂ (· + ·) h.syncs h'.syncs)
  bytesSent := (List.sum_map_add ..).trans (congrArg₂ (· + ·) h.bytesSent h'.bytesSent)
  bytesSaved := congrArg₂ (· + ·) h.bytesSaved h'.bytesSaved
  served := (List.sum_map_add ..).trans (congrArg₂ (· + ·) h.served h'.served)

/-- Every single incident moves the counters of the process as it moves those of the nodes. -/
theorem metered_incident (incident : Incident n) : incident.ledger.Metered := by
  cases incident with
  | noted what =>
    rcases what with holding | bytes | ⟨ack, payload, saved⟩ | kind | _ | _ | _ | _
    · cases holding <;> exact ⟨rfl, rfl, rfl, rfl, rfl, rfl, rfl⟩
    · exact ⟨rfl, rfl, rfl, rfl, rfl, rfl, rfl⟩
    · cases ack <;> exact ⟨rfl, rfl, rfl, rfl, Nat.zero_add _, rfl, rfl⟩
    all_goals exact ⟨rfl, rfl, rfl, rfl, rfl, rfl, rfl⟩
  | asked | refused => exact ⟨rfl, rfl, rfl, rfl, rfl, rfl, rfl⟩
  | answered j kind response =>
    refine ⟨rfl, rfl, rfl, rfl, rfl, rfl, ?_⟩
    rw [Incident.ledger]
    cases kind <;> cases response.isFailed <;> rfl

/-- For every record the counters of the process are the sums of the nodes' own counts. -/
theorem metered_record (record : Record n) : record.ledger.Metered := by
  induction record with
  | nil => exact metered_zero
  | cons incident record ih => exact (metered_incident incident).add ih

end Ledger

/-- The cluster changes from `c` to `c'` while the books change from `b` to `b'`, and what is
counted is entered in the books. -/
structure Entered (i : Fin n) (c : Cluster n) (b : Ledger n) (c' : Cluster n) (b' : Ledger n) :
    Prop where
  script : c'.script = c.script
  config : (c'.reconciler i).config = (c.reconciler i).config
  ledger : ∃ more, c'.ledger i = c.ledger i + more ∧ b' = b + more

namespace Entered

variable {i : Fin n} {c c' c'' : Cluster n} {b b' b'' : Ledger n}

theorem refl (i : Fin n) (c : Cluster n) (b : Ledger n) : Entered i c b c b :=
  ⟨rfl, rfl, 0, (add_zero _).symm, (add_zero _).symm⟩

theorem trans (h : Entered i c b c' b') (h' : Entered i c' b' c'' b'') :
    Entered i c b c'' b'' := by
  obtain ⟨more, hledger, rfl⟩ := h.ledger
  obtain ⟨more', hledger', rfl⟩ := h'.ledger
  refine ⟨h'.script.trans h.script, h'.config.trans h.config, more + more', ?_, add_assoc ..⟩
  rw [hledger', hledger, add_assoc]

/-- Other books stay as they are. -/
theorem beside (h : Entered i c b c' b') (others : Ledger n) :
    Entered i c (others + b) c' (others + b') := by
  obtain ⟨more, hledger, rfl⟩ := h.ledger
  exact ⟨h.script, h.config, more, hledger, (add_assoc ..).symm⟩

/-- What is entered in addition is entered in addition to anything. -/
theorem ahead (h : Entered i c b c' b') (others : Ledger n) :
    Entered i c (b + others) c' (b' + others) := by
  rw [add_comm b, add_comm b']
  exact h.beside others

end Entered

namespace Cluster

variable {i : Fin n} {c : Cluster n}

/-! ### Requests -/

/-- What becomes of a request of this kind, and what is recorded then. -/
inductive Passes (i : Fin n) (c : Cluster n) (b : Ledger n) (kind : RequestKind) :
    Passage n × Cluster n → Record n → Prop
  | answered (j : Fin n) {response : Response} {c' : Cluster n} (hsuits : response.Suits kind)
    (h : Entered i c b c' (Incident.answered j kind response).ledger) :
    Passes i c b kind (.back response.arrived, c') [.answered j kind response]
  | underWay {d : Delivery n} (wait : Wait n) {c' : Cluster n} (hkind : d.kind = kind)
    (hserves : d.service.Serves d.kind) (h : Entered i c b c' d.held) :
    Passes i c b kind (.underWay d wait, c') []

/-- A replica has counted more. -/
theorem served_tally (c : Cluster n) (j : Fin n) {r : Replica} {more : ServedTally}
    (h : r.served = (c.replica j).served + more) :
    (fun q => ((c.served j r).replica q).served) =
      (fun q => (c.replica q).served) + Pi.single j more := by
  funext q
  rw [Pi.add_apply]
  by_cases hq : q = j
  · subst hq
    rw [replica_served_self, Pi.single_eq_same, h]
  · rw [replica_served_of_ne c j r hq, Pi.single_eq_of_ne hq, add_zero]

/-- What belongs to a request is counted in its turn, whether it is answered in this turn or goes on
later. -/
theorem passes_deliver (c : Cluster n) {d : Delivery n} (h : d.service.Serves d.kind) :
    Passes i c d.held d.kind (c.deliver d) (c.answering d) := by
  have hturn := (c.replica d.replica).turn_counted d.task h
  rw [deliver, onReplica, answering]
  generalize (c.replica d.replica).turn d.task d.service = ended at hturn
  obtain ⟨stop, r⟩ := ended
  obtain ⟨hserves, more, hserved, hcounted⟩ := hturn
  dsimp only at hserves hserved hcounted
  have hreplicas := c.served_tally d.replica hserved
  have hmeter := c.meter.count_observe (c.replica d.replica).tracker.log.size r.tracker
  have hwaiting : ∀ {rest : Service}, rest.counted = d.service.counted + more →
      Entered i c d.held (c.served d.replica r) (Delivery.held { d with service := rest }) := by
    intro rest hrest
    refine ⟨rfl, rfl, { served := Pi.single d.replica more }, ?_, ?_⟩
    · refine Ledger.ext (add_zero _).symm rfl rfl rfl hreplicas ?_
      exact hmeter.trans (add_zero _).symm
    · refine Ledger.ext (add_zero _).symm rfl rfl rfl ?_ (add_zero _).symm
      exact (congrArg (Pi.single d.replica) hrest).trans (Pi.single_add ..)
  cases stop with
  | answered response =>
    let counted : Ledger n :=
      { answered := 1
        served := Pi.single d.replica more
        counts := Pi.single (.served d.kind response.isFailed) 1 }
    refine .answered d.replica hserves ⟨rfl, rfl, counted, ?_, ?_⟩
    · refine Ledger.ext (add_zero _).symm rfl rfl rfl hreplicas ?_
      exact (Meter.count_add ..).trans (congrArg (fun counts => counts + _) hmeter)
    · refine Ledger.ext (add_zero _).symm rfl rfl rfl ?_ (zero_add _).symm
      exact (congrArg (Pi.single d.replica) hcounted).trans (Pi.single_add ..)
  | computing effort rest =>
    obtain ⟨hscript, hconfig, hledger⟩ := hwaiting hcounted
    exact .underWay _ rfl hserves ⟨hscript, hconfig, hledger⟩
  | locked rest => exact .underWay _ rfl hserves (hwaiting hcounted)

/-- Only a change of the tally shows in the books. -/
theorem entered_setReconciler (c : Cluster n) {q : Reconciler} (b : Ledger n)
    (hconfig : q.config = (c.reconciler i).config) (htally : q.tally = (c.reconciler i).tally) :
    Entered i c b (c.setReconciler i q) b := by
  have hself := c.reconciler_set_self i q
  refine ⟨rfl, (congrArg Reconciler.config hself).trans hconfig, 0, ?_, (add_zero _).symm⟩
  rw [add_zero]
  exact Ledger.ext ((congrArg Reconciler.tally hself).trans htally) rfl rfl rfl rfl rfl

/-- A note is entered as the incident that it is. -/
theorem entered_jot (c : Cluster n) (what : Note) :
    Entered i c 0 (c.jot i what) (Incident.noted what).ledger := by
  have hjotted : (c.jot i what).reconciler i = (c.reconciler i).record what :=
    reconciler_set_self ..
  refine ⟨rfl, ?_, (Incident.noted what).ledger, ?_, (zero_add _).symm⟩
  · rw [hjotted]
    rfl
  · refine Ledger.ext ?_ rfl rfl rfl (add_zero _).symm (Meter.count_record ..)
    show ((c.jot i what).reconciler i).tally = (c.reconciler i).tally + SentTally.record 0 what
    rw [hjotted, ← SentTally.record_eq_add]
    rfl

/-- A request is refused, or a replica gets it. In both cases it is listed; if it is refused, then
that is entered at once, and otherwise what is entered depends on the delivery. -/
theorem send_cases (hscript : c.script = none) (peer : Peer) {q : Request} (hfits : q.Fits) :
    (∃ why c', c.send peer q = (.back (.error why), c') ∧ c.meeting peer q = [.refused why] ∧
      Entered i c 0 c' (Record.ledger [.asked peer q, .refused why])) ∨
    ∃ d c', d.kind = q.kind ∧ d.service.Serves d.kind ∧ c.send peer q = c'.deliver d ∧
      c.meeting peer q = c'.answering d ∧
      Entered i c 0 c' ((Incident.asked peer q).ledger + d.held) := by
  obtain ⟨network, reconcilers, meter, script, now, work⟩ := c
  subst hscript
  have hsend : send ⟨network, reconcilers, meter, none, now, work⟩ peer q =
    sendOver ⟨network, reconcilers, meter, none, now, work⟩ peer q := rfl
  rw [hsend, sendOver, meeting, Network.dispatch]
  dsimp only
  by_cases hgone : network.unreachable.contains peer.id
  case pos =>
    rw [if_pos hgone]
    refine .inl ⟨_, _, rfl, rfl, rfl, rfl, { sent := 1, refused := 1 }, ?_, ?_⟩
    · exact Ledger.ext (add_zero _).symm rfl rfl rfl (add_zero _).symm (add_zero _).symm
    · rfl
  case neg =>
    rw [if_neg hgone]
    cases network.registered[peer.id]? with
    | none =>
      refine .inl ⟨_, _, rfl, rfl, rfl, rfl, { sent := 1, refused := 1 }, ?_, ?_⟩
      · exact Ledger.ext (add_zero _).symm rfl rfl rfl (add_zero _).symm (add_zero _).symm
      · rfl
    | some j =>
      dsimp only
      rw [Network.handIn, Request.ofFrame_frame hfits]
      refine .inr ⟨_, _, rfl, ?_, rfl, rfl, rfl, rfl, { sent := 1 }, ?_, ?_⟩
      · exact rfl
      · exact Ledger.ext (add_zero _).symm rfl rfl rfl (add_zero _).symm (add_zero _).symm
      · refine Ledger.ext rfl rfl rfl rfl ?_ rfl
        exact congrArg (0 + ·) (Pi.single_zero j)

end Cluster

/-! ### Conversations -/

namespace Conversation

open Cluster (passed)

variable {i : Fin n} {c : Cluster n} {Q : Record n → α → Prop}

/-- If what is still asked is answered in kind, the conversation ends with `Q` of its record and its
result; and what it asks fits in frames. -/
def Sound (Q : Record n → α → Prop) (x : Conversation n α) : Prop :=
  match x.talk with
  | .resting _ next =>
    next.Ends (fun more a => Q (x.record ++ more) a) ∧ next.Sends Request.Fits
  | .asking d _ next =>
    d.service.Serves d.kind ∧
    (∀ j response, Reply.Suits d.kind response.arrived → (next response.arrived).Ends fun more a =>
      Q (x.record ++ .answered j d.kind response :: more) a) ∧
    ∀ reply, (next reply).Sends Request.Fits
  | .silent => False
  | .finished a => Q x.record a

/-- Nothing of a conversation that is over is under way. -/
theorem Sound.finished {x : Conversation n α} (h : x.Sound Q) {result : α}
    (htalk : x.talk = .finished result) : Q x.record result ∧ x.books = x.record.ledger := by
  rw [Sound, htalk] at h
  rw [books, htalk, Talk.held, add_zero]
  exact ⟨h, rfl⟩

/-- A request of the conversation has had a turn. If it was answered the conversation goes on from
the answer, and otherwise what the replica has counted of it so far is held beside the record. -/
theorem sound_passed (record : Record n) {what : Record n} {kind : RequestKind}
    {next : Reply → Exchange α} {gone : Passage n × Cluster n} {b : Ledger n}
    (h : c.Passes i b kind gone what)
    (hends : ∀ j response, Reply.Suits kind response.arrived → (next response.arrived).Ends
      fun more a => Q (record ++ .answered j kind response :: more) a)
    (hsends : ∀ reply, (next reply).Sends Request.Fits) :
    Sound Q ⟨(passed next gone).1, record ++ what⟩ ∧
      Entered i c b (passed next gone).2 (what.ledger + (passed next gone).1.held) := by
  cases h with
  | answered j hsuits h =>
    refine ⟨⟨(hends j _ (Response.suits_arrived hsuits)).imp fun more a hQ => ?_, hsends _⟩, ?_⟩
    · rwa [List.append_assoc]
    · exact (add_zero (Incident.ledger _ + 0)).symm ▸ (add_zero (Incident.ledger _)).symm ▸ h
  | underWay wait hkind hserves h =>
    subst hkind
    rw [List.append_nil]
    exact ⟨⟨hserves, hends, hsends⟩, (zero_add (Delivery.held _)).symm ▸ h⟩

/-- A step of a conversation leaves nothing uncounted. A request that is under way has been counted
by the replica in part; that part is kept with the conversation until the answer is back. -/
theorem Sound.advance {x : Conversation n α} (h : x.Sound Q) (hscript : c.script = none) :
    (x.advance i c).1.Sound Q ∧ Entered i c x.books (x.advance i c).2 (x.advance i c).1.books := by
  obtain ⟨talk, record⟩ := x
  -- what was recorded before stays in the books
  suffices Sound Q ⟨(c.advance i talk).1, record ++ c.incidents talk⟩ ∧
      Entered i c talk.held (c.advance i talk).2
        ((c.incidents talk).ledger + (c.advance i talk).1.held) by
    refine ⟨this.1, ?_⟩
    have hentered := this.2.beside record.ledger
    rwa [← add_assoc, ← Record.ledger_append] at hentered
  cases talk with
  | resting wait next =>
    obtain ⟨hends, hsends⟩ := h
    cases next with
    | done result =>
      refine ⟨?_, (zero_add (0 : Ledger n)).symm ▸ .refl i c 0⟩
      exact hends
    | note what next =>
      refine ⟨⟨Exchange.Ends.imp (x := next) hends fun more a hQ => ?_, hsends⟩, ?_⟩
      · exact (List.append_assoc record [.noted what] more).symm ▸ hQ
      · have hjot := c.entered_jot (i := i) what
        rwa [← add_zero (Incident.ledger _), ← add_zero (Incident.ledger _ + 0)] at hjot
    | compute effort next =>
      refine ⟨⟨Exchange.Ends.imp (x := next) hends fun more a hQ => ?_, hsends⟩, rfl, rfl, 0, ?_,
        rfl⟩
      · exact (List.append_nil record).symm ▸ hQ
      · exact (add_zero _).symm
    | ask peer q next =>
      have hincidents : c.incidents (.resting wait (.ask peer q next)) =
          [.asked peer q] ++ c.meeting peer q := by
        rw [Cluster.incidents, hscript]
        rfl
      rw [hincidents, Cluster.advance, Record.ledger_append, ← List.append_assoc]
      rcases Cluster.send_cases (i := i) hscript peer hsends.1 with
        ⟨why, c', hsend, hmeeting, hentered⟩ | ⟨d, c', hkind, hserves, hsend, hmeeting, hentered⟩
      · rw [hsend, hmeeting]
        refine ⟨⟨(hends.2 why).imp fun more a hQ => ?_, hsends.2 _⟩, ?_⟩
        · rwa [List.append_assoc, List.append_assoc]
        · rw [← Record.ledger_append]
          exact (add_zero (Record.ledger _)).symm ▸ hentered
      · rw [hsend, hmeeting]
        have hasked := sound_passed (i := i) (Q := Q) (record ++ [.asked peer q])
          (c'.passes_deliver hserves) (fun j response hsuits => ?_) hsends.2
        · refine ⟨hasked.1, ?_⟩
          have hboth := hentered.trans (hasked.2.beside (Incident.asked peer q).ledger)
          rwa [← add_assoc, ← add_zero (Incident.ledger _)] at hboth
        · rw [hkind] at hsuits ⊢
          refine (hends.1 j response hsuits).imp fun more a hQ => ?_
          rwa [List.append_assoc]
  | asking d wait next =>
    obtain ⟨hserves, hends, hsends⟩ := h
    exact sound_passed record (c.passes_deliver hserves) hends hsends
  | silent => cases h
  | finished result =>
    refine ⟨?_, (zero_add (0 : Ledger n)).symm ▸ .refl i c 0⟩
    exact (List.append_nil record).symm ▸ h

end Conversation

end DeltaMesh
