import DeltaMesh.Proofs.Cluster.Calls
import DeltaMesh.Proofs.Cluster.Ledger

/-!
# The books of all layers agree

A node reconciles locations and hands locations over, as often as it likes and in any interleaving,
while peers are cut off and come back (`Operation.Step`). Writes may fail at the replicas, and
requests may be refused. In each step what is counted anywhere is entered in the books of the
conversation that it belongs to (`Operation.Sound.step`), so the ledger is what these books come to.

Once nothing is under way, what the node, the network, the replicas and the meter have counted
agrees with the answers that came back, the reports, and each other (`Operation.Sound.agrees`).
-/

namespace DeltaMesh

variable {n : Nat} {α : Type}

open Record (Balances)

/-! ### Calls -/

/-- Of so many values the report accounts for each at each replica. -/
structure LocationReport.AddsUp (report : LocationReport) (values : Nat) : Prop where
  brought : report.values = report.upToDate + report.copied + report.synced
  all : report.values + report.failures = report.replicas * values

namespace Call

/-- What has happened in the conversations of the call. -/
def record (call : Call n) : Record n := call.conversations.flatMap (·.record)

/-- What should be counted of the call. -/
def books (call : Call n) : Ledger n := (call.conversations.map Conversation.books).sum

/-- A conversation of the call ends with one result for each value, and has counted the failures. -/
def Settles (call : Call n) (record : Record n) (results : List ValueResult) : Prop :=
  results.length = call.values.length ∧ Balances (results.countP ValueResult.failed) record

/-- What was counted of the call is in its books, and in its report if it is over. -/
def Sound (call : Call n) : Prop :=
  match call.stage with
  | .planned | .claimed => call.conversations = []
  | .talking => ∀ x ∈ call.conversations, x.Sound call.Settles
  | .reported report =>
    call.books = call.record.ledger ∧ Balances report.failures call.record ∧
      (report.skipped = false → report.AddsUp call.values.length)
  | .brokenOff => False

variable {i : Fin n} {call call' : Call n} {c c' : Cluster n}

/-- When all conversations of a call are over there is a result for each value at each replica, the
failures among them are those that were counted, and no request is under way any more. -/
theorem finished_rows {conversations : List (Conversation n (List ValueResult))}
    (hsound : ∀ x ∈ conversations, x.Sound call.Settles) {rows : List (List ValueResult)}
    (hover : conversations.map (·.talk) = rows.map .finished) :
    rows.flatten.length = rows.length * call.values.length ∧
      Balances (rows.flatten.countP ValueResult.failed) (conversations.flatMap (·.record)) ∧
      (conversations.map Conversation.books).sum =
        Record.ledger (conversations.flatMap (·.record)) := by
  induction conversations generalizing rows with
  | nil =>
    cases rows with
    | nil => exact ⟨(Nat.zero_mul _).symm, .nil, rfl⟩
    | cons => cases hover
  | cons x conversations ih =>
    cases rows with
    | nil => cases hover
    | cons row rows =>
      obtain ⟨hx, hrest⟩ := List.forall_mem_cons.mp hsound
      obtain ⟨htalk, hover⟩ := List.cons.inj hover
      obtain ⟨hlength, hbalances, hbooks⟩ := ih hrest hover
      obtain ⟨⟨hrow, hcounted⟩, hxbooks⟩ := hx.finished htalk
      refine ⟨?_, ?_, ?_⟩
      · rw [List.flatten_cons, List.length_append, hlength, hrow, List.length_cons, Nat.succ_mul,
          Nat.add_comm]
      · rw [List.flatten_cons, List.countP_append, List.flatMap_cons]
        exact hcounted.append hbalances
      · rw [List.map_cons, List.sum_cons, hbooks, List.flatMap_cons, Record.ledger_append, hxbooks]

/-- A call ends without any conversations. -/
theorem sound_over {report : LocationReport} (hstage : call.stage = .reported report)
    (hconversations : call.conversations = []) (hfailures : report.failures = 0)
    (hadds : report.skipped = false → report.AddsUp call.values.length) : call.Sound := by
  rw [Sound, hstage, books, record, hconversations]
  exact ⟨rfl, hfailures.symm ▸ .nil, hadds⟩

/-- A step of a call leaves nothing uncounted. Its conversations keep books of their own, and when
the call ends they are closed into one record, from which the report is made. -/
theorem Sound.step (h : call.Sound) (hstep : call.Step i c call' c') (hscript : c.script = none)
    (hlimit : (c.reconciler i).config.maxValueSize < Wire.lengthBound) :
    call'.Sound ∧ Entered i c call.books c' call'.books := by
  rw [Sound] at h
  cases hstep with
  | skip hstage hclaim =>
    rw [hstage] at h
    exact ⟨sound_over rfl h rfl nofun, .refl i c _⟩
  | claim hstage hclaim =>
    rw [hstage] at h
    obtain ⟨-, rfl⟩ := Reconciler.claim?_eq_some hclaim
    exact ⟨h, Cluster.entered_setReconciler c _ rfl rfl⟩
  | idle hstage hidle =>
    rw [hstage] at h
    refine ⟨sound_over rfl h rfl fun _ => ⟨rfl, ?_⟩, Cluster.entered_setReconciler c _ rfl rfl⟩
    rcases hidle with hnone | hnone <;> rw [List.isEmpty_iff.mp hnone]
    · exact (Nat.zero_mul _).symm
    · exact (Nat.mul_zero _).symm
  | begin hstage hbusy =>
    rw [hstage] at h
    refine ⟨List.forall_mem_map.mpr fun p _ => ⟨?_, ?_⟩, ?_⟩
    · exact Exchange.ends_reconcileReplica _ p _
    · exact Exchange.sends_reconcileReplica _ p fun v _ => Exchange.covers_fits hlimit v.1 v.2
    · have hnone : ∀ replicas : List Peer, (replicas.map fun p => Conversation.books (n := n)
          ⟨.ofExchange (reconcileReplica ((c.reconciler i).terms c.now) p
            (c.valuesUnder i call.location)), []⟩).sum = 0 := by
        intro replicas
        refine List.sum_eq_zero fun b hb => ?_
        obtain ⟨p, -, rfl⟩ := List.mem_map.mp hb
        exact zero_add 0
      rw [books, books, h, List.map_map]
      exact (hnone _).symm ▸ .refl i c 0
  | talk hstage front x back hconversations =>
    rw [hstage, hconversations] at h
    obtain ⟨hfront, hback⟩ := List.forall_mem_append.mp h
    obtain ⟨hx, hback⟩ := List.forall_mem_cons.mp hback
    obtain ⟨hx', hentered⟩ := hx.advance (i := i) hscript
    refine ⟨?_, ?_⟩
    · rw [Sound, hstage]
      exact List.forall_mem_append.mpr ⟨hfront, List.forall_mem_cons.mpr ⟨hx', hback⟩⟩
    · rw [books, books, hconversations, Ledger.sum_middle, Ledger.sum_middle]
      exact hentered.beside _
  | close hstage rows hover =>
    rw [hstage] at h
    obtain ⟨hlength, hbalances, hbooks⟩ := finished_rows h hover
    refine ⟨⟨hbooks, ?_, fun _ => ⟨?_, ?_⟩⟩, ?_⟩
    · exact (LocationReport.failures_ofResults ..).symm ▸ hbalances
    · exact LocationReport.values_ofResults ..
    · refine (LocationReport.values_add_failures_ofResults ..).trans (hlength.trans ?_)
      exact congrArg (· * _) (LocationReport.replicas_ofResults ..).symm
    · obtain ⟨hscript', hconfig, hledger⟩ := Cluster.entered_setReconciler c call.books
        (q := (c.reconciler i).unclaim call.location) rfl rfl
      exact ⟨hscript', hconfig, hledger⟩

end Call

/-! ### Hand-overs -/

/-- A hand-over of the values under a location. -/
structure Push (n : Nat) where
  terms : Terms
  /-- The values that the node has found under the location. -/
  values : List (Key × ByteArray)
  conversation : Conversation n (Except ReplicationError Nat)

namespace Push

/-- Node `i` begins to hand a location over. -/
def begin (i : Fin n) (location : Id) (owner : Peer) (c : Cluster n) : Push n where
  terms := (c.reconciler i).terms c.now
  values := c.valuesUnder i location
  conversation :=
    ⟨.ofExchange (handOver ((c.reconciler i).terms c.now) owner (c.valuesUnder i location)).run, []⟩

/-- Carries a hand-over of a node on by one step. -/
def advance (i : Fin n) (push : Push n) (c : Cluster n) : Push n × Cluster n :=
  ({ push with conversation := (push.conversation.advance i c).1 },
    (push.conversation.advance i c).2)

/-- How many values were left out. -/
def skipped (push : Push n) : Nat := push.conversation.record.countP Incident.isSkipped

/-- What was counted of the hand-over is in its books. -/
def Sound (push : Push n) : Prop :=
  push.conversation.Sound (Exchange.HandedOver push.terms push.values)

variable {i : Fin n} {push : Push n} {c : Cluster n}

theorem sound_begin (owner : Peer) {location : Id}
    (hlimit : (c.reconciler i).config.maxValueSize < Wire.lengthBound)
    (hvalues : (c.valuesUnder i location).length < Wire.lengthBound) :
    (begin i location owner c).Sound := by
  refine ⟨Exchange.ends_handOver _ owner _, Exchange.sends_handOver _ owner
    fun batch hcount hsizes => ⟨?_, fun p hp => Nat.lt_of_le_of_lt (hsizes p hp) hlimit⟩⟩
  rw [Std.ExtTreeMap.length_toList]
  exact Nat.lt_of_le_of_lt hcount hvalues

end Push

/-! ### Everything together -/

/-- What a node does, and the cluster in which it does it. -/
structure Operation (n : Nat) where
  calls : List (Call n)
  pushes : List (Push n)
  cluster : Cluster n

/-- Nothing is counted on the way from one cluster to the other. -/
structure Cluster.Uncounted (i : Fin n) (c c' : Cluster n) : Prop where
  script : c'.script = c.script
  config : (c'.reconciler i).config = (c.reconciler i).config
  ledger : c'.ledger i = c.ledger i

namespace Operation

/-- What may happen next: node `i` begins a tick, a location is let in, reconciled or handed over,
a peer is cut off or comes back, or something happens that is not counted, such as that a node
stores values of its own, that peers come and go, or that time passes. -/
inductive Step (i : Fin n) : Operation n → Operation n → Prop
  | tick (calls : List (Call n)) (pushes : List (Push n)) {t : Tick n} {c c' : Cluster n}
    (h : Tick.begin i c = .ok (t, c')) : Step i ⟨calls, pushes, c⟩ ⟨calls, pushes, c'⟩
  | call (pushes : List (Push n)) {calls calls' : List (Call n)} {c c' : Cluster n}
    (h : Calls.Step i (calls, c) (calls', c')) : Step i ⟨calls, pushes, c⟩ ⟨calls', pushes, c'⟩
  | push (calls : List (Call n)) (pushes : List (Push n)) (c : Cluster n) (location : Id)
    (owner : Peer) (hvalues : (c.valuesUnder i location).length < Wire.lengthBound) :
    Step i ⟨calls, pushes, c⟩ ⟨calls, pushes ++ [.begin i location owner c], c⟩
  | send (calls : List (Call n)) (front : List (Push n)) (push : Push n) (back : List (Push n))
    (c : Cluster n) : Step i ⟨calls, front ++ push :: back, c⟩
      ⟨calls, front ++ (push.advance i c).1 :: back, (push.advance i c).2⟩
  | reach (calls : List (Call n)) (pushes : List (Push n)) (c : Cluster n) (peer : Id)
    (cutOff : Bool) : Step i ⟨calls, pushes, c⟩
      ⟨calls, pushes, { c with network := c.network.setUnreachable peer cutOff }⟩
  | elsewhere (calls : List (Call n)) (pushes : List (Push n)) {c c' : Cluster n}
    (h : c.Uncounted i c') : Step i ⟨calls, pushes, c⟩ ⟨calls, pushes, c'⟩

/-- Any number of steps. -/
abbrev Run (i : Fin n) : Operation n → Operation n → Prop := Relation.ReflTransGen (Step i)

/-- The reports of the locations. -/
def reports (o : Operation n) : List LocationReport := o.calls.filterMap Call.report?

/-- What has happened in all conversations. -/
def record (o : Operation n) : Record n :=
  o.calls.flatMap Call.record ++ o.pushes.flatMap (·.conversation.record)

/-- Nothing is under way. -/
structure IsOver (o : Operation n) : Prop where
  calls : ∀ call ∈ o.calls, ∃ report, call.stage = .reported report
  pushes : ∀ push ∈ o.pushes, ∃ result, push.conversation.talk = .finished result

/-- What the layers have counted agrees with what has happened. -/
structure Agrees (i : Fin n) (o : Operation n) : Prop where
  reports : ∀ call ∈ o.calls, ∀ report, call.stage = .reported report → report.skipped = false →
    report.AddsUp call.values.length
  /-- Failures are in the reports, but for the values that were left out of a hand-over. -/
  failures : (o.cluster.reconciler i).tally.failures =
    (o.reports.map (·.failures)).sum + (o.pushes.map Push.skipped).sum
  /-- Left out are those that are too large, until the hand-over ends or fails. -/
  skipped : ∀ push ∈ o.pushes, ∃ result passed, push.conversation.talk = .finished result ∧
    passed <+: push.values ∧
      push.skipped = passed.countP (fun p => push.terms.limit < p.2.size) ∧
      (result.isOk → passed = push.values)
  infos : (o.cluster.reconciler i).tally.infos =
    o.record.countP (Incident.brings Response.isInfo)
  copies : (o.cluster.reconciler i).tally.copies =
    o.record.countP (Incident.brings Response.isCopyAck)
  syncs : (o.cluster.reconciler i).tally.syncs =
    o.record.countP (Incident.brings Response.isSyncAck)
  sent : o.cluster.network.sent.length =
    o.cluster.network.traffic.requestsSent + o.cluster.network.traffic.failures
  metered : (o.cluster.ledger i).Metered
  answered : o.cluster.network.traffic.requestsSent = o.record.countP Incident.isAnswered
  served : ∀ q, (o.cluster.replica q).served =
    { infos := o.record.countP (Incident.servedAt q fun kind _ => kind = .info)
      copies := o.record.countP (Incident.servedAt q fun kind _ => kind = .copy)
      syncsApplied := o.record.countP (Incident.servedAt q fun _ response =>
        response matches .syncAck .applied)
      syncsUnchanged := o.record.countP (Incident.servedAt q fun _ response =>
        response matches .syncAck .unchanged)
      failures := o.record.countP (Incident.servedAt q fun _ response => response.isFailed) }

/-- What should be counted. -/
def books (o : Operation n) : Ledger n :=
  (o.calls.map Call.books).sum + (o.pushes.map fun push => push.conversation.books).sum

/-- What was counted is in the books. -/
structure Sound (i : Fin n) (o : Operation n) : Prop where
  script : o.cluster.script = none
  limit : (o.cluster.reconciler i).config.maxValueSize < Wire.lengthBound
  calls : ∀ call ∈ o.calls, call.Sound
  pushes : ∀ push ∈ o.pushes, push.Sound
  ledger : o.cluster.ledger i = o.books

variable {i : Fin n} {o o' : Operation n} {calls calls' : List (Call n)}
  {pushes pushes' : List (Push n)} {c c' c₀ : Cluster n}

/-! ### Every run -/

theorem Sound.entered (h : Sound i ⟨calls, pushes, c⟩) (hcalls : ∀ call ∈ calls', call.Sound)
    (hpushes : ∀ push ∈ pushes', push.Sound)
    (hentered : Entered i c (books ⟨calls, pushes, c⟩) c' (books ⟨calls', pushes', c'⟩)) :
    Sound i ⟨calls', pushes', c'⟩ := by
  obtain ⟨more, hmore, hbooks⟩ := hentered.ledger
  refine ⟨hentered.script.trans h.script, hentered.config ▸ h.limit, hcalls, hpushes, ?_⟩
  exact hmore.trans (hbooks ▸ congrArg (· + more) h.ledger)

theorem Sound.elsewhere (h : Sound i ⟨calls, pushes, c⟩) (hsame : c.Uncounted i c') :
    Sound i ⟨calls, pushes, c'⟩ :=
  ⟨hsame.script.trans h.script, hsame.config ▸ h.limit, h.calls, h.pushes,
    hsame.ledger.trans h.ledger⟩

theorem uncounted_begin {t : Tick n} (h : Tick.begin i c = .ok (t, c')) : c.Uncounted i c' := by
  obtain ⟨estimator, -, rfl⟩ := Tick.begin_eq_ok h
  have hself := c.reconciler_set_self i { c.reconciler i with estimator }
  refine ⟨rfl, (congrArg Reconciler.config hself).trans rfl, ?_⟩
  exact Ledger.ext ((congrArg Reconciler.tally hself).trans rfl) rfl rfl rfl rfl rfl

/-- Whatever happens next, what is counted is entered in the books. -/
theorem Sound.step (h : Sound i o) (hstep : Step i o o') : Sound i o' := by
  cases hstep with
  | tick calls pushes hbegin => exact h.elsewhere (uncounted_begin hbegin)
  | @call pushes _ _ c c' hcall =>
    cases hcall with
    | arrive calls c location =>
      refine h.entered (List.forall_mem_append.mpr ⟨h.calls, ?_⟩) h.pushes ?_
      · exact List.forall_mem_singleton.mpr rfl
      · have hnone : Call.books (.plan location : Call n) = 0 := rfl
        rw [books, books, List.map_append, List.sum_append, List.map_singleton, List.sum_singleton,
          hnone, add_zero]
        exact .refl i c _
    | go front back hcall =>
      obtain ⟨hfront, hback⟩ := List.forall_mem_append.mp h.calls
      obtain ⟨hthis, hback⟩ := List.forall_mem_cons.mp hback
      obtain ⟨hthis', hentered⟩ := hthis.step hcall h.script h.limit
      refine h.entered ?_ h.pushes ?_
      · exact List.forall_mem_append.mpr ⟨hfront, List.forall_mem_cons.mpr ⟨hthis', hback⟩⟩
      · rw [books, books, Ledger.sum_middle, Ledger.sum_middle]
        exact (hentered.beside _).ahead _
    | work calls c work => exact h.elsewhere ⟨rfl, rfl, rfl⟩
  | push calls pushes c location owner hvalues =>
    refine h.entered h.calls (List.forall_mem_append.mpr ⟨h.pushes, ?_⟩) ?_
    · exact List.forall_mem_singleton.mpr (Push.sound_begin owner h.limit hvalues)
    · have hnone : (Push.begin i location owner c).conversation.books = 0 := zero_add 0
      rw [books, books, List.map_append, List.sum_append, List.map_singleton, List.sum_singleton,
        hnone, add_zero]
      exact .refl i c _
  | send calls front push back c =>
    obtain ⟨hfront, hback⟩ := List.forall_mem_append.mp h.pushes
    obtain ⟨hthis, hback⟩ := List.forall_mem_cons.mp hback
    obtain ⟨hthis', hentered⟩ := Conversation.Sound.advance (i := i) hthis h.script
    refine h.entered h.calls ?_ ?_
    · exact List.forall_mem_append.mpr ⟨hfront, List.forall_mem_cons.mpr ⟨hthis', hback⟩⟩
    · rw [books, books, Ledger.sum_middle, Ledger.sum_middle]
      exact (hentered.beside _).beside _
  | reach calls pushes c peer cutOff => exact h.elsewhere ⟨rfl, rfl, rfl⟩
  | elsewhere calls pushes hsame => exact h.elsewhere hsame

theorem Sound.run (h : Sound i o) (hrun : Run i o o') : Sound i o' := by
  induction hrun with
  | refl => exact h
  | tail _ hstep ih => exact ih.step hstep

/-! ### Agreement -/

/-- Once everything is over nothing is held by requests under way, and what the layers have counted
is what the record says. -/
theorem Sound.ledger_of_isOver (h : Sound i o) (hover : o.IsOver) :
    o.cluster.ledger i = o.record.ledger := by
  rw [h.ledger, books, record, Record.ledger_append, Record.ledger_flatMap, Record.ledger_flatMap]
  refine congrArg₂ (fun l m => List.sum l + List.sum m) (List.map_congr_left fun call hcall => ?_)
    (List.map_congr_left fun push hpush => ?_)
  · obtain ⟨report, hstage⟩ := hover.calls call hcall
    have hsound := h.calls call hcall
    rw [Call.Sound, hstage] at hsound
    exact hsound.1
  · obtain ⟨result, htalk⟩ := hover.pushes push hpush
    exact ((h.pushes push hpush).finished htalk).2

/-- The failures that calls have counted are in their reports, summed up over all calls that have
come to their end. -/
theorem balances_calls (hover : ∀ call ∈ calls, ∃ report, call.stage = .reported report)
    (hsound : ∀ call ∈ calls, call.Sound) :
    Balances ((calls.filterMap Call.report?).map (·.failures)).sum (calls.flatMap Call.record) := by
  induction calls with
  | nil => exact .nil
  | cons call calls ih =>
    obtain ⟨⟨report, hstage⟩, hover⟩ := List.forall_mem_cons.mp hover
    obtain ⟨hcall, hsound⟩ := List.forall_mem_cons.mp hsound
    have hreport : call.report? = some report := by rw [Call.report?, hstage]
    rw [Call.Sound, hstage] at hcall
    rw [List.filterMap_cons_some hreport, List.map_cons, List.sum_cons, List.flatMap_cons]
    exact hcall.2.1.append (ih hover hsound)

theorem Sound.balances (h : Sound i o) (hover : o.IsOver) :
    Balances ((o.reports.map (·.failures)).sum + (o.pushes.map Push.skipped).sum) o.record := by
  refine (balances_calls hover.calls h.calls).append (Record.balances_flatMap fun push hpush => ?_)
  obtain ⟨result, htalk⟩ := hover.pushes push hpush
  obtain ⟨⟨passed, -, hskips, -⟩, -⟩ := (h.pushes push hpush).finished htalk
  rw [Push.skipped, hskips.skipped]
  exact hskips.toBalances

theorem Sound.agrees (h : Sound i o) (hover : o.IsOver) : o.Agrees i := by
  have hledger := h.ledger_of_isOver hover
  have hbalances := h.balances hover
  have htally : (o.cluster.reconciler i).tally = o.record.tally :=
    (congrArg Ledger.tally hledger).trans (Record.tally_ledger _)
  have hanswered : o.cluster.network.traffic.requestsSent = o.record.countP Incident.isAnswered :=
    (congrArg Ledger.answered hledger).trans
      (Record.ledger_countP _ rfl (fun _ _ => rfl) (fun incident => by cases incident <;> rfl) _)
  refine
    { reports := fun call hcall report hstage hskipped => ?_
      failures := htally ▸ hbalances.failures
      skipped := fun push hpush => ?_
      infos := htally ▸ hbalances.infos
      copies := htally ▸ hbalances.copies
      syncs := htally ▸ hbalances.syncs
      sent := ?_
      metered := hledger ▸ Ledger.metered_record o.record
      answered := hanswered
      served := fun q => ?_ }
  · have hcall := h.calls call hcall
    rw [Call.Sound, hstage] at hcall
    exact hcall.2.2 hskipped
  · obtain ⟨result, htalk⟩ := hover.pushes push hpush
    obtain ⟨⟨passed, hprefix, hskips, hall⟩, -⟩ := (h.pushes push hpush).finished htalk
    exact ⟨result, passed, htalk, hprefix, hskips.skipped, hall⟩
  · have hsent : o.cluster.network.sent.length = o.record.countP Incident.isAsked :=
      (congrArg Ledger.sent hledger).trans
        (Record.ledger_countP _ rfl (fun _ _ => rfl) (fun incident => by cases incident <;> rfl) _)
    have hrefused : o.cluster.network.traffic.failures = o.record.countP Incident.isRefused :=
      (congrArg Ledger.refused hledger).trans
        (Record.ledger_countP _ rfl (fun _ _ => rfl) (fun incident => by cases incident <;> rfl) _)
    rw [hsent, hanswered, hrefused, hbalances.settled]
  · exact (congrFun (congrArg Ledger.served hledger) q).trans (Record.served_ledger _ q)

theorem sound_nil (hfresh : c₀.ledger i = 0) (hscript : c₀.script = none)
    (hlimit : (c₀.reconciler i).config.maxValueSize < Wire.lengthBound) :
    Sound i ⟨[], [], c₀⟩ :=
  ⟨hscript, hlimit, List.forall_mem_nil _, List.forall_mem_nil _, hfresh⟩

end Operation

end DeltaMesh
