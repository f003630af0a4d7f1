import DeltaMesh.Network.Basic
import DeltaMesh.Proofs.Message.Frame
import DeltaMesh.Proofs.Replica.Traceless

/-!
# Requests over the network and without it

A `Switchboard` lets replicas serve requests as they are: nothing is framed and nothing counted. It
knows which replica was registered last under an id, and which ids are cut off. A network with which
the same is done (`Network.Runs`) gives the same replies and leaves the same replicas behind. Its
log lists all requests, and its counters tell those that were answered (`Network.transparent`).

Frames change nothing because each message that fits behind its lengths is read from its own frame,
and the turns of a request change nothing because no replica has another one under way
(`Replica.Idle`).
-/

namespace DeltaMesh

/-- What is done with the connections between `n` replicas. -/
inductive Network.Use (n : Nat)
  | register (peer : Id) (number : Fin n)
  /-- Cuts a peer off, or connects it again. -/
  | setUnreachable (peer : Id) (cutOff : Bool)
  | request (peer : Peer) (q : Request)

/-- What the log says of a request; nothing else is logged. -/
def Network.Use.sent? {n : Nat} : Use n → Option SentRequest
  | .request peer q => some ⟨peer.id, q.kind, q.frame.size⟩
  | .register .. | .setUnreachable .. => none

/-- A request and what came of it. -/
structure Enquiry where
  peer : Peer
  request : Request
  reply : Except NetworkError Response

namespace Enquiry

/-- What the log says of it. -/
def sent (e : Enquiry) : SentRequest := ⟨e.peer.id, e.request.kind, e.request.frame.size⟩

def answered (e : Enquiry) : Bool := e.reply.isOk

/-- The messages of an enquiry fit behind their lengths. -/
structure Fits (e : Enquiry) : Prop where
  request : e.request.Fits
  reply : ∀ response, e.reply = .ok response → response.Fits

instance decidableFits : (e : Enquiry) → Decidable e.Fits
  | ⟨_, request, .error _⟩ => decidable_of_iff request.Fits ⟨fun h => ⟨h, nofun⟩, Fits.request⟩
  | ⟨_, request, .ok response⟩ => decidable_of_iff (request.Fits ∧ response.Fits)
    ⟨fun h => ⟨h.1, fun _ heq => Except.ok.inj heq ▸ h.2⟩, fun h => ⟨h.request, h.reply _ rfl⟩⟩

end Enquiry

/-! ### Without a network -/

/-- Replicas that are called directly. -/
structure Switchboard (n : Nat) where
  replicas : Fin n → Replica
  registered : Id → Option (Fin n)
  cutOff : Id → Bool

namespace Switchboard

variable {n : Nat}

/-- Replicas none of which is registered yet. -/
def ofReplicas (replicas : Fin n → Replica) : Switchboard n :=
  ⟨replicas, fun _ => none, fun _ => false⟩

/-- Lets the replica that is registered for a peer serve a request. No replica has to do with a
request to a peer that is cut off or unknown. -/
def request (s : Switchboard n) (peer : Peer) (q : Request) :
    Except NetworkError Response × Switchboard n :=
  if s.cutOff peer.id then (.error (.unreachable peer.shortText), s)
  else
    match s.registered peer.id with
    | none => (.error (.connectionFailed ("unknown peer " ++ peer.shortText)), s)
    | some number =>
      let (response, r) := (s.replicas number).serve 0 q
      (.ok response, { s with replicas := Function.update s.replicas number r })

section

variable {s : Switchboard n} {peer : Peer} {q : Request}

/-- A peer that is cut off is refused without any effect. -/
theorem request_cutOff (hcutOff : s.cutOff peer.id = true) :
    s.request peer q = (.error (.unreachable peer.shortText), s) :=
  if_pos hcutOff

/-- A peer that nobody is registered for is refused without any effect. -/
theorem request_unknown (hcutOff : s.cutOff peer.id = false)
    (hregistered : s.registered peer.id = none) :
    s.request peer q = (.error (.connectionFailed ("unknown peer " ++ peer.shortText)), s) := by
  simp only [request, hcutOff, Bool.false_eq_true, if_false, hregistered]

/-- Any other request is served by the replica that is registered for the id, and by no other one.
-/
theorem request_registered {number : Fin n} (hcutOff : s.cutOff peer.id = false)
    (hregistered : s.registered peer.id = some number) :
    s.request peer q = (.ok ((s.replicas number).serve 0 q).1,
      { s with
        replicas := Function.update s.replicas number ((s.replicas number).serve 0 q).2 }) := by
  simp only [request, hcutOff, Bool.false_eq_true, if_false, hregistered]

end

/-- The enquiries in a row of uses, and the switchboard after them. -/
def run : Switchboard n → List (Network.Use n) → List Enquiry × Switchboard n
  | s, [] => ([], s)
  | s, .register peer number :: uses =>
    run { s with registered := Function.update s.registered peer (some number) } uses
  | s, .setUnreachable peer cutOff :: uses =>
    run { s with cutOff := Function.update s.cutOff peer cutOff } uses
  | s, .request peer q :: uses =>
    let (reply, s) := s.request peer q
    let (enquiries, s) := run s uses
    (⟨peer, q, reply⟩ :: enquiries, s)

/-- Each request is entered once, in order; registering and cutting off are not entered. -/
theorem map_sent_run (s : Switchboard n) (uses : List (Network.Use n)) :
    (s.run uses).1.map Enquiry.sent = uses.filterMap Network.Use.sent? := by
  induction uses generalizing s with
  | nil => rfl
  | cons use uses ih =>
    cases use with
    | register | setUnreachable => exact ih _
    | request peer q => exact congrArg (_ :: ·) (ih _)

end Switchboard

/-! ### Replicas with nothing under way -/

namespace Replica

variable {r : Replica}

/-- No request is under way, and the locks are in order. -/
def Idle (r : Replica) : Prop := r.locks.Sound 0

theorem Idle.claims (h : r.Idle) : r.locks.claims = [] :=
  List.eq_nil_iff_forall_not_mem.mpr fun c hc => Nat.not_lt_zero _ (h.early c hc)

theorem Idle.free (h : r.Idle) (key : Key) : r.locks.on key = [] := by
  rw [KeyLocks.on, h.claims, List.filter_nil]

/-- Whatever task stands for it, a request is served at once. -/
theorem Idle.completes (h : r.Idle) (task : Nat) (q : Request) :
    Completes task (.received q) r (r.serve 0 q) := by
  rw [serve_task h.claims q 0 task]
  exact completes_serve q (h.mono (Nat.zero_le task)) fun key _ => h.free key

/-- A replica that served one request to its end holds no lock afterwards. -/
theorem Idle.serve (h : r.Idle) (q : Request) : (r.serve 0 q).2.Idle :=
  (locks_serve q h fun key _ => h.free key).2.2 0 h

end Replica

namespace Network

variable {n : Nat} {net : Network n} {s : Switchboard n} {peer : Peer} {q : Request}

/-! ### Over a network -/

/-- Replicas that nothing connects yet. -/
def unconnected (replicas : Vector Replica n) : Network n := ⟨replicas, ∅, ∅, [], {}, 0⟩

/-- A request goes out and, if it is handed in, takes its turns until it is answered; nothing else
happens meanwhile. This is what comes of it. -/
inductive Exchanged (net : Network n) (peer : Peer) (q : Request) :
    Except NetworkError Response × Network n → Prop
  | failed {why : NetworkError} {net' : Network n}
    (hdispatch : net.dispatch peer q = (.error why, net')) : Exchanged net peer q (.error why, net')
  | served {d : Delivery n} {net' : Network n} {response : Response} {r : Replica}
    (hdispatch : net.dispatch peer q = (.ok d, net'))
    (hserved : Replica.Completes d.task d.service (net'.replicas.get d.replica) (response, r)) :
    Exchanged net peer q ((net'.setReplica d.replica r).takeBack d response)

/-- An exchange has one outcome only, though it is described as a relation. -/
theorem Exchanged.unique {ended ended' : Except NetworkError Response × Network n}
    (h : net.Exchanged peer q ended) (h' : net.Exchanged peer q ended') : ended = ended' := by
  cases h with
  | failed hdispatch =>
    cases h' with
    | failed hdispatch' =>
      cases hdispatch.symm.trans hdispatch'
      rfl
    | served hdispatch' => cases hdispatch.symm.trans hdispatch'
  | served hdispatch hserved =>
    cases h' with
    | failed hdispatch' => cases hdispatch.symm.trans hdispatch'
    | served hdispatch' hserved' =>
      cases hdispatch.symm.trans hdispatch'
      cases hserved.unique hserved'
      rfl

/-- The network is used like this, one use after the other; these are the enquiries, and the network
after them. -/
inductive Runs : Network n → List (Use n) → List Enquiry × Network n → Prop
  | nil (net : Network n) : Runs net [] ([], net)
  | register {net : Network n} {peer : Id} {number : Fin n} {uses : List (Use n)}
    {ended : List Enquiry × Network n} (hrest : Runs (net.register peer number) uses ended) :
    Runs net (.register peer number :: uses) ended
  | setUnreachable {net : Network n} {peer : Id} {cutOff : Bool} {uses : List (Use n)}
    {ended : List Enquiry × Network n} (hrest : Runs (net.setUnreachable peer cutOff) uses ended) :
    Runs net (.setUnreachable peer cutOff :: uses) ended
  | request {net later : Network n} {peer : Peer} {q : Request}
    {reply : Except NetworkError Response} {uses : List (Use n)} {ended : List Enquiry × Network n}
    (hexchanged : net.Exchanged peer q (reply, later)) (hrest : Runs later uses ended) :
    Runs net (.request peer q :: uses) (⟨peer, q, reply⟩ :: ended.1, ended.2)

/-- A row of exchanges has one outcome only. -/
theorem Runs.unique {uses : List (Use n)} {ended ended' : List Enquiry × Network n}
    (h : net.Runs uses ended) (h' : net.Runs uses ended') : ended = ended' := by
  induction h generalizing ended' with
  | nil =>
    cases h'
    rfl
  | register _ ih =>
    cases h' with
    | register hrest => exact ih hrest
  | setUnreachable _ ih =>
    cases h' with
    | setUnreachable hrest => exact ih hrest
  | request hexchanged _ ih =>
    cases h' with
    | request hexchanged' hrest =>
      cases hexchanged.unique hexchanged'
      rw [ih hrest]

/-! ### Both sides -/

theorem replicas_setReplica (net : Network n) (number : Fin n) (r : Replica) :
    (net.setReplica number r).replicas.get = Function.update net.replicas.get number r := by
  funext other
  rw [Function.update_apply]
  split
  case isTrue heq => exact heq ▸ Vector.getElem_set_self other.isLt
  case isFalse hne =>
    exact Vector.getElem_set_ne number.isLt other.isLt fun heq => hne (Fin.ext heq.symm)

/-- A network connects like a switchboard, and no replica has a request under way. -/
structure Mirrors (net : Network n) (s : Switchboard n) : Prop where
  replicas : net.replicas.get = s.replicas
  registered : ∀ id, net.registered[id]? = s.registered id
  cutOff : ∀ id, net.unreachable.contains id = s.cutOff id
  idle : ∀ number, (s.replicas number).Idle

namespace Mirrors

/-- Registering a replica under an id is the same on both sides; whoever was there before is not
asked any more. -/
theorem register (h : net.Mirrors s) (peer : Id) (number : Fin n) :
    (net.register peer number).Mirrors
      { s with registered := Function.update s.registered peer (some number) } := by
  refine { h with registered := fun id => ?_ }
  rw [Network.register, Std.ExtTreeMap.getElem?_insert, h.registered]
  refine (if_congr ?_ rfl rfl).trans (Function.update_apply ..).symm
  rw [Std.LawfulEqCmp.compare_eq_iff_eq, eq_comm]

/-- Cutting a peer off, or connecting it again, is the same on both sides, and touches no replica.
-/
theorem setUnreachable (h : net.Mirrors s) (peer : Id) (cutOff : Bool) :
    (net.setUnreachable peer cutOff).Mirrors
      { s with cutOff := Function.update s.cutOff peer cutOff } := by
  refine { h with cutOff := fun id => ?_ }
  have hself : compare peer id = .eq ↔ id = peer := by
    rw [Std.LawfulEqCmp.compare_eq_iff_eq, eq_comm]
  refine Eq.trans ?_ (Function.update_apply ..).symm
  cases cutOff with
  | true =>
    show (net.unreachable.insert peer).contains id = _
    rw [Std.ExtTreeSet.contains_insert, h.cutOff]
    by_cases hid : id = peer <;> simp [hself, hid]
  | false =>
    show (net.unreachable.erase peer).contains id = _
    rw [Std.ExtTreeSet.contains_erase, h.cutOff]
    by_cases hid : id = peer <;> simp [hself, hid]

/-- A replica that has served a request stands where it stood, under the same ids, and holds no
lock. -/
theorem setReplica (h : net.Mirrors s) (number : Fin n) {r : Replica} (hidle : r.Idle) :
    (net.setReplica number r).Mirrors
      { s with replicas := Function.update s.replicas number r } where
  replicas := by rw [replicas_setReplica, h.replicas]
  registered := h.registered
  cutOff := h.cutOff
  idle other := by
    show (Function.update s.replicas number r other).Idle
    rw [Function.update_apply]
    split
    case isTrue => exact hidle
    case isFalse => exact h.idle other

end Mirrors

/-- The log and the counters tell of these enquiries. -/
structure Accounts (net : Network n) (enquiries : List Enquiry) : Prop where
  sent : net.sentInOrder = enquiries.map Enquiry.sent
  requestsSent : net.traffic.requestsSent = enquiries.countP Enquiry.answered
  failures : net.traffic.failures = enquiries.countP fun e => ¬e.answered
  bytesSent : net.traffic.bytesSent = ((enquiries.filter Enquiry.answered).map (·.sent.bytes)).sum

/-- Each request counts once. -/
theorem Accounts.total {enquiries : List Enquiry} (h : net.Accounts enquiries) :
    net.traffic.requestsSent + net.traffic.failures = net.sentInOrder.length := by
  rw [h.sent, h.requestsSent, h.failures, List.length_map,
    List.length_eq_countP_add_countP Enquiry.answered]

theorem accounts_unconnected (replicas : Vector Replica n) : (unconnected replicas).Accounts [] :=
  ⟨rfl, rfl, rfl, rfl⟩

/-- The network with a request in its log. -/
def logged (net : Network n) (peer : Peer) (q : Request) : Network n :=
  { net with sent := ⟨peer.id, q.kind, q.frame.size⟩ :: net.sent }

/-- The network while a replica serves a request. -/
def handedIn (net : Network n) (peer : Peer) (q : Request) : Network n :=
  { net.logged peer q with nextTask := net.nextTask + 1 }

/-- A request to a peer that is cut off is listed and counted as failed. -/
theorem dispatch_cutOff (hcutOff : net.unreachable.contains peer.id = true) :
    net.dispatch peer q = (.error (.unreachable peer.shortText), (net.logged peer q).fail) :=
  if_pos hcutOff

/-- A request to a peer that nobody is registered for is listed and counted as failed. -/
theorem dispatch_unknown (hcutOff : net.unreachable.contains peer.id = false)
    (hregistered : net.registered[peer.id]? = none) :
    net.dispatch peer q = (.error (.connectionFailed ("unknown peer " ++ peer.shortText)),
      (net.logged peer q).fail) := by
  simp only [dispatch, hcutOff, Bool.false_eq_true, if_false, hregistered]
  rfl

/-- Any other request reaches the replica that is registered for the id, unchanged by its way over
the wire. -/
theorem dispatch_registered {number : Fin n} (hcutOff : net.unreachable.contains peer.id = false)
    (hregistered : net.registered[peer.id]? = some number) (hq : q.Fits) :
    net.dispatch peer q = (.ok ⟨number, net.nextTask, q.kind, q.frame.size, .received q⟩,
      net.handedIn peer q) := by
  simp only [dispatch, hcutOff, Bool.false_eq_true, if_false, hregistered, handIn,
    Request.ofFrame_frame hq]
  rfl

/-- A response whose lengths fit is read back from its frame as it was. -/
theorem takeBack_of_fits (d : Delivery n) {response : Response} (hresponse : response.Fits) :
    net.takeBack d response = (.ok response, net.count d.bytes response.frame.size) := by
  rw [takeBack, Response.ofFrame_frame hresponse]
  rfl

section

variable {enquiries : List Enquiry} (h : net.Accounts enquiries)
include h

theorem Accounts.sentInOrder_concat (e : Enquiry) :
    (e.sent :: net.sent).reverse = (enquiries ++ [e]).map Enquiry.sent := by
  rw [List.reverse_cons, ← sentInOrder, h.sent, List.map_append]
  rfl

/-- A request that fails is entered once in the log and once in the count of failures. -/
theorem Accounts.failed (why : NetworkError) :
    (net.logged peer q).fail.Accounts (enquiries ++ [⟨peer, q, .error why⟩]) where
  sent := h.sentInOrder_concat ⟨peer, q, .error why⟩
  requestsSent := by
    refine h.requestsSent.trans ?_
    rw [List.countP_append]
    rfl
  failures := by
    refine (congrArg (· + 1) h.failures).trans ?_
    rw [List.countP_append]
    rfl
  bytesSent := by
    refine h.bytesSent.trans ?_
    rw [List.filter_append, List.map_append, List.sum_append]
    rfl

/-- A request that is answered is entered once in the log, and its frame and that of its response
are added to the bytes. -/
theorem Accounts.served (number : Fin n) (r : Replica) (response : Response) (received : Nat) :
    (((net.handedIn peer q).setReplica number r).count q.frame.size received).Accounts
      (enquiries ++ [⟨peer, q, .ok response⟩]) where
  sent := h.sentInOrder_concat ⟨peer, q, .ok response⟩
  requestsSent := by
    refine (congrArg (· + 1) h.requestsSent).trans ?_
    rw [List.countP_append]
    rfl
  failures := by
    refine h.failures.trans ?_
    rw [List.countP_append]
    rfl
  bytesSent := by
    refine (congrArg (· + q.frame.size) h.bytesSent).trans ?_
    rw [List.filter_append, List.map_append, List.sum_append]
    rfl

end

/-! ### Steps and runs -/

/-- A request over the network comes to the same as one without it. A request that is served takes a
task of its own there, but at an idle replica the number of the task makes no difference. -/
theorem exchanged_request (hmirrors : net.Mirrors s) {enquiries : List Enquiry}
    (haccounts : net.Accounts enquiries) (hfits : (Enquiry.mk peer q (s.request peer q).1).Fits) :
    ∃ later, net.Exchanged peer q ((s.request peer q).1, later) ∧
      later.Mirrors (s.request peer q).2 ∧
      later.Accounts (enquiries ++ [⟨peer, q, (s.request peer q).1⟩]) := by
  have hunreachable := hmirrors.cutOff peer.id
  have hnumber := hmirrors.registered peer.id
  cases hcutOff : s.cutOff peer.id with
  | true =>
    rw [hcutOff] at hunreachable
    rw [Switchboard.request_cutOff hcutOff]
    exact ⟨_, .failed (dispatch_cutOff hunreachable), { hmirrors with }, haccounts.failed _⟩
  | false =>
    rw [hcutOff] at hunreachable
    cases hregistered : s.registered peer.id with
    | none =>
      rw [hregistered] at hnumber
      rw [Switchboard.request_unknown hcutOff hregistered]
      exact ⟨_, .failed (dispatch_unknown hunreachable hnumber), { hmirrors with },
        haccounts.failed _⟩
    | some number =>
      rw [hregistered] at hnumber
      rw [Switchboard.request_registered hcutOff hregistered] at hfits ⊢
      -- the turns end where `serve` does, whatever the number of the delivery
      have hserved := (hmirrors.idle number).completes net.nextTask q
      have hidle := (hmirrors.idle number).serve q
      generalize (s.replicas number).serve 0 q = ended at hfits hserved hidle ⊢
      have hmirrors' : (net.handedIn peer q).Mirrors s := { hmirrors with }
      rw [← hmirrors'.replicas] at hserved
      have hexchanged := Exchanged.served
        (dispatch_registered hunreachable hnumber hfits.request) hserved
      rw [takeBack_of_fits _ (hfits.reply _ rfl)] at hexchanged
      exact ⟨_, hexchanged, { hmirrors'.setReplica number hidle with },
        haccounts.served number ended.2 ended.1 _⟩

/-- Whatever is done, it comes to the same over the network and without it. By induction on the
uses, of which only requests count in the books. -/
theorem runs_run (hmirrors : net.Mirrors s) {before : List Enquiry}
    (haccounts : net.Accounts before) (uses : List (Use n))
    (hfits : ∀ e ∈ (s.run uses).1, e.Fits) :
    ∃ later, net.Runs uses ((s.run uses).1, later) ∧ later.Mirrors (s.run uses).2 ∧
      later.Accounts (before ++ (s.run uses).1) := by
  -- on the uses; the log and the counters tell of the enquiries before them already
  induction uses generalizing net s before with
  | nil => exact ⟨net, .nil net, hmirrors, (List.append_nil before).symm ▸ haccounts⟩
  | cons use uses ih =>
    cases use with
    | register peer number =>
      have haccounts' : (net.register peer number).Accounts before := { haccounts with }
      obtain ⟨later, hruns, hlater⟩ := ih (hmirrors.register peer number) haccounts' hfits
      exact ⟨later, .register hruns, hlater⟩
    | setUnreachable peer cutOff =>
      have haccounts' : (net.setUnreachable peer cutOff).Accounts before := { haccounts with }
      obtain ⟨later, hruns, hlater⟩ := ih (hmirrors.setUnreachable peer cutOff) haccounts' hfits
      exact ⟨later, .setUnreachable hruns, hlater⟩
    | request peer q =>
      rw [Switchboard.run] at hfits ⊢
      obtain ⟨hfirst, hrest⟩ := List.forall_mem_cons.mp hfits
      obtain ⟨net', hexchanged, hmirrors', haccounts'⟩ :=
        exchanged_request hmirrors haccounts hfirst
      obtain ⟨later, hruns, hlater, henquiries⟩ := ih hmirrors' haccounts' hrest
      refine ⟨later, .request hexchanged hruns, hlater, ?_⟩
      rw [List.append_assoc] at henquiries
      exact henquiries

/-- As long as no two requests overlap the network is transparent. It gives the replies and leaves
the replicas that come of the same requests without a network: those of `Replica.serve` where a peer
is registered and connected, and a failure that concerns no replica where it is not. The log has all
requests in order, each of them was answered or failed, and the bytes sent are those of the answered
ones. -/
theorem transparent (replicas : Vector Replica n) (hidle : ∀ number, (replicas.get number).Idle)
    (uses : List (Use n))
    (hfits : ∀ e ∈ ((Switchboard.ofReplicas replicas.get).run uses).1, e.Fits) :
    let enquiries := ((Switchboard.ofReplicas replicas.get).run uses).1
    let after := ((Switchboard.ofReplicas replicas.get).run uses).2
    (∃ net : Network n,
      (∀ ended, (unconnected replicas).Runs uses ended ↔ ended = (enquiries, net)) ∧
      net.replicas.get = after.replicas ∧
      net.sentInOrder = uses.filterMap Use.sent? ∧
      net.traffic.requestsSent = enquiries.countP Enquiry.answered ∧
      net.traffic.requestsSent + net.traffic.failures = net.sentInOrder.length ∧
      net.traffic.bytesSent =
        ((enquiries.filter Enquiry.answered).map (·.request.frame.size)).sum) ∧
    (∀ q : Request, q.Fits → Request.ofFrame q.frame = .ok q) ∧
    ∀ response : Response, response.Fits → Response.ofFrame response.frame = .ok response := by
  intro enquiries after
  have hmirrors : (unconnected replicas).Mirrors (.ofReplicas replicas.get) :=
    ⟨rfl, fun _ => Std.ExtTreeMap.getElem?_empty, fun _ => Std.ExtTreeSet.contains_empty, hidle⟩
  obtain ⟨net, hruns, hafter, haccounts⟩ :=
    runs_run hmirrors (accounts_unconnected replicas) uses hfits
  rw [List.nil_append] at haccounts
  refine ⟨⟨net, fun ended => ⟨fun h => h.unique hruns, fun h => h ▸ hruns⟩, hafter.replicas, ?_,
    haccounts.requestsSent, haccounts.total, haccounts.bytesSent⟩, fun q => Request.ofFrame_frame,
    fun response => Response.ofFrame_frame⟩
  exact haccounts.sent.trans (Switchboard.map_sent_run _ uses)

/-- A peer stores a value and has it. Another replica takes its place, which has nothing; it is not
asked while it is cut off, and when it is connected again it refuses a delta. No one knows the other
peer. -/
theorem transparent_replaced :
    let key := Key.firstUnder .zero
    let peer : Peer := default
    let other : Peer := { peer with id := .max }
    let copy := Request.copy (.ofPairs [(key, .empty)]) 0
    let info := Request.info key (.ofContent .empty) 7
    let sync := Request.sync key .zero 0 .empty
    let replicas := Vector.replicate 2 (Replica.ofStore (.alone peer) .empty 32)
    let uses : List (Use 2) := [.register peer.id 0, .request peer copy, .request peer info,
      .register peer.id 1, .request peer info, .setUnreachable peer.id true, .request peer copy,
      .setUnreachable peer.id false, .request peer sync, .request other info]
    let enquiries := ((Switchboard.ofReplicas replicas.get).run uses).1
    (∀ number, (replicas.get number).Idle) ∧ (∀ e ∈ enquiries, e.Fits) ∧
      enquiries.map Enquiry.answered = [true, true, true, false, true, false] ∧
      ∃ net, (unconnected replicas).Runs uses (enquiries, net) ∧
        net.traffic.requestsSent = 4 ∧ net.traffic.failures = 2 ∧
        net.traffic.bytesSent = copy.frame.size + 2 * info.frame.size + sync.frame.size ∧
        (net.replicas.get 0).store.get? key = some .empty ∧
        (net.replicas.get 1).store.get? key = none ∧
        Request.ofFrame copy.frame = .ok copy := by
  intro key peer other copy info sync replicas uses enquiries
  have hidle : ∀ number, (replicas.get number).Idle := fun number => by
    show (replicas[number]).Idle
    rw [Fin.getElem_fin, Vector.getElem_replicate]
    exact .empty 0
  have hfits : ∀ e ∈ enquiries, e.Fits := by decide +kernel
  have hanswered : enquiries.map Enquiry.answered = [true, true, true, false, true, false] := by
    decide +kernel
  obtain ⟨⟨net, hruns, hreplicas, hsent, hrequests, htotal, hbytes⟩, hread, -⟩ :=
    transparent replicas hidle uses hfits
  have hcount : net.traffic.requestsSent = 4 := hrequests.trans (by decide +kernel)
  refine ⟨hidle, hfits, hanswered, net, (hruns _).mpr rfl, hcount, ?_, ?_, ?_, ?_, ?_⟩
  · have hlog : net.sentInOrder.length = 6 := by
      rw [hsent]
      rfl
    omega
  · exact hbytes.trans (by decide +kernel)
  · rw [hreplicas]
    decide +kernel
  · rw [hreplicas]
    decide +kernel
  · exact hread copy (by decide +kernel)

end Network

end DeltaMesh
