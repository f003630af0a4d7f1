import DeltaMesh.Proofs.Delta.Aligned
import DeltaMesh.Proofs.Delta.Replay
import DeltaMesh.Proofs.Exchange.Honest
import DeltaMesh.Proofs.Replica.Repeats
import DeltaMesh.Proofs.Wire.Size
import Mathlib.Data.Set.Operations
import Mathlib.Logic.Relation

/-!
# Several nodes bring values under one key

Any number of nodes reconcile one key of one replica, each with a value of its own. The replica
serves their requests one at a time, but in any order, more than once or never, and answers come
in late or never; a `Contest` is how far all of them have come. A delta is made for the value that
the replica held when it answered INFO, and may meet another one when it arrives. Only COPY
overwrites without looking, and it carries the sender's own value; a SYNC stores nothing but what
has the announced content hash.

Main statement: as long as the content hash separates the values that occur, the replica holds
its first value or that of one of the nodes, and a node that ends well was told so when the replica
held its value (`contest_sound`). Two nodes that make their deltas for the same value, of which one
delta comes too late, show how a contest is played (`contest_sound_stale_delta`).
-/

namespace DeltaMesh

/-! ### One request at the replica -/

namespace Replica

/-- A SYNC makes the value `x` out of what the replica holds under `key`. -/
def Makes (r : Replica) (key : Key) (q : Request) (x : ByteArray) : Prop :=
  ∃ hash timestamp delta, q = .sync key hash timestamp delta ∧
    Rebuilds (r.store.get? key) delta r.blockSize x

variable (r : Replica) (key : Key) (value : ByteArray)

/-- A COPY of one value stores the value, or it fails and stores nothing. -/
theorem serve_copy_single (task : Nat) (timestamp : Int64) {served : Response × Replica}
    (h : r.serve task (.copy (.ofPairs [(key, value)]) timestamp) = served) :
    served.2.store.get? key = some value ∨
      served.2.store.get? key = r.store.get? key ∧ ∃ reason, served.1 = .failed reason := by
  have hwrites := r.writes_copy task key value timestamp
  rw [h] at hwrites
  obtain ⟨response, r'⟩ := served
  cases hwrites with
  | stored hvalue hheld =>
    subst hvalue
    exact .inl ((congrFun hheld key).trans (Function.update_self ..))
  | failed reason hheld => exact .inr ⟨congrFun hheld key, reason, rfl⟩

/-- A SYNC stores the announced value, finds it, or fails and stores nothing, provided that no
other value that the replica holds or makes has its content hash. -/
theorem serve_sync_brings (task : Nat) (timestamp : Int64) (delta : ByteArray)
    (hinj : ∀ x, r.store.get? key = some x ∨ Rebuilds (r.store.get? key) delta r.blockSize x →
      Id.ofContent x = Id.ofContent value → x = value) {served : Response × Replica}
    (h : r.serve task (.sync key (.ofContent value) timestamp delta) = served) :
    served.2.store.get? key = some value ∨
      served.2.store.get? key = r.store.get? key ∧ ∃ reason, served.1 = .failed reason := by
  by_cases hfound : (r.store.get? key).map Id.ofContent = some (Id.ofContent value)
  · obtain ⟨x, hx, hhash⟩ := Option.map_eq_some_iff.mp hfound
    obtain rfl := hinj x (.inl hx) hhash
    have hstore := r.store_serve_sync task hfound timestamp delta
    rw [h] at hstore
    exact .inl ((congrArg (·.get? key) hstore).trans hx)
  · have hwrites := r.writes_sync task hfound timestamp delta
    rw [h] at hwrites
    obtain ⟨response, r'⟩ := served
    cases hwrites with
    | @stored x hvalue hheld =>
      obtain rfl := hinj x (.inr hvalue.1) hvalue.2
      exact .inl ((congrFun hheld key).trans (Function.update_self ..))
    | failed reason hheld => exact .inr ⟨congrFun hheld key, reason, rfl⟩

/-- A value that is held after a request that brings a value was held before, or it is the one that
was brought, or the one that the delta made. -/
theorem held_serve {q : Request}
    (hq : Brings key value q) (task : Nat) {x : ByteArray}
    (hx : (r.serve task q).2.store.get? key = some x) :
    r.store.get? key = some x ∨ x = value ∨ r.Makes key q x := by
  cases hq with
  | info timestamp => exact .inl hx
  | copy timestamp =>
    rcases r.serve_copy_single key value task timestamp rfl with hkey | ⟨hkey, -⟩
    · exact .inr (.inl (Option.some.inj (hx.symm.trans hkey)))
    · exact .inl (hkey.symm.trans hx)
  | sync timestamp signature blockSize =>
    by_cases hfound : (r.store.get? key).map Id.ofContent = some (Id.ofContent value)
    · rw [r.store_serve_sync task hfound] at hx
      exact .inl hx
    · have hwrites := r.writes_sync task hfound timestamp
        (Wire.encodeDelta (diff signature value blockSize))
      generalize r.serve task _ = ended at hx hwrites
      obtain ⟨response, r'⟩ := ended
      cases hwrites with
      | stored hmade hheld =>
        rw [hheld, Function.update_self] at hx
        exact .inr (.inr ⟨_, _, _, rfl, Option.some.inj hx ▸ hmade.1⟩)
      | failed reason hheld => exact .inl (congrFun hheld key ▸ hx)

/-- Whatever request brings a value, the replica holds that value afterwards or what it held
before, and the former if it says so. -/
theorem serve_brings {q : Request} (hq : Brings key value q) (task : Nat)
    (hinj : ∀ x, r.store.get? key = some x ∨ r.Makes key q x →
      Id.ofContent x = Id.ofContent value → x = value) {served : Response × Replica}
    (h : r.serve task q = served) :
    (served.2.store.get? key = r.store.get? key ∨ served.2.store.get? key = some value) ∧
      (Confirms q served.1 → served.2.store.get? key = some value) := by
  cases hq with
  | info timestamp =>
    subst h
    refine ⟨.inl rfl, fun hconfirms => ?_⟩
    show r.store.get? key = some value
    rw [serve, answerInfo] at hconfirms
    cases hheld : r.store.get? key with
    | none =>
      rw [hheld] at hconfirms
      cases hconfirms
    | some x =>
      rw [hheld] at hconfirms
      simp only [infoAnswer] at hconfirms
      split at hconfirms
      case isTrue hhash => rw [hinj x (.inl hheld) hhash]
      case isFalse => cases hconfirms
  | copy timestamp =>
    rcases serve_copy_single r key value task timestamp h with hkey | ⟨hkey, reason, hfailed⟩
    · exact ⟨.inr hkey, fun _ => hkey⟩
    · refine ⟨.inl hkey, fun hconfirms => ?_⟩
      rw [hfailed] at hconfirms
      cases hconfirms
  | sync timestamp signature blockSize =>
    rcases serve_sync_brings r key value task timestamp _
      (fun x hx => hinj x (hx.imp_right fun hmakes => ⟨_, _, _, rfl, hmakes⟩)) h with
      hkey | ⟨hkey, reason, hfailed⟩
    · exact ⟨.inr hkey, fun _ => hkey⟩
    · refine ⟨.inl hkey, fun hconfirms => ?_⟩
      rw [hfailed] at hconfirms
      cases hconfirms

end Replica

/-! ### The contest -/

/-- A node that brings a value to the replica, and on which terms. -/
structure Rival where
  terms : Terms
  replica : Peer
  value : ByteArray

/-- An answer of the replica, with the value that it held right after it had served the request. -/
structure Answer where
  request : Request
  response : Response
  held : Option ByteArray

/-- What is left of a conversation, and the answer that it went on from last. -/
structure Course where
  rest : Exchange ValueResult
  last : Option Answer

/-- How far several conversations with one replica have come. What was sent and answered stays on
record, so that it can reach the other side late, again or never. -/
structure Contest (ι : Type) where
  replica : Replica
  courses : ι → Course
  sent : List (ι × Request)
  answers : List (ι × Answer)

namespace Contest

variable {ι : Type} (rivals : ι → Rival) (key : Key) (r : Replica)

/-- Nobody has said anything yet. -/
def start : Contest ι where
  replica := r
  courses i :=
    ⟨(reconcileValue (rivals i).terms (rivals i).replica key (rivals i).value).run, none⟩
  sent := []
  answers := []

variable [DecidableEq ι]

/-- The conversation of `i` comes to stand at `course`. -/
def proceed (c : Contest ι) (i : ι) (course : Course) : Contest ι :=
  { c with courses := Function.update c.courses i course }

/-- What can happen next. -/
inductive Step : Contest ι → Contest ι → Prop
  | note {c : Contest ι} (i : ι) {what : Note} {next : Exchange ValueResult}
    (h : (c.courses i).rest = .note what next) :
    Step c (c.proceed i ⟨next, (c.courses i).last⟩)
  | compute {c : Contest ι} (i : ι) {effort : Nat} {next : Exchange ValueResult}
    (h : (c.courses i).rest = .compute effort next) :
    Step c (c.proceed i ⟨next, (c.courses i).last⟩)
  /-- A request is sent, or sent once more. -/
  | send {c : Contest ι} (i : ι) {peer : Peer} {q : Request} {next : Reply → Exchange ValueResult}
    (h : (c.courses i).rest = .ask peer q next) :
    Step c { c with sent := (i, q) :: c.sent }
  /-- A request that was sent at any time reaches the replica, for the first time or again. -/
  | serve {c : Contest ι} (i : ι) {q : Request} (h : (i, q) ∈ c.sent) (task : Nat) :
    Step c { c with
      replica := (c.replica.serve task q).2
      answers := (i, ⟨q, (c.replica.serve task q).1, (c.replica.serve task q).2.store.get? key⟩) ::
        c.answers }
  /-- One of the answers to the request reaches the node that waits for it. -/
  | receive {c : Contest ι} (i : ι) {peer : Peer} {next : Reply → Exchange ValueResult}
    {answer : Answer} (h : (c.courses i).rest = .ask peer answer.request next)
    (hmem : (i, answer) ∈ c.answers) :
    Step c (c.proceed i ⟨next (.ok answer.response), some answer⟩)
  /-- The node that waits for an answer hears of a failure instead. -/
  | giveUp {c : Contest ι} (i : ι) {peer : Peer} {q : Request}
    {next : Reply → Exchange ValueResult} (h : (c.courses i).rest = .ask peer q next)
    (why : NetworkError) :
    Step c (c.proceed i ⟨next (.error why), none⟩)

/-- What the contest can come to. -/
def Reached (c : Contest ι) : Prop := Relation.ReflTransGen (Step key) (start rivals key r) c

/-- The values that matter: the replica's first one, those of the nodes, and what the replica makes
out of a SYNC at some point of the contest. -/
def Occurs (x : ByteArray) : Prop :=
  r.store.get? key = some x ∨ (∃ i, (rivals i).value = x) ∨
    ∃ c i q, Reached rivals key r c ∧ (i, q) ∈ c.sent ∧ c.replica.Makes key q x

/-- Whatever the replica answers, the nodes only ask for what they are there for. -/
structure Orderly (c : Contest ι) : Prop where
  sent : ∀ i q, (i, q) ∈ c.sent → Brings key (rivals i).value q
  /-- A conversation only ends well after an answer that confirms its request. -/
  courses : ∀ i, (c.courses i).rest.Honest key (rivals i).value
    (∃ a, (c.courses i).last = some a ∧ (i, a) ∈ c.answers ∧ Confirms a.request a.response)

/-- Nothing but the values that were brought gets to the replica. -/
structure Faithful (c : Contest ι) : Prop where
  /-- The replica holds what it held first, or the value of one of the nodes. -/
  held : c.replica.store.get? key = r.store.get? key ∨
    ∃ i, c.replica.store.get? key = some (rivals i).value
  /-- An answer that confirms a request was given when the replica held the value. -/
  answers : ∀ i a, (i, a) ∈ c.answers → Confirms a.request a.response →
    a.held = some (rivals i).value

variable {rivals key r}

/-- One conversation proceeds, and the record of answers has grown by the one that it proceeds from.
-/
theorem Orderly.proceed {c : Contest ι} (hc : Orderly rivals key c) (i : ι) {course : Course}
    (h : course.rest.Honest key (rivals i).value
      (∃ a, course.last = some a ∧ (i, a) ∈ c.answers ∧ Confirms a.request a.response)) :
    Orderly rivals key (c.proceed i course) where
  sent := hc.sent
  courses j := by
    by_cases hj : j = i
    · subst hj
      simpa only [Contest.proceed, Function.update_self] using h
    · simpa only [Contest.proceed, Function.update_of_ne hj] using hc.courses j

/-- A conversation goes on as it was written down, whatever the other ones do. -/
theorem Orderly.step {c c' : Contest ι} (hc : Orderly rivals key c) (hstep : Step key c c') :
    Orderly rivals key c' := by
  cases hstep with
  | note i h =>
    have hcourse := hc.courses i
    rw [h] at hcourse
    exact hc.proceed i hcourse
  | compute i h =>
    have hcourse := hc.courses i
    rw [h] at hcourse
    exact hc.proceed i hcourse
  | @send i peer q next h =>
    have hcourse := hc.courses i
    rw [h] at hcourse
    refine { hc with sent := fun j q' hmem => ?_ }
    rcases List.mem_cons.mp hmem with heq | hmem
    · cases heq
      exact hcourse.1
    · exact hc.sent j q' hmem
  | serve i h task =>
    exact { hc with
      courses := fun j => (hc.courses j).imp fun ⟨a, hlast, hmem, hconfirms⟩ =>
        ⟨a, hlast, List.mem_cons_of_mem _ hmem, hconfirms⟩ }
  | @receive i peer next answer h hmem =>
    have hcourse := hc.courses i
    rw [h] at hcourse
    refine hc.proceed i ((hcourse.2 _).imp ?_)
    rintro ⟨response, hresponse, hconfirms⟩
    cases hresponse
    exact ⟨answer, rfl, hmem, hconfirms⟩
  | giveUp i h why =>
    have hcourse := hc.courses i
    rw [h] at hcourse
    refine hc.proceed i ((hcourse.2 _).imp ?_)
    rintro ⟨_, hresponse, _⟩
    cases hresponse

theorem Reached.orderly {c : Contest ι} (hreached : Reached rivals key r c) :
    Orderly rivals key c := by
  induction hreached with
  | refl => exact ⟨fun _ _ h => (nomatch h), fun _ => honest_reconcileValue key _ _ _⟩
  | tail _ hstep ih => exact ih.step hstep

/-- The values held are among those that matter. -/
theorem Faithful.occurs {c : Contest ι} (hc : Faithful rivals key r c) {x : ByteArray}
    (hx : c.replica.store.get? key = some x) : Occurs rivals key r x := by
  rcases hc.held with hsame | ⟨i, hvalue⟩
  · exact .inl (hsame ▸ hx)
  · exact .inr (.inl ⟨i, Option.some.inj (hvalue ▸ hx)⟩)

/-- Only serving a request concerns the replica. A SYNC that was made against a value that is not in
place any more is either refused or makes exactly the value it announces, because no two values that
can occur have the same hash. -/
theorem Faithful.step (hinj : Set.InjOn Id.ofContent {x | Occurs rivals key r x})
    {c c' : Contest ι} (hreached : Reached rivals key r c) (hc : Faithful rivals key r c)
    (hstep : Step key c c') : Faithful rivals key r c' := by
  cases hstep with
  | @serve i q h task =>
    obtain ⟨hheld, hconfirmed⟩ := c.replica.serve_brings key (rivals i).value
      (hreached.orderly.sent i q h) task (fun x hx hhash => hinj
        (hx.elim hc.occurs fun hmakes => .inr (.inr ⟨c, i, q, hreached, h, hmakes⟩))
        (.inr (.inl ⟨i, rfl⟩)) hhash) rfl
    refine ⟨?_, fun j a hmem hconfirms => ?_⟩
    · rcases hheld with hsame | hvalue
      · exact hc.held.imp hsame.trans fun ⟨j, hj⟩ => ⟨j, hsame.trans hj⟩
      · exact .inr ⟨i, hvalue⟩
    · rcases List.mem_cons.mp hmem with heq | hmem
      · cases heq
        exact hconfirmed hconfirms
      · exact hc.answers j a hmem hconfirms
  | note | compute | send | receive | giveUp => exact ⟨hc.held, hc.answers⟩

theorem Reached.faithful (hinj : Set.InjOn Id.ofContent {x | Occurs rivals key r x})
    {c : Contest ι} (hreached : Reached rivals key r c) : Faithful rivals key r c := by
  induction hreached with
  | refl => exact ⟨.inl rfl, fun _ _ h => nomatch h⟩
  | tail hreached hstep ih => exact ih.step hinj hreached hstep

/-- Wherever a contest gets to, the replica holds its first value or exactly that of one of the
nodes, and a node whose conversation has ended well went on last from an answer that the replica
gave when it held exactly that node's value. -/
theorem contest_sound (hinj : Set.InjOn Id.ofContent {x | Occurs rivals key r x}) {c : Contest ι}
    (hreached : Reached rivals key r c) :
    (c.replica.store.get? key = r.store.get? key ∨
      ∃ i, c.replica.store.get? key = some (rivals i).value) ∧
    ∀ i outcome, (c.courses i).rest = .done (.ok outcome) →
      ∃ a, (c.courses i).last = some a ∧ (i, a) ∈ c.answers ∧ a.held = some (rivals i).value := by
  have hfaithful := hreached.faithful hinj
  refine ⟨hfaithful.held, fun i outcome hdone => ?_⟩
  have hcourse := hreached.orderly.courses i
  rw [hdone] at hcourse
  obtain ⟨a, hlast, hmem, hconfirms⟩ := hcourse ⟨outcome, rfl⟩
  exact ⟨a, hlast, hmem, hfaithful.answers i a hmem hconfirms⟩

/-! ### Playing a contest -/

theorem courses_proceed_self (c : Contest ι) (i : ι) (course : Course) :
    (c.proceed i course).courses i = course :=
  Function.update_self ..

theorem courses_proceed_of_ne (c : Contest ι) {i j : ι} (h : j ≠ i) (course : Course) :
    (c.proceed i course).courses j = c.courses j :=
  Function.update_of_ne h ..

/-- A request is sent, served and answered while nothing else happens. -/
theorem Reached.exchange {c : Contest ι} (h : Reached rivals key r c) {i : ι} {peer : Peer}
    {q : Request} {next : Reply → Exchange ValueResult}
    (hask : (c.courses i).rest = .ask peer q next) (task : Nat) :
    ∃ c' answer, Reached rivals key r c' ∧ c'.replica = (c.replica.serve task q).2 ∧
      (∀ j, j ≠ i → c'.courses j = c.courses j) ∧
      c'.courses i = ⟨next (.ok (c.replica.serve task q).1), some answer⟩ ∧
      answer.request = q ∧ answer.response = (c.replica.serve task q).1 := by
  let answer : Answer :=
    ⟨q, (c.replica.serve task q).1, (c.replica.serve task q).2.store.get? key⟩
  have hsent := h.tail (.send i hask)
  have hserved := hsent.tail (.serve i List.mem_cons_self task)
  have hmem : (i, answer) ∈ (i, answer) :: c.answers := List.mem_cons_self
  have hreceived := hserved.tail (.receive i hask hmem)
  refine ⟨_, answer, hreceived, rfl, fun j hj => ?_, ?_, rfl, rfl⟩
  · exact courses_proceed_of_ne _ hj _
  · exact courses_proceed_self _ i _

/-- A node that has said nothing yet asks, hears of another value, and makes its delta. -/
theorem Reached.asked {c : Contest ι} (h : Reached rivals key r c) {i : ι}
    (hnew : c.courses i = (start rivals key r).courses i) (task : Nat) {held : ByteArray}
    (hheld : c.replica.store.get? key = some held)
    (hother : Id.ofContent held ≠ Id.ofContent (rivals i).value)
    (hsize : (Wire.putSignature (.ofValue held c.replica.blockSize)).size ≤ Wire.maxInflated) :
    ∃ c', Reached rivals key r c' ∧ c'.replica.store = c.replica.store ∧
      c'.replica.blockSize = c.replica.blockSize ∧ (∀ j, j ≠ i → c'.courses j = c.courses j) ∧
      (c'.courses i).rest = Exchange.syncing (rivals i).terms (rivals i).replica key
        (rivals i).value (.ofValue held c.replica.blockSize) := by
  have hask : (c.courses i).rest = _ :=
    (congrArg Course.rest hnew).trans (Exchange.run_reconcileValue ..)
  have hsignature := (Wire.carried_signature _ (Nat.lt_of_le_of_lt hsize (by decide))).ok hsize
  obtain ⟨c₁, answer, hreached, hreplica, hothers, hcourse, -, -⟩ := h.exchange hask task
  have hresponse : (c.replica.serve task (.info key (.ofContent (rivals i).value)
      (rivals i).terms.now)).1 = .info .other (rivals i).terms.now
        (some (Wire.encodeSignature (.ofValue held c.replica.blockSize))) := by
    rw [Replica.serve, Replica.answerInfo, hheld, infoAnswer, if_neg hother]
  rw [hresponse, Exchange.afterInfo, Exchange.diffing, hsignature] at hcourse
  have hnoted := hreached.tail (.note i (congrArg Course.rest hcourse))
  have hcomputed := hnoted.tail (.compute i (congrArg Course.rest (courses_proceed_self _ i _)))
  refine ⟨_, hcomputed, ?_, ?_, fun j hj => ?_, ?_⟩
  · show c₁.replica.store = c.replica.store
    rw [hreplica]
    rfl
  · show c₁.replica.blockSize = c.replica.blockSize
    rw [hreplica]
    rfl
  · rw [courses_proceed_of_ne _ hj, courses_proceed_of_ne _ hj, hothers j hj]
  · rw [courses_proceed_self]

/-- A delta is sent and applied, and the node hears of it. The other nodes stand where they stood.
-/
theorem Reached.applied {c : Contest ι} (h : Reached rivals key r c) {i : ι}
    {signature : Signature} (hcourse : (c.courses i).rest = Exchange.syncing (rivals i).terms
      (rivals i).replica key (rivals i).value signature)
    (hlimit : (Exchange.deltaPayload (rivals i).terms (rivals i).value signature).size ≤
      (rivals i).terms.limit) (task : Nat)
    (hother : ¬c.replica.Holds key (.ofContent (rivals i).value))
    (hvalue : Rebuilds (c.replica.store.get? key)
      (Exchange.deltaPayload (rivals i).terms (rivals i).value signature) c.replica.blockSize
        (rivals i).value)
    (hwrite : c.replica.store.fault c.replica.store.tried key (rivals i).value = none) :
    ∃ c', Reached rivals key r c' ∧ c'.replica.store.get? key = some (rivals i).value ∧
      c'.replica.blockSize = c.replica.blockSize ∧ (∀ j, j ≠ i → c'.courses j = c.courses j) ∧
      (c'.courses i).rest = .done (.ok (.synced
        (Exchange.deltaSummary (rivals i).terms (rivals i).value signature) .applied)) := by
  rw [Exchange.syncing, if_neg (Nat.not_lt.mpr hlimit)] at hcourse
  obtain ⟨c₁, answer, hreached, hreplica, hothers, hanswered, -, -⟩ := h.exchange hcourse task
  obtain ⟨r', hserve, hheld⟩ : ∃ r', c.replica.serve task (.sync key (.ofContent (rivals i).value)
      (rivals i).terms.now (Exchange.deltaPayload (rivals i).terms (rivals i).value signature)) =
        (.syncAck .applied, r') ∧ r'.store.get? key = some (rivals i).value :=
    Replica.serve_sync_applied hother hvalue rfl hwrite
  have hblock := c.replica.blockSize_serve task (.sync key (.ofContent (rivals i).value)
    (rivals i).terms.now (Exchange.deltaPayload (rivals i).terms (rivals i).value signature))
  rw [hserve] at hreplica hanswered hblock
  rw [Exchange.afterSync] at hanswered
  refine ⟨_, hreached.tail (.note i (congrArg Course.rest hanswered)), ?_, ?_, fun j hj => ?_, ?_⟩
  · exact (congrArg (·.store.get? key) hreplica).trans hheld
  · exact (congrArg Replica.blockSize hreplica).trans hblock
  · rw [courses_proceed_of_ne _ hj, hothers j hj]
  · rw [courses_proceed_self]

/-- A delta is sent that makes nothing with the content hash announced; it is refused, and the node
hears of it. -/
theorem Reached.refused {c : Contest ι} (h : Reached rivals key r c) {i : ι}
    {signature : Signature} (hcourse : (c.courses i).rest = Exchange.syncing (rivals i).terms
      (rivals i).replica key (rivals i).value signature)
    (hlimit : (Exchange.deltaPayload (rivals i).terms (rivals i).value signature).size ≤
      (rivals i).terms.limit) (task : Nat)
    (hother : ¬c.replica.Holds key (.ofContent (rivals i).value))
    (hmakes : ∀ x, Rebuilds (c.replica.store.get? key)
      (Exchange.deltaPayload (rivals i).terms (rivals i).value signature) c.replica.blockSize x →
        Id.ofContent x ≠ Id.ofContent (rivals i).value) :
    ∃ c' answer reason, Reached rivals key r c' ∧
      c'.replica.store.get? key = c.replica.store.get? key ∧
      (∀ j, j ≠ i → c'.courses j = c.courses j) ∧ (c'.courses i).last = some answer ∧
      answer.request = .sync key (.ofContent (rivals i).value) (rivals i).terms.now
        (Exchange.deltaPayload (rivals i).terms (rivals i).value signature) ∧
      answer.response = .failed reason := by
  rw [Exchange.syncing, if_neg (Nat.not_lt.mpr hlimit)] at hcourse
  obtain ⟨c', answer, hreached, hreplica, hothers, hanswered, hrequest, hresponse⟩ :=
    h.exchange hcourse task
  have hwrites := c.replica.writes_sync task hother (rivals i).terms.now
    (Exchange.deltaPayload (rivals i).terms (rivals i).value signature)
  generalize c.replica.serve task _ = ended at hreplica hresponse hwrites
  obtain ⟨response, r'⟩ := ended
  cases hwrites with
  | stored hvalue => exact absurd hvalue.2 (hmakes _ hvalue.1)
  | failed reason hheld =>
    refine ⟨c', answer, reason, hreached, ?_, hothers, congrArg Course.last hanswered, hrequest,
      hresponse⟩
    exact (congrArg (·.store.get? key) hreplica).trans (congrFun hheld key)

/-- A set of values that holds the first one and those of the nodes, and that no delta for one of
these leads out of, holds all that occurs. -/
theorem occurs_within {P : ByteArray → Prop} (hfirst : ∀ x, r.store.get? key = some x → P x)
    (hvalues : ∀ i, P (rivals i).value)
    (hmakes : ∀ held? i signature windowSize x, (∀ y, held? = some y → P y) →
      Rebuilds held? (Wire.encodeDelta (diff signature (rivals i).value windowSize)) r.blockSize x →
        P x) {x : ByteArray} (hx : Occurs rivals key r x) : P x := by
  have hmade : ∀ {c : Contest ι} {i q x}, Reached rivals key r c → (i, q) ∈ c.sent →
      c.replica.blockSize = r.blockSize → (∀ y, c.replica.store.get? key = some y → P y) →
        c.replica.Makes key q x → P x := by
    rintro c i q x hreached hsent hblock hheld ⟨hash, timestamp, delta, rfl, hrebuilds⟩
    obtain ⟨signature, windowSize, rfl⟩ := (hreached.orderly.sent i _ hsent).delta_eq
    exact hmakes _ i signature windowSize x hheld (hblock ▸ hrebuilds)
  -- the replica holds nothing else, and goes on with the same blocks
  have hwithin : ∀ {c : Contest ι}, Reached rivals key r c →
      c.replica.blockSize = r.blockSize ∧ ∀ y, c.replica.store.get? key = some y → P y := by
    intro c hreached
    induction hreached with
    | refl => exact ⟨rfl, hfirst⟩
    | @tail before _ hbefore hstep ih =>
      cases hstep with
      | @serve i q hsent task =>
        have hbrings := (Reached.orderly hbefore).sent i q hsent
        refine ⟨(before.replica.blockSize_serve task q).trans ih.1, fun y hy => ?_⟩
        rcases before.replica.held_serve key _ hbrings task hy with hsame | rfl | hmakes
        · exact ih.2 y hsame
        · exact hvalues i
        · exact hmade hbefore hsent ih.1 ih.2 hmakes
      | note | compute | send | receive | giveUp => exact ih
  rcases hx with hheld | ⟨i, rfl⟩ | ⟨c, i, q, hreached, hsent, hmakes⟩
  · exact hfirst x hheld
  · exact hvalues i
  · exact hmade hreached hsent (hwithin hreached).1 (hwithin hreached).2 hmakes

/-! ### A delta that comes too late -/

/-- The values of up to two bytes that are all `1` or `2`. -/
def shortValues : List ByteArray :=
  [.empty, ⟨#[1]⟩, ⟨#[2]⟩, ⟨#[1, 1]⟩, ⟨#[1, 2]⟩, ⟨#[2, 1]⟩, ⟨#[2, 2]⟩]

theorem mem_shortValues {x : ByteArray} :
    x ∈ shortValues ↔ x.size ≤ 2 ∧ ∀ b ∈ x.data.toList, b = 1 ∨ b = 2 := by
  constructor
  · intro hx
    simp only [shortValues, List.mem_cons, List.not_mem_nil, or_false] at hx
    rcases hx with rfl | rfl | rfl | rfl | rfl | rfl | rfl
    case inl => exact ⟨Nat.zero_le 2, List.forall_mem_nil _⟩
    all_goals simp [ByteArray.size]
  · rintro ⟨hsize, hbytes⟩
    obtain ⟨⟨l⟩⟩ := x
    match l, hsize, hbytes with
    | [], _, _ => exact List.mem_cons_self
    | [a], _, hbytes =>
      rcases hbytes a (by simp) with rfl | rfl <;> simp [shortValues]
    | [a, b], _, hbytes =>
      rcases hbytes a (by simp) with rfl | rfl <;>
        rcases hbytes b (by simp) with rfl | rfl <;> simp [shortValues]
    | a :: b :: c :: l, hsize, _ =>
      have hlong : l.length + 3 ≤ 2 := hsize
      omega

/-- A delta for one of these values comes out of its payload: it is far too short to be deflated. -/
theorem decodeDelta_shortValues {value : ByteArray} (hvalue : value ∈ shortValues)
    (signature : Signature) (windowSize : Nat) :
    Wire.decodeDelta (Wire.encodeDelta (diff signature value windowSize)) =
      .ok (diff signature value windowSize) := by
  have hsize : (Wire.putDelta (diff signature value windowSize)).size ≤ 69 := by
    have hle := Wire.size_putDelta_diff_le_add signature value windowSize
    have hshort := (mem_shortValues.mp hvalue).1
    have hquot : value.size / windowSize ≤ 2 := Nat.le_trans (Nat.div_le_self _ _) hshort
    have hmul := Nat.mul_le_mul (Nat.sub_le 20 windowSize) hquot
    omega
  have hcarried := Wire.carried_delta _ (Nat.lt_of_le_of_lt hsize (by decide))
  exact hcarried.ok (Nat.le_trans hsize (by decide))

/-- With blocks of one byte no delta for one of these values leads out of them. -/
theorem rebuilds_shortValues {held? : Option ByteArray} {value x : ByteArray}
    {signature : Signature} {windowSize : Nat} (hvalue : value ∈ shortValues)
    (hheld : ∀ y, held? = some y → y ∈ shortValues)
    (h : Rebuilds held? (Wire.encodeDelta (diff signature value windowSize)) 1 x) :
    x ∈ shortValues := by
  obtain ⟨delta, hdecode, hrebuild⟩ := h
  obtain ⟨hsize, hbytes⟩ := mem_shortValues.mp hvalue
  have hbase : held?.getD .empty ∈ shortValues := by
    cases held? with
    | none => exact List.mem_cons_self
    | some y => exact hheld y rfl
  obtain rfl := Except.ok.inj (hdecode.symm.trans (decodeDelta_shortValues hvalue _ _))
  obtain ⟨hlength, hfrom⟩ := rebuild_stale Nat.one_pos hrebuild
  refine mem_shortValues.mpr ⟨by omega, fun b hb => ?_⟩
  exact (hfrom b hb).elim (hbytes b) ((mem_shortValues.mp hbase).2 b)

/-- Two nodes that bring different values. -/
def duel (i : Bool) : Rival := ⟨⟨1, 100, 0⟩, default, if i then ⟨#[1, 1]⟩ else ⟨#[2, 2]⟩⟩

/-- The replica they bring them to, which holds a third value. -/
def duelReplica : Replica := ((Replica.ofStore (.alone default) .empty 1).write default ⟨#[1, 2]⟩).2

/-- The signature that both nodes are sent, since both ask before either delta has come. -/
def duelSignature : Signature := .ofValue ⟨#[1, 2]⟩ 1

theorem get?_duelReplica : duelReplica.store.get? default = some ⟨#[1, 2]⟩ :=
  Std.ExtTreeMap.getElem?_insert_self

theorem duel_mem (i : Bool) : (duel i).value ∈ shortValues := by
  cases i <;> simp [shortValues, duel]

/-- No two of the values that may come up in this contest have the same content hash. -/
theorem injOn_duel : Set.InjOn Id.ofContent {x | Occurs duel default duelReplica x} := by
  have hshort : ∀ x, Occurs duel default duelReplica x → x ∈ shortValues := by
    intro x hx
    refine occurs_within (P := (· ∈ shortValues)) ?_ duel_mem ?_ hx
    · intro y hy
      obtain rfl := Option.some.inj (get?_duelReplica.symm.trans hy)
      simp [shortValues]
    · intro held? i signature windowSize y hheld hrebuilds
      exact rebuilds_shortValues (duel_mem i) hheld hrebuilds
  have hnodup : (shortValues.map Id.ofContent).Nodup := by decide +kernel
  intro x hx y hy hhash
  exact List.inj_on_of_nodup_map hnodup (hshort x hx) (hshort y hy) hhash

theorem size_deltaPayload_duel (i : Bool) :
    (Exchange.deltaPayload (duel i).terms (duel i).value duelSignature).size ≤
      (duel i).terms.limit := by
  refine Nat.le_trans (Wire.size_encodeDelta_diff_le_add _ (duel i).value 1) ?_
  cases i <;> decide

/-- The delta of the second node names the first block of the value that both have heard of. -/
theorem diff_duelSignature : diff duelSignature ⟨#[1, 1]⟩ 1 = [.reference 0, .reference 0] := by
  have hmade : MadeOf ⟨#[1, 2]⟩ 1 [0, 0] ⟨#[1, 1]⟩ := ⟨by decide, by decide, by decide⟩
  have hfirst : duelSignature.idxOf (.ofBlock (blockAt ⟨#[1, 2]⟩ 1 0)) = 0 := by decide +kernel
  rw [duelSignature] at hfirst ⊢
  rw [hmade.diff_eq Nat.one_pos]
  simp only [List.map_cons, List.map_nil, Signature.refer, hfirst]
  rfl

/-- Both nodes have asked, and stand with a delta for the value that is still held. -/
theorem duel_asked : ∃ c, Reached duel default duelReplica c ∧
    c.replica.store = duelReplica.store ∧ c.replica.blockSize = 1 ∧
    ∀ i, (c.courses i).rest =
      Exchange.syncing (duel i).terms (duel i).replica default (duel i).value duelSignature := by
  have hsignature : (Wire.putSignature duelSignature).size ≤ Wire.maxInflated := by
    rw [Wire.size_putSignature, duelSignature, Wire.length_ofValue]
    decide
  have hstart : Reached duel default duelReplica (start duel default duelReplica) := .refl
  obtain ⟨c₁, h₁, hstore₁, hblock₁, hothers₁, hcourse₁⟩ :=
    hstart.asked (i := false) rfl 0 get?_duelReplica (by decide +kernel) hsignature
  have hheld₁ := (congrArg (·.get? default) hstore₁).trans get?_duelReplica
  obtain ⟨c₂, h₂, hstore₂, hblock₂, hothers₂, hcourse₂⟩ :=
    h₁.asked (hothers₁ true (by decide)) 1 hheld₁ (by decide +kernel) (hblock₁ ▸ hsignature)
  refine ⟨c₂, h₂, hstore₂.trans hstore₁, hblock₂.trans hblock₁, fun i => ?_⟩
  cases i with
  | false => exact (congrArg Course.rest (hothers₂ false (by decide))).trans hcourse₁
  | true =>
    rw [hblock₁] at hcourse₂
    exact hcourse₂

/-- A delta that names the first block twice makes `2, 2` out of `2, 2`, and not `1, 1`. -/
theorem duel_stale {x : ByteArray} (h : Rebuilds (some ⟨#[2, 2]⟩)
    (Wire.encodeDelta (diff duelSignature ⟨#[1, 1]⟩ 1)) 1 x) :
    Id.ofContent x ≠ Id.ofContent ⟨#[1, 1]⟩ := by
  obtain ⟨delta, hdecode, hrebuild⟩ := h
  have hcarried : Wire.decodeDelta (Wire.encodeDelta (diff duelSignature ⟨#[1, 1]⟩ 1)) = _ :=
    decodeDelta_shortValues (duel_mem true) duelSignature 1
  rw [diff_duelSignature] at hdecode hcarried
  obtain rfl := Except.ok.inj (hdecode.symm.trans hcarried)
  rw [show (duel true).value = ⟨#[1, 1]⟩ from rfl, diff_duelSignature] at hrebuild
  obtain ⟨-, rfl⟩ := rebuild_eq_ok_iff.mp hrebuild
  decide +kernel

/-- Both nodes hear of the value `1, 2` and make their deltas for it. The first one's is applied.
The second one's names the first block twice, which is another one by now: it makes `2, 2`, and
fails. -/
theorem contest_sound_stale_delta :
    Set.InjOn Id.ofContent {x | Occurs duel default duelReplica x} ∧
    ∃ c, Reached duel default duelReplica c ∧
      (∃ summary, (c.courses false).rest = .done (.ok (.synced summary .applied))) ∧
      (∃ a reason, (c.courses true).last = some a ∧ a.response = .failed reason ∧
        a.request = .sync default (.ofContent ⟨#[1, 1]⟩) 0
          (Wire.encodeDelta [.reference 0, .reference 0])) ∧
      c.replica.store.get? default = some ⟨#[2, 2]⟩ ∧
      (c.replica.store.get? default = duelReplica.store.get? default ∨
        ∃ i, c.replica.store.get? default = some (duel i).value) ∧
      ∃ a, (c.courses false).last = some a ∧ (false, a) ∈ c.answers ∧ a.held = some ⟨#[2, 2]⟩ := by
  obtain ⟨c, hreached, hstore, hblock, hcourses⟩ := duel_asked
  have hheld : c.replica.store.get? default = some ⟨#[1, 2]⟩ :=
    (congrArg (·.get? default) hstore).trans get?_duelReplica
  -- the first delta meets the value that it was made for
  have hother : ¬c.replica.Holds default (.ofContent ⟨#[2, 2]⟩) := by
    rw [Replica.Holds, hheld]
    decide +kernel
  have hvalue : Rebuilds (c.replica.store.get? default)
      (Wire.encodeDelta (diff duelSignature ⟨#[2, 2]⟩ 1)) c.replica.blockSize ⟨#[2, 2]⟩ := by
    rw [hheld, hblock]
    exact ⟨_, decodeDelta_shortValues (duel_mem false) _ _,
      rebuild_diff_of_blockCount 1 (by decide) (by decide +kernel)⟩
  have hwrite : c.replica.store.fault c.replica.store.tried default ⟨#[2, 2]⟩ = none := by
    rw [hstore]
    rfl
  obtain ⟨c₁, h₁, hheld₁, hblock₁, hothers₁, hdone₁⟩ :=
    hreached.applied (hcourses false) (size_deltaPayload_duel false) 2 hother hvalue hwrite
  -- the second one meets the first node's value
  have hother₁ : ¬c₁.replica.Holds default (.ofContent ⟨#[1, 1]⟩) := by
    rw [Replica.Holds, hheld₁]
    decide +kernel
  have hcourse₁ := (congrArg Course.rest (hothers₁ true (by decide))).trans (hcourses true)
  obtain ⟨c₂, answer, reason, h₂, hheld₂, hothers₂, hlast₂, hrequest₂, hresponse₂⟩ :=
    h₁.refused hcourse₁ (size_deltaPayload_duel true) 3 hother₁ fun x hx => by
      rw [hheld₁, hblock₁, hblock] at hx
      exact duel_stale hx
  have hdone₂ := (congrArg Course.rest (hothers₂ false (by decide))).trans hdone₁
  have hrequest := hrequest₂.trans
    (congrArg (Request.sync _ _ _) (congrArg Wire.encodeDelta diff_duelSignature))
  obtain ⟨hfirst, hsettled⟩ := contest_sound injOn_duel h₂
  exact ⟨injOn_duel, c₂, h₂, ⟨_, hdone₂⟩, ⟨answer, reason, hlast₂, hresponse₂, hrequest⟩,
    hheld₂.trans hheld₁, hfirst, hsettled false _ hdone₂⟩

end Contest

end DeltaMesh
