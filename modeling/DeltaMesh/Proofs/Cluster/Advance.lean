import DeltaMesh.Proofs.Cluster.Moves
import DeltaMesh.Proofs.Exchange.Play

/-!
# Conversations, step by step

However the steps of several conversations follow one another, a conversation with one peer about
one location comes to what it would come to if nothing else went on (`Cluster.Foretells`). A step
of it (`Cluster.advance`) changes nothing but what that peer has of the location, and what is
counted (`Cluster.Foretells.advance`); and nothing that leaves the peer's shelf alone changes what
the conversation comes to (`Cluster.Foretells.kept`).
-/

namespace DeltaMesh

variable {n : Nat} {α : Type}

/-- What the asking node gets of a response. -/
def Response.arrived (response : Response) : Reply :=
  (Response.ofFrame response.frame).mapError Network.unreadable

/-- The request arrives as it was sent, and is about the location. -/
def Request.Suits (location : Id) (q : Request) : Prop := q.Fits ∧ q.About location

theorem covers_suits {t : Terms} {key : Key} {location : Id} (value : ByteArray)
    (hkey : key.location = location) (hlimit : t.limit < Wire.lengthBound) :
    Exchange.Covers (Request.Suits location) t key value where
  info := ⟨trivial, fun _ hk => hk ▸ hkey⟩
  copy hsize := by
    refine ⟨?_, fun k hk => ?_⟩
    · rw [Request.Fits, Entries.toList_ofPairs_single]
      refine ⟨(by decide : 1 < Wire.lengthBound), fun p hp => ?_⟩
      rw [List.mem_singleton.mp hp]
      exact Nat.lt_of_le_of_lt hsize hlimit
    · rw [List.mem_singleton.mp (Entries.mem_ofPairs.mp hk)]
      exact hkey
  sync _ hsize := ⟨Nat.lt_of_le_of_lt hsize hlimit, fun _ hk => hk ▸ hkey⟩

namespace Cluster

/-! ### Steps -/

/-- A conversation when its request has gone so far. -/
def passed (next : Reply → Exchange α) : Passage n × Cluster n → Talk n α × Cluster n
  | (.back reply, c) => (.resting .free (next reply), c)
  | (.underWay d wait, c) => (.asking d wait next, c)
  | (.lost, c) => (.silent, c)

/-- Carries a conversation of a node on by one step, whatever it waits for. -/
def advance (i : Fin n) : Talk n α → Cluster n → Talk n α × Cluster n
  | .resting _ (.done result), c => (.finished result, c)
  | .resting _ (.note what next), c => (.resting .free next, c.jot i what)
  | .resting _ (.compute effort next), c =>
    let (wait, c) := c.beginWork effort
    (.resting wait next, c)
  | .resting _ (.ask peer q next), c => passed next (c.send peer q)
  | .asking d _ next, c => passed next (c.deliver d)
  | .silent, c => (.silent, c)
  | .finished result, c => (.finished result, c)

/-- The replica that serves requests to a peer, or why there is none. -/
def route (c : Cluster n) (p : Peer) : Except NetworkError (Fin n) :=
  if c.network.unreachable.contains p.id then .error (.unreachable p.shortText)
  else
    match c.network.registered[p.id]? with
    | none => .error (.connectionFailed ("unknown peer " ++ p.shortText))
    | some q => .ok q

/-- How a peer meets requests about a location. -/
def meet (c : Cluster n) (p : Peer) (location : Id) (q : Request) (s : Shelf) : Reply × Shelf :=
  match c.route p with
  | .error why => (.error why, s)
  | .ok j =>
    ((q.answer (c.replica j).blockSize s.held).arrived,
      s.after ((c.replica j).Owns location) (q.leaves (c.replica j).blockSize s.held))

/-- What a peer has of a location. -/
def shelfAt (c : Cluster n) (p : Peer) (location : Id) : Shelf :=
  match c.route p with
  | .error _ => ⟨fun _ => none, False⟩
  | .ok j => (c.replica j).shelf location

/-! ### What is kept -/

/-- Nothing changes but what replicas `q` have of locations `T q`, what is counted, and which of the
locations `F` are under way. -/
structure Keeps (T : Fin n → Id → Prop) (F : Id → Prop) (c c' : Cluster n) : Prop where
  replica : ∀ q, (c.replica q).Keeps (T q) (c'.replica q)
  reconciler : ∀ j, (c.reconciler j).Keeps (c'.reconciler j)
  inFlight : ∀ j location, ¬F location →
    (location ∈ (c'.reconciler j).inFlight ↔ location ∈ (c.reconciler j).inFlight)
  registered : c'.network.registered = c.network.registered
  unreachable : c'.network.unreachable = c.network.unreachable
  script : c'.script = c.script
  now : c'.now = c.now
  locks : c.LocksSound → c'.LocksSound

/-- Requests are served, and in order: no script answers them, no write fails, and the locks are in
order. -/
structure Live (c : Cluster n) : Prop where
  script : c.script = none
  fault : ∀ q tried key value, (c.replica q).store.fault tried key value = none
  locks : c.LocksSound

variable {T T' : Fin n → Id → Prop} {F F' : Id → Prop} {c c' c'' : Cluster n} {p : Peer}
  {location : Id}

namespace Keeps

theorem refl (T : Fin n → Id → Prop) (F : Id → Prop) (c : Cluster n) : Keeps T F c c where
  replica q := .refl (T q) _
  reconciler _ := .refl _
  inFlight _ _ _ := Iff.rfl
  registered := rfl
  unreachable := rfl
  script := rfl
  now := rfl
  locks := id

theorem trans (h : Keeps T F c c') (h' : Keeps T F c' c'') : Keeps T F c c'' where
  replica q := (h.replica q).trans (h'.replica q)
  reconciler j := (h.reconciler j).trans (h'.reconciler j)
  inFlight j location hF := (h'.inFlight j location hF).trans (h.inFlight j location hF)
  registered := h'.registered.trans h.registered
  unreachable := h'.unreachable.trans h.unreachable
  script := h'.script.trans h.script
  now := h'.now.trans h.now
  locks := h'.locks ∘ h.locks

theorem mono (h : Keeps T F c c') (hT : ∀ q location, T q location → T' q location)
    (hF : ∀ location, F location → F' location) : Keeps T' F' c c' :=
  { h with
    replica := fun q => (h.replica q).mono (hT q)
    inFlight := fun j location hnot => h.inFlight j location fun hmem => hnot (hF location hmem) }

theorem live (h : Keeps T F c c') (hlive : c.Live) : c'.Live where
  script := h.script.trans hlive.script
  fault q := (h.replica q).fault ▸ hlive.fault q
  locks := h.locks hlive.locks

/-- Who can be reached under an id does not change in a conversation. -/
theorem route (h : Keeps T F c c') (p : Peer) : c'.route p = c.route p := by
  rw [Cluster.route, Cluster.route, h.unreachable, h.registered]

/-- What a request to a peer would meet with depends on the shelf of the location alone, so it does
not change while other locations are dealt with. -/
theorem meet (h : Keeps T F c c') (p : Peer) (location : Id) :
    c'.meet p location = c.meet p location := by
  funext q s
  rw [Cluster.meet, Cluster.meet, h.route]
  cases c.route p with
  | error why => rfl
  | ok j =>
    dsimp only
    rw [(h.replica j).blockSize, propext ((h.replica j).owns location)]

theorem shelfAt (h : Keeps T F c c') (hapart : ∀ j, c.route p = .ok j → ¬T j location) :
    c'.shelfAt p location = c.shelfAt p location := by
  rw [Cluster.shelfAt, Cluster.shelfAt, h.route]
  cases hroute : c.route p with
  | error why => rfl
  | ok j => exact (h.replica j).shelf location (hapart j hroute)

end Keeps

theorem shelfAt_of_route {j : Fin n} (h : c.route p = .ok j) (location : Id) :
    c.shelfAt p location = (c.replica j).shelf location := by
  rw [shelfAt, h]

/-- What a request meets at a peer that can be reached: the answer that the replica gives from the
shelf, and the shelf as the request leaves it. -/
theorem meet_of_route {j : Fin n} (h : c.route p = .ok j) (location : Id) (q : Request)
    (s : Shelf) : c.meet p location q s =
      ((q.answer (c.replica j).blockSize s.held).arrived,
        s.after ((c.replica j).Owns location) (q.leaves (c.replica j).blockSize s.held)) := by
  rw [meet, h]

/-- What the peer has of the location. -/
def niche (c : Cluster n) (p : Peer) (location : Id) (q : Fin n) (other : Id) : Prop :=
  c.route p = .ok q ∧ other = location

/-! ### What a conversation comes to -/

/-- A conversation with a peer about a location will come to this if no one else changes what that
peer has of the location. -/
inductive Foretells (c : Cluster n) (p : Peer) (location : Id) : Talk n α → Ending α → Prop
  | resting {wait : Wait n} {next : Exchange α} (hasks : next.Asks p)
    (hsends : next.Sends (Request.Suits location))
    (hfree : ∀ j, c.route p = .ok j → (c.replica j).Free location) :
    Foretells c p location (.resting wait next)
      (next.play (c.meet p location) (c.shelfAt p location))
  | asking {d : Delivery n} {wait : Wait n} {next : Reply → Exchange α} {response : Response}
    {left : Key → Option ByteArray} (hroute : c.route p = .ok d.replica)
    (hpromise : (c.replica d.replica).Promises location d.task d.service response left)
    (hasks : ∀ reply, (next reply).Asks p)
    (hsends : ∀ reply, (next reply).Sends (Request.Suits location)) :
    Foretells c p location (.asking d wait next)
      ((next response.arrived).play (c.meet p location)
        ((c.shelfAt p location).after ((c.replica d.replica).Owns location) left))
  | finished {result : α} (hfree : ∀ j, c.route p = .ok j → (c.replica j).Free location) :
    Foretells c p location (.finished result) ⟨result, c.shelfAt p location, 0⟩

/-- A foretold end stays foretold whatever happens at the shelves of other locations. -/
theorem Foretells.kept {talk : Talk n α} {ending : Ending α}
    (h : c.Foretells p location talk ending) (hkeeps : Keeps T F c c')
    (hapart : ∀ j, c.route p = .ok j → ¬T j location) :
    c'.Foretells p location talk ending := by
  have hfreed : (∀ j, c.route p = .ok j → (c.replica j).Free location) →
      ∀ j, c'.route p = .ok j → (c'.replica j).Free location := fun hfree j hroute => by
    rw [hkeeps.route] at hroute
    exact (hkeeps.replica j).free (hapart j hroute) (hfree j hroute)
  cases h with
  | resting hasks hsends hfree =>
    rw [← hkeeps.meet, ← hkeeps.shelfAt hapart]
    exact .resting hasks hsends (hfreed hfree)
  | @asking d wait next response left hroute hpromise hasks hsends =>
    rw [← hkeeps.meet, ← hkeeps.shelfAt hapart,
      ← propext ((hkeeps.replica d.replica).owns location)]
    exact .asking ((hkeeps.route p).trans hroute)
      (hpromise.kept (hkeeps.replica d.replica) (hapart _ hroute)) hasks hsends
  | finished hfree =>
    rw [← hkeeps.shelfAt hapart]
    exact .finished (hfreed hfree)

/-! ### One step -/

/-- Replica `j` has served something about the locations `L`; everything else in the cluster is
kept. -/
theorem keeps_served {j : Fin n} {L : Id → Prop} {r : Replica} (hkeeps : (c.replica j).Keeps L r)
    (hsound : r.locks.Sound c.network.nextTask) :
    c.Keeps (fun q other => q = j ∧ L other) F (c.served j r) :=
  { Keeps.refl (fun q other => q = j ∧ L other) F c with
    replica := fun q => by
      by_cases hq : q = j
      · subst hq
        rw [replica_served_self]
        exact hkeeps.mono fun other hother => ⟨rfl, hother⟩
      · rw [replica_served_of_ne c j r hq]
        exact .refl _ _
    locks := fun hlocks q => by
      by_cases hq : q = j
      · subst hq
        rw [replica_served_self]
        exact hsound
      · rw [replica_served_of_ne c j r hq]
        exact hlocks q }

theorem keeps_jot (i : Fin n) (what : Note) : c.Keeps T F (c.jot i what) := by
  have hmoves := c.moves_jot (T := fun _ _ => False) (D := True) i what
  exact { Keeps.refl T F c with
    reconciler := hmoves.reconciler
    inFlight := fun j location _ => by rw [hmoves.inFlight j] }

variable {d : Delivery n} {r : Replica}

/-- A request that is answered. -/
theorem deliver_answered {response : Response} {L : Id → Prop}
    (hturn : (c.replica d.replica).turn d.task d.service = (.answered response, r))
    (hkeeps : (c.replica d.replica).Keeps L r) (hsound : r.locks.Sound c.network.nextTask) :
    ∃ c', c.deliver d = (.back response.arrived, c') ∧
      c.Keeps (fun q other => q = d.replica ∧ L other) F c' ∧ c'.replica d.replica = r ∧
      c'.reconcilers = c.reconcilers := by
  rw [deliver, onReplica, hturn]
  exact ⟨_, rfl, { keeps_served hkeeps hsound with }, c.replica_served_self d.replica r, rfl⟩

/-- A request that leaves something to compute. -/
theorem deliver_computing {effort : Nat} {rest : Service} {L : Id → Prop}
    (hturn : (c.replica d.replica).turn d.task d.service = (.computing effort rest, r))
    (hkeeps : (c.replica d.replica).Keeps L r) (hsound : r.locks.Sound c.network.nextTask) :
    ∃ wait c', c.deliver d = (.underWay { d with service := rest } wait, c') ∧
      c.Keeps (fun q other => q = d.replica ∧ L other) F c' ∧ c'.replica d.replica = r ∧
      c'.reconcilers = c.reconcilers := by
  rw [deliver, onReplica, hturn]
  exact ⟨_, _, rfl, { keeps_served hkeeps hsound with }, c.replica_served_self d.replica r, rfl⟩

/-- A request that does not come through fails for the reason that the route gives, and reaches no
replica. -/
theorem send_of_gone {why : NetworkError} (hscript : c.script = none)
    (hroute : c.route p = .error why) (q : Request) :
    ∃ c', c.send p q = (.back (.error why), c') ∧ c.Keeps T F c' ∧
      c'.reconcilers = c.reconcilers := by
  obtain ⟨network, reconcilers, meter, script, now, work⟩ := c
  subst hscript
  simp only [send, sendOver, Network.dispatch]
  rw [route] at hroute
  dsimp only at hroute
  split at hroute
  case isTrue hgone =>
    obtain rfl := Except.error.inj hroute
    rw [if_pos hgone]
    exact ⟨_, rfl, { Keeps.refl T F _ with }, rfl⟩
  case isFalse hthere =>
    rw [if_neg hthere]
    cases hregistered : network.registered[p.id]? with
    | some j =>
      rw [hregistered] at hroute
      cases hroute
    | none =>
      rw [hregistered] at hroute
      obtain rfl := Except.error.inj hroute
      exact ⟨_, rfl, { Keeps.refl T F _ with }, rfl⟩

/-- A route leads to a replica that can be reached: nothing scripted is in the way, the peer is not
cut off, and the replica is registered under its id. -/
theorem reaches_of_route {j : Fin n} (hscript : c.script = none) (hroute : c.route p = .ok j) :
    c.Reaches p j := by
  rw [route] at hroute
  split at hroute
  case isTrue => cases hroute
  case isFalse hthere =>
    refine ⟨hscript, Bool.eq_false_iff.mpr hthere, ?_⟩
    cases hregistered : c.network.registered[p.id]? with
    | none =>
      rw [hregistered] at hroute
      cases hroute
    | some q =>
      rw [hregistered] at hroute
      rw [Except.ok.inj hroute]

/-- A conversation after a step: what it will come to is the same, and `sent` is what node `i` has
counted in that step. -/
structure Advanced (i : Fin n) (c : Cluster n) (p : Peer) (location : Id) (ending : Ending α)
    (ended : Talk n α × Cluster n) (sent : SentTally) (rest : Ending α) : Prop where
  foretells : ended.2.Foretells p location ended.1 rest
  result : rest.result = ending.result
  shelf : rest.shelf = ending.shelf
  rest : ending.sent = sent + rest.sent
  tally : (ended.2.reconciler i).tally = (c.reconciler i).tally + sent
  inFlight : ∀ j, (ended.2.reconciler j).inFlight = (c.reconciler j).inFlight
  keeps : c.Keeps (c.niche p location) (fun _ => False) ended.2

/-- A step in which nothing is counted, such as sending INFO, leaves the tally of the node as it
was. -/
theorem Advanced.quiet {i : Fin n} {ending : Ending α} {ended : Talk n α × Cluster n}
    (hforetells : ended.2.Foretells p location ended.1 ending)
    (hreconcilers : ended.2.reconcilers = c.reconcilers)
    (hkeeps : c.Keeps (c.niche p location) (fun _ => False) ended.2) :
    Advanced i c p location ending ended 0 ending where
  foretells := hforetells
  result := rfl
  shelf := rfl
  rest := (zero_add _).symm
  tally := by rw [reconciler, reconciler, hreconcilers, add_zero]
  inFlight j := by rw [reconciler, reconciler, hreconcilers]
  keeps := hkeeps

theorem free_of_route {j : Fin n} (hroute : c.route p = .ok j)
    (hfree : (c.replica j).Free location) :
    ∀ q, c.route p = .ok q → (c.replica q).Free location := fun q hq => by
  obtain rfl := Except.ok.inj (hroute.symm.trans hq)
  exact hfree

/-- The answer has come back, and the conversation goes on from there. -/
theorem Foretells.answered {j : Fin n} (hroute : c.route p = .ok j) {r : Replica}
    {left : Key → Option ByteArray}
    (hshelf : r.shelf location = (c.shelfAt p location).after ((c.replica j).Owns location) left)
    (hfree : r.Free location) (hreplica : c'.replica j = r) (hkeeps : c.Keeps T F c')
    {next : Exchange α} (hasks : next.Asks p) (hsends : next.Sends (Request.Suits location)) :
    c'.Foretells p location (.resting .free next) (next.play (c.meet p location)
      ((c.shelfAt p location).after ((c.replica j).Owns location) left)) := by
  have hroute' := (hkeeps.route p).trans hroute
  rw [← hreplica] at hshelf hfree
  rw [← hshelf, ← shelfAt_of_route hroute', ← hkeeps.meet]
  exact .resting hasks hsends (free_of_route hroute' hfree)

/-- A note is taken: the conversation goes on from behind it, and the tally of the node grows by it.
-/
theorem advanced_note (i : Fin n) (what : Note) {next : Exchange α} (hasks : next.Asks p)
    (hsends : next.Sends (Request.Suits location))
    (hfree : ∀ j, c.route p = .ok j → (c.replica j).Free location) :
    Advanced i c p location
      ((Exchange.note what next).play (c.meet p location) (c.shelfAt p location))
      (.resting .free next, c.jot i what) (SentTally.record 0 what)
      (next.play (c.meet p location) (c.shelfAt p location)) := by
  refine ⟨.resting hasks hsends hfree, rfl, rfl, rfl, ?_, fun j => ?_, keeps_jot i what⟩
  · show ((c.setReconciler i ((c.reconciler i).record what)).reconciler i).tally = _
    rw [reconciler_set_self]
    exact SentTally.record_eq_add _ what
  · exact (c.moves_jot (T := fun _ _ => False) (D := True) i what).inFlight j

/-- A request goes out. Whether it meets with a failure, an answer or a computation at the replica,
the conversation goes on from the reply that `Cluster.meet` has foretold: the lock that it needs is
free, and the shelf is its own. -/
theorem advanced_ask (i : Fin n) (hlive : c.Live) {q : Request} {next : Reply → Exchange α}
    (hasks : ∀ reply, (next reply).Asks p) (hq : q.Suits location)
    (hsends : ∀ reply, (next reply).Sends (Request.Suits location))
    (hfree : ∀ j, c.route p = .ok j → (c.replica j).Free location) :
    Advanced i c p location
      ((Exchange.ask p q next).play (c.meet p location) (c.shelfAt p location))
      (passed next (c.send p q)) 0
      ((Exchange.ask p q next).play (c.meet p location) (c.shelfAt p location)) := by
  cases hroute : c.route p with
  | error why =>
    obtain ⟨c', hsend, hkeeps, hreconcilers⟩ :=
      send_of_gone (T := c.niche p location) (F := fun _ => False) hlive.script hroute q
    have hmeet : c.meet p location q (c.shelfAt p location) =
        (.error why, c.shelfAt p location) := by
      rw [meet, hroute]
    rw [hsend, Exchange.play, hmeet]
    refine .quiet ?_ hreconcilers hkeeps
    have hnone : ∀ j, c'.route p ≠ .ok j := fun j hj => by
      rw [hkeeps.route, hroute] at hj
      cases hj
    have hapart : ∀ j, c.route p = .ok j → ¬c.niche p location j location := fun j hj => by
      rw [hroute] at hj
      cases hj
    rw [← hkeeps.meet, ← hkeeps.shelfAt hapart]
    exact .resting (hasks _) (hsends _) fun j hj => absurd hj (hnone j)
  | ok j =>
    let sending := c.sending p q
    let d : Delivery n := ⟨j, c.network.nextTask, q.kind, q.frame.size, .received q⟩
    have hsending : c.Keeps (c.niche p location) (fun _ => False) sending :=
      { Keeps.refl _ _ c with locks := fun hlocks q => (hlocks q).mono (Nat.le_succ _) }
    have hwithin : ∀ k other, k = j ∧ other = location → c.niche p location k other :=
      fun _ _ h => ⟨h.1 ▸ hroute, h.2⟩
    obtain ⟨hkeeps, hsound, hstop⟩ := Replica.turn_received hq.2 (hfree j hroute) (hlive.locks j)
      (hlive.fault j)
    rw [send_eq (reaches_of_route hlive.script hroute) hq.1, Exchange.play, meet_of_route hroute]
    rw [← shelfAt_of_route hroute location] at hstop
    generalize hturn : (c.replica j).turn c.network.nextTask (.received q) = ended
      at hkeeps hsound hstop
    obtain ⟨stop, r⟩ := ended
    rcases hstop with ⟨rfl, hshelf, hfreed⟩ | ⟨effort, rest, rfl, hshelf, hpromise⟩
    · obtain ⟨c', hdeliver, hkeeps', hreplica, hreconcilers⟩ :=
        deliver_answered (c := sending) (d := d) (F := fun _ => False) hturn hkeeps hsound
      rw [hdeliver]
      have hall := hsending.trans (hkeeps'.mono hwithin fun _ => id)
      exact .quiet (.answered hroute hshelf hfreed hreplica hall (hasks _) (hsends _)) hreconcilers
        hall
    · obtain ⟨wait, c', hdeliver, hkeeps', hreplica, hreconcilers⟩ :=
        deliver_computing (c := sending) (d := d) (F := fun _ => False) hturn hkeeps hsound
      rw [hdeliver]
      have hall := hsending.trans (hkeeps'.mono hwithin fun _ => id)
      refine .quiet ?_ hreconcilers hall
      have hroute' := (hall.route p).trans hroute
      rw [← hreplica] at hshelf hpromise
      have hsame : c'.shelfAt p location = c.shelfAt p location :=
        (shelfAt_of_route hroute' location).trans hshelf
      have hforetells : c'.Foretells p location (.asking { d with service := rest } wait next) _ :=
        .asking hroute' hpromise hasks hsends
      rwa [hsame, hall.meet, propext ((hall.replica j).owns location)] at hforetells

/-- A step of a conversation does not change what the conversation will come to. What is counted in
the step is taken off what was foretold to be counted. -/
theorem Foretells.advance {talk : Talk n α} {ending : Ending α} (i : Fin n) (hlive : c.Live)
    (h : c.Foretells p location talk ending) :
    ∃ sent rest, Advanced i c p location ending (Cluster.advance i talk c) sent rest := by
  cases h with
  | finished hfree => exact ⟨0, _, .quiet (.finished hfree) rfl (.refl _ _ c)⟩
  | @asking d wait next response left hroute hpromise hasks hsends =>
    obtain ⟨r, hturn, hkeeps, hsound, hshelf, hfree⟩ :=
      Replica.turn_promised hpromise (hlive.locks d.replica) (hlive.fault d.replica)
    obtain ⟨c', hdeliver, hkeeps', hreplica, hreconcilers⟩ :=
      deliver_answered (F := fun _ => False) hturn hkeeps hsound
    rw [← shelfAt_of_route hroute] at hshelf
    rw [Cluster.advance, hdeliver]
    refine ⟨0, _, .quiet (.answered hroute hshelf hfree hreplica hkeeps' (hasks _) (hsends _))
      hreconcilers (hkeeps'.mono ?_ fun _ => id)⟩
    exact fun q other ⟨hq, hother⟩ => ⟨hq ▸ hroute, hother⟩
  | @resting wait next hasks hsends hfree =>
    cases next with
    | done result => exact ⟨0, _, .quiet (.finished hfree) rfl (.refl _ _ c)⟩
    | compute effort next =>
      have hkeeps : c.Keeps (c.niche p location) (fun _ => False) (c.beginWork effort).2 :=
        { Keeps.refl _ _ c with }
      exact ⟨0, _, .quiet (.resting hasks hsends hfree) rfl hkeeps⟩
    | note what next => exact ⟨_, _, advanced_note i what hasks hsends hfree⟩
    | ask peer q next =>
      obtain ⟨rfl, hasks⟩ := hasks
      exact ⟨_, _, advanced_ask i hlive hasks hsends.1 hsends.2 hfree⟩

end Cluster

end DeltaMesh
