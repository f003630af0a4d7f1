import DeltaMesh.Proofs.Replica.Progress

/-!
# Turns are made of steps

The turns that a replica gives to its requests, `Replica.turn`, are steps of one request after the
other, and a request that is forgotten between two turns is dropped. What is shown of every order of
steps holds of every order of turns.

Main statements: `Busy.played_received`, `Busy.played_turn`, `Busy.step_forget`.
-/

namespace DeltaMesh

namespace Busy

/-- The stage at which a request pauses between two turns. -/
inductive Pauses : Service → Stage → Prop
  | storing (key : Key) (value : ByteArray) (rest : List (Key × ByteArray)) (locations : List Id) :
    Pauses (.storing ((key, value) :: rest) locations) (.waits (.put key value rest locations))
  | entering (key : Key) (expectedHash : Id) (delta : ByteArray) :
    Pauses (.entering key expectedHash delta) (.waits (.sync key expectedHash delta))
  | rebuilding (key : Key) (expectedHash : Id) (delta : ByteArray)
      (verdict : Except ExchangeError (Option ByteArray)) :
    Pauses (.rebuilding key verdict) (.computed key expectedHash delta verdict)

/-- What the end of a turn makes of a request. -/
inductive Stops : Service.Stop → Status → Prop
  | answered (response : Response) : Stops (.answered response) (.answered response)
  | computing (effort : Nat) {rest : Service} {stage : Stage} (h : Pauses rest stage) :
    Stops (.computing effort rest) (.active stage)
  | locked {rest : Service} {stage : Stage} (h : Pauses rest stage) :
    Stops (.locked rest) (.active stage)

/-- A turn of a task, with the replica that it leaves, is made of steps of its request. -/
def Played (task : Nat) (q : Request) (s : Busy) (turn : Service.Stop × Replica) : Prop :=
  ∃ status s', Relation.ReflTransGen Goes s s' ∧ s'.replica = turn.2 ∧
    s'.tasks = s.tasks.set task (q, status) ∧ Stops turn.1 status

variable {s s' : Busy} {task : Nat} {q : Request} {stage : Stage} {status : Status}
  {turn : Service.Stop × Replica}

/-- A turn ends here. -/
theorem Played.stop {stop : Service.Stop} (hat : s.tasks[task]? = some (q, status))
    (h : Stops stop status) : Played task q s (stop, s.replica) := by
  obtain ⟨hlt, hget⟩ := List.getElem?_eq_some_iff.mp hat
  exact ⟨status, s, .refl, rfl, by rw [← hget, List.set_getElem_self], h⟩

/-- A turn begins with a step. -/
theorem Played.step (hat : s.tasks[task]? = some (q, .active stage))
    (hadvance : Advance task s stage status s')
    (h : Played task q (s'.move task q status) turn) : Played task q s turn := by
  obtain ⟨last, s'', hruns, hreplica, htasks, hstops⟩ := h
  refine ⟨last, s'', .head (.intro task hat hadvance) hruns, hreplica, ?_, hstops⟩
  rw [htasks, move, hadvance.tasks, List.set_set]

/-! ### COPY and SYNC -/

theorem played_ended {result : Except ExchangeError Response}
    (hat : s.tasks[task]? = some (q, .active (.ended result))) :
    Played task q s (Replica.close (result, s.replica)) := by
  obtain ⟨⟨response, r⟩, hrespond⟩ :
    ∃ ended, Replica.respond (result, s.replica.pruneLocks) = ended := ⟨_, rfl⟩
  have hanswer : Advance task s (.ended result) (.answered response) (s.withReplica r) :=
    .answer hrespond
  refine .step hat hanswer ?_
  rw [Replica.close, hrespond]
  exact .stop (hanswer.getElem?_tasks hat) (.answered response)

theorem played_settles {locations : List Id} {failure : Option StorageError}
    (hat : s.tasks[task]? = some (q, .active (.settles locations failure))) :
    Played task q s (Replica.close (s.replica.settleCopy locations failure)) := by
  obtain ⟨⟨result, r⟩, hsettle⟩ :
    ∃ settled, s.replica.settleCopy locations failure = settled := ⟨_, rfl⟩
  have hends : Advance task s _ _ _ := .settle locations failure hsettle
  refine .step hat hends ?_
  rw [hsettle]
  exact played_ended (hends.getElem?_tasks hat)

/-- A COPY goes on after it has given a lock back. -/
theorem played_copyLeaves {key : Key} {rest : List (Key × ByteArray)} {locations : List Id}
    {failure : Option StorageError}
    (hat : s.tasks[task]? = some (q, .active (.copyLeaves key rest locations failure)))
    (h : ∀ s' : Busy, s'.replica = s.replica.giveBack task →
      s'.tasks[task]? = some (q, .active (.copying locations failure rest)) →
      Played task q s' turn) : Played task q s turn := by
  have hleave : Advance task s _ _ _ := .copyLeave key rest locations failure
  exact .step hat hleave (h _ rfl (hleave.getElem?_tasks hat))

/-- A request asks for its next lock. -/
theorem played_asks {job : Job} (hat : s.tasks[task]? = some (q, .active (.asks job)))
    (h : ∀ s' : Busy,
      s'.replica = { s.replica with locks := s.replica.locks.fetch task job.key } →
      s'.tasks[task]? = some (q, .active (.waits job)) → Played task q s' turn) :
    Played task q s turn := by
  have hask : Advance task s _ _ _ := .ask job
  exact .step hat hask (h _ rfl (hask.getElem?_tasks hat))

/-- A request goes on with the lock that it has waited for. -/
theorem played_waits {job : Job} {locks : KeyLocks Nat}
    (hat : s.tasks[task]? = some (q, .active (.waits job)))
    (hturn : s.replica.locks.acquireInTurn? task = some locks)
    (h : ∀ s' : Busy, s'.replica = { s.replica with locks } →
      s'.tasks[task]? = some (q, .active (.holds job)) → Played task q s' turn) :
    Played task q s turn := by
  rw [KeyLocks.acquireInTurn?] at hturn
  split at hturn
  case isTrue =>
    have htake : Advance task s _ _ _ := .take job hturn
    exact .step hat htake (h _ rfl (htake.getElem?_tasks hat))
  case isFalse => cases hturn

/-- How a COPY that waits for a lock goes on when it has stored the value. If the write fails it
settles at once; if not, it goes on with the next entry as `hnext` says. -/
theorem played_put {key : Key} {value : ByteArray} {rest : List (Key × ByteArray)}
    {locations : List Id}
    (hat : s.tasks[task]? = some (q, .active (.waits (.put key value rest locations))))
    (hnext : ∀ s' : Busy,
      s'.tasks[task]? = some (q, .active (.copying (key.location :: locations) none rest)) →
      Played task q s' (Replica.turnCopy task (key.location :: locations) rest
        (s'.replica.askFor task rest))) :
    Played task q s (Replica.turnCopy task locations ((key, value) :: rest) s.replica) := by
  rw [Replica.turnCopy]
  cases hturn : s.replica.locks.acquireInTurn? task with
  | none => exact .stop hat (.locked (.storing ..))
  | some locks =>
    refine played_waits hat hturn fun holding hreplica hholds => ?_
    dsimp only at hreplica ⊢
    rw [← hreplica]
    cases hwrite : holding.replica.write key value with
    | mk written r =>
      cases written with
      | error why =>
        have hfails : Advance task holding _ _ _ := .writeFails rest locations hwrite
        refine .step hholds hfails (played_copyLeaves (hfails.getElem?_tasks hholds) ?_)
        intro s' hback hsettles
        have hplayed := played_settles hsettles
        rw [hback] at hplayed
        exact hplayed
      | ok =>
        have hstores : Advance task holding _ _ _ := .write rest locations hwrite
        refine .step hholds hstores (played_copyLeaves (hstores.getElem?_tasks hholds) ?_)
        intro s' hback hcopying
        have hplayed := hnext s' hcopying
        rw [hback] at hplayed
        exact hplayed

/-- The turns of a COPY that waits for a lock, by induction on the entries that are left. -/
theorem played_turnCopy {key : Key} {value : ByteArray} {rest : List (Key × ByteArray)}
    {locations : List Id}
    (hat : s.tasks[task]? = some (q, .active (.waits (.put key value rest locations)))) :
    Played task q s (Replica.turnCopy task locations ((key, value) :: rest) s.replica) := by
  induction rest generalizing s key value locations with
  | nil => exact played_put hat fun s' hsettles => played_settles hsettles
  | cons entry rest ih =>
    refine played_put hat fun s' hasks => played_asks hasks fun waiting hreplica hwaits => ?_
    have hplayed := ih hwaits
    rw [hreplica] at hplayed
    exact hplayed

/-- A SYNC gives the lock back and ends. -/
theorem played_syncLeaves {key : Key} {result : Except ExchangeError Response}
    (hat : s.tasks[task]? = some (q, .active (.syncLeaves key result))) :
    Played task q s (Replica.close (result, s.replica.giveBack task)) := by
  have hleave : Advance task s _ _ _ := .syncLeave key result
  exact .step hat hleave (played_ended (hleave.getElem?_tasks hat))

/-- The turns of a SYNC that waits for its lock. It pauses again only in order to compute. -/
theorem played_turnSync {key : Key} {expectedHash : Id} {delta : ByteArray}
    (hat : s.tasks[task]? = some (q, .active (.waits (.sync key expectedHash delta)))) :
    Played task q s (s.replica.turnSync task key expectedHash delta) := by
  rw [Replica.turnSync]
  cases hturn : s.replica.locks.acquireInTurn? task with
  | none => exact .stop hat (.locked (.entering ..))
  | some locks =>
    refine played_waits hat hturn fun holding hreplica hholds => ?_
    obtain ⟨r, tasks, sections, log⟩ := holding
    obtain rfl : r = { s.replica with locks } := hreplica
    dsimp only
    split
    case h_1 hverdict =>
      cases hsettle : Replica.settleSync { s.replica with locks } key (.ok none) with
      | mk result r =>
        have hfind : Advance task ⟨{ s.replica with locks }, tasks, sections, log⟩ _ _ _ :=
          .find delta (syncVerdict_eq_none_iff.mp hverdict) hsettle
        exact .step hholds hfind (played_syncLeaves (hfind.getElem?_tasks hholds))
    case h_2 verdict hverdict =>
      have hread : Advance task ⟨{ s.replica with locks }, tasks, sections, log⟩ _ _ _ :=
        .read delta fun hfound => hverdict (syncVerdict_eq_none_iff.mpr hfound)
      have hreads := hread.getElem?_tasks hholds
      refine .step hholds hread (.step hreads (.compute ..) ?_)
      refine .stop (Advance.getElem?_tasks (.compute ..) hreads) (.computing _ (.rebuilding ..))

/-! ### Any turn -/

/-- A turn of a request that has paused before is a row of steps from the stage at which it paused.
-/
theorem played_turn {service : Service} (hat : s.tasks[task]? = some (q, .active stage))
    (h : Pauses service stage) : Played task q s (s.replica.turn task service) := by
  cases h with
  | storing key value rest locations => exact played_turnCopy hat
  | entering key expectedHash delta => exact played_turnSync hat
  | rebuilding key expectedHash delta verdict =>
    rw [Replica.turn]
    cases hsettle : s.replica.settleSync key verdict with
    | mk result r =>
      have hcarry : Advance task s _ _ _ := .carryOut expectedHash delta hsettle
      exact .step hat hcarry (played_syncLeaves (hcarry.getElem?_tasks hat))

/-- A request can be forgotten between two turns; that is the step in which its caller is dropped.
-/
theorem step_forget {service : Service} (hat : s.tasks[task]? = some (q, .active stage))
    (h : Pauses service stage) : ∃ s', Step s s' ∧ s'.replica = s.replica.forget task := by
  have hsuspended : stage.Suspended := by
    cases h with
    | storing => exact .waits _
    | entering => exact .waits _
    | rebuilding => exact .computed ..
  exact ⟨_, .drop task hat hsuspended, s.replica_abandon task stage⟩

/-- The first turn of a request consists of its arrival and of as many steps as it can take before
it has to pause. -/
theorem played_received (s : Busy) {stage : Stage} {r : Replica}
    (henter : enter? s.replica q = some (stage, r)) :
    Step s (s.arrives r q stage) ∧
      Played s.tasks.length q (s.arrives r q stage)
        (s.replica.turn s.tasks.length (.received q)) := by
  refine ⟨.arrive q henter, ?_⟩
  have hat : (s.arrives r q stage).tasks[s.tasks.length]? = some (q, .active stage) :=
    List.getElem?_concat_length
  cases q with
  | info => cases henter
  | copy entries timestamp =>
    obtain ⟨rfl, rfl⟩ := Prod.mk.inj (Option.some.inj henter)
    rw [Replica.turn]
    cases hentries : entries.toList with
    | nil =>
      rw [hentries] at hat
      exact played_settles hat
    | cons entry rest =>
      rw [hentries] at hat
      refine played_asks hat fun waiting hreplica hwaits => ?_
      have hplayed := played_turnCopy hwaits
      rw [hreplica] at hplayed
      exact hplayed
  | sync key expectedHash timestamp delta =>
    obtain ⟨rfl, rfl⟩ := Prod.mk.inj (Option.some.inj henter)
    refine played_asks hat fun waiting hreplica hwaits => ?_
    have hplayed := played_turnSync hwaits
    rw [hreplica] at hplayed
    exact hplayed

end Busy

end DeltaMesh
