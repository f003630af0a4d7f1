import DeltaMesh.Proofs.Replica.Turn
import DeltaMesh.Proofs.Store.Exclusion
import Mathlib.Data.List.Basic
import Mathlib.Logic.Function.Basic
import Mathlib.Logic.Relation

/-!
# A replica with requests under way

Any number of COPY and SYNC requests are served at once. Each goes through its stages in steps that
may come between those of all others: it asks for the lock of a key, takes it, reads, computes,
stores, gives the lock back, tells the tracker, prunes the locks and answers. A request may be
dropped where it waits for a lock or for a computation. A `Busy` replica is how far all of them have
come, together with a record of who held which lock and what was done.

A lock is referred to by the tasks whose stages tell of it and by no others (`Busy.Locked.claimed`),
and so no two of them hold the lock of one key (`Busy.Locked.exclusive`).
-/

namespace DeltaMesh

namespace Busy

/-- What is done under one key while its lock is held. -/
inductive Work
  | put (value : ByteArray)
  | sync (expectedHash : Id) (delta : ByteArray)

/-- One stay with the lock of a key. For a value of a COPY: the entries that come after it, and the
locations of those that were stored before. -/
inductive Job
  | put (key : Key) (value : ByteArray) (rest : List (Key × ByteArray)) (locations : List Id)
  | sync (key : Key) (expectedHash : Id) (delta : ByteArray)

def Job.key : Job → Key
  | put key .. | sync key .. => key

def Job.work : Job → Work
  | put _ value _ _ => .put value
  | sync _ expectedHash delta => .sync expectedHash delta

/-- How far a request has come. -/
inductive Stage
  /-- It is to ask for the lock. -/
  | asks (job : Job)
  | waits (job : Job)
  /-- It holds the lock, and has not looked at the value yet. -/
  | holds (job : Job)
  /-- It holds the lock, and computes from the value that it has read. -/
  | computes (key : Key) (expectedHash : Id) (delta : ByteArray) (stored? : Option ByteArray)
  /-- It holds the lock, and this is what its computation has come to. -/
  | computed (key : Key) (expectedHash : Id) (delta : ByteArray)
    (verdict : Except ExchangeError (Option ByteArray))
  /-- A COPY is to give the lock back. -/
  | copyLeaves (key : Key) (rest : List (Key × ByteArray)) (locations : List Id)
    (failure : Option StorageError)
  /-- A SYNC is to give the lock back. -/
  | syncLeaves (key : Key) (result : Except ExchangeError Response)
  /-- A COPY is to tell the tracker of these locations. -/
  | settles (locations : List Id) (failure : Option StorageError)
  /-- It is to prune the locks and to answer. -/
  | ended (result : Except ExchangeError Response)

namespace Stage

/-- A COPY goes on with its next entry, if there is one. -/
def copying (locations : List Id) (failure : Option StorageError) :
    List (Key × ByteArray) → Stage
  | [] => settles locations failure
  | (key, value) :: rest => asks (.put key value rest locations)

/-- A request may be dropped here. -/
inductive Suspended : Stage → Prop
  | waits (job : Job) : Suspended (waits job)
  | computes (key : Key) (expectedHash : Id) (delta : ByteArray) (stored? : Option ByteArray) :
    Suspended (computes key expectedHash delta stored?)
  | computed (key : Key) (expectedHash : Id) (delta : ByteArray)
      (verdict : Except ExchangeError (Option ByteArray)) :
    Suspended (computed key expectedHash delta verdict)

/-- The lock that a request refers to, and how. -/
def claim? : Stage → Option (Key × Grip)
  | waits job => some (job.key, .waiting)
  | holds job => some (job.key, .holding)
  | computes key .. | computed key .. | copyLeaves key .. | syncLeaves key _ =>
    some (key, .holding)
  | asks _ | settles .. | ended _ => none

/-- The work under a key that a request has begun and not ended. -/
def work? : Stage → Option (Key × Work)
  | holds job => some (job.key, job.work)
  | computes key expectedHash delta _ | computed key expectedHash delta _ =>
    some (key, .sync expectedHash delta)
  | asks _ | waits _ | copyLeaves .. | syncLeaves .. | settles .. | ended _ => none

end Stage

/-- What has become of a request. -/
inductive Status
  | active (stage : Stage)
  | answered (response : Response)
  /-- It was dropped at this stage. -/
  | dropped (stage : Stage)

namespace Status

def claim? : Status → Option (Key × Grip)
  | active stage => stage.claim?
  | answered _ | dropped _ => none

def work? : Status → Option (Key × Work)
  | active stage => stage.work?
  | answered _ | dropped _ => none

end Status

/-- What has become of the work under a lock. -/
inductive Fate
  | underWay
  | ended
  | dropped
  deriving DecidableEq

/-- A task that took the lock of a key, and what it did there. -/
structure Section where
  task : Nat
  work : Work
  fate : Fate

/-- Something that was done. -/
inductive Mark
  /-- A task has stored a value. -/
  | stored (task : Nat) (key : Key) (value : ByteArray)
  /-- The tracker was told that values under a location were written. -/
  | told (location : Id)

end Busy

open Busy in
/-- A replica and the requests that have come in. -/
structure Busy where
  replica : Replica
  /-- The requests and what has become of them. The place of a request stands for it among the
  holders of locks. -/
  tasks : List (Request × Status)
  /-- Who took the lock of a key, latest first. -/
  sections : Key → List Section
  /-- What was done, latest first. -/
  log : List Mark

namespace Busy

/-- No request has come in yet. -/
def start (r : Replica) : Busy := ⟨r, [], fun _ => [], []⟩

/-- What a request shows of itself. -/
def showing {α : Type} (show? : Status → Option α) (s : Busy) (task : Nat) : Option α :=
  s.tasks[task]?.bind fun p => show? p.2

/-- The lock that a task refers to, and how. -/
def claim? : Busy → Nat → Option (Key × Grip) := showing Status.claim?

/-- The work that a task has begun and not ended. -/
def work? : Busy → Nat → Option (Key × Work) := showing Status.work?

/-- Sets what has become of a request. -/
def move (s : Busy) (task : Nat) (q : Request) (status : Status) : Busy :=
  { s with tasks := s.tasks.set task (q, status) }

def withReplica (s : Busy) (replica : Replica) : Busy := { s with replica }

def withLocks (s : Busy) (locks : KeyLocks Nat) : Busy := s.withReplica { s.replica with locks }

/-- A task has got the lock of a key. -/
def begins (s : Busy) (task : Nat) (job : Job) : Busy :=
  { s with sections :=
      Function.update s.sections job.key (⟨task, job.work, .underWay⟩ :: s.sections job.key) }

/-- The latest of the sections meets its fate. -/
def closeLatest (fate : Fate) : List Section → List Section
  | [] => []
  | latest :: older => { latest with fate } :: older

/-- The work under a key meets its fate. -/
def closes (s : Busy) (key : Key) (fate : Fate) : Busy :=
  { s with sections := Function.update s.sections key (closeLatest fate (s.sections key)) }

def notes (s : Busy) (marks : List Mark) : Busy := { s with log := marks ++ s.log }

/-- What a SYNC has done when it is carried out. -/
def syncMarks (task : Nat) (key : Key) :
    Except ExchangeError (Option ByteArray) → Except ExchangeError Response → List Mark
  | .ok (some value), .ok _ => [.told key.location, .stored task key value]
  | _, _ => []

/-- A request comes in. -/
def arrives (s : Busy) (replica : Replica) (q : Request) (stage : Stage) : Busy :=
  { s with replica, tasks := s.tasks ++ [(q, .active stage)] }

/-- A request begins. -/
def enter? (r : Replica) : Request → Option (Stage × Replica)
  | .info .. => none
  | .copy entries _ => some (.copying [] none entries.toList, r.countCopy)
  | .sync key expectedHash _ delta => some (.asks (.sync key expectedHash delta), r)

/-- A step that a task makes at a stage: what has become of its request, and the replica after. -/
inductive Advance (task : Nat) (s : Busy) : Stage → Status → Busy → Prop
  | ask (job : Job) : Advance task s (.asks job) (.active (.waits job))
      (s.withLocks (s.replica.locks.fetch task job.key))
  | take (job : Job) {locks : KeyLocks Nat} (h : s.replica.locks.acquire? task = some locks) :
    Advance task s (.waits job) (.active (.holds job)) ((s.withLocks locks).begins task job)
  | write {key : Key} {value : ByteArray} (rest : List (Key × ByteArray)) (locations : List Id)
      {r : Replica} (h : s.replica.write key value = (.ok (), r)) :
    Advance task s (.holds (.put key value rest locations))
      (.active (.copyLeaves key rest (key.location :: locations) none))
      (((s.withReplica r).closes key .ended).notes [.stored task key value])
  | writeFails {key : Key} {value : ByteArray} (rest : List (Key × ByteArray))
      (locations : List Id) {why : StorageError} {r : Replica}
      (h : s.replica.write key value = (.error why, r)) :
    Advance task s (.holds (.put key value rest locations))
      (.active (.copyLeaves key [] locations (some why))) ((s.withReplica r).closes key .ended)
  | find {key : Key} {expectedHash : Id} (delta : ByteArray)
      {result : Except ExchangeError Response} {r : Replica}
      (hfound : (s.replica.store.get? key).map Id.ofContent = some expectedHash)
      (h : s.replica.settleSync key (.ok none) = (result, r)) :
    Advance task s (.holds (.sync key expectedHash delta)) (.active (.syncLeaves key result))
      ((s.withReplica r).closes key .ended)
  | read {key : Key} {expectedHash : Id} (delta : ByteArray)
      (hnew : (s.replica.store.get? key).map Id.ofContent ≠ some expectedHash) :
    Advance task s (.holds (.sync key expectedHash delta))
      (.active (.computes key expectedHash delta (s.replica.store.get? key))) s
  | compute (key : Key) (expectedHash : Id) (delta : ByteArray) (stored? : Option ByteArray) :
    Advance task s (.computes key expectedHash delta stored?)
      (.active (.computed key expectedHash delta
        (syncVerdict stored? key expectedHash delta s.replica.blockSize))) s
  | carryOut {key : Key} (expectedHash : Id) (delta : ByteArray)
      {verdict : Except ExchangeError (Option ByteArray)}
      {result : Except ExchangeError Response} {r : Replica}
      (h : s.replica.settleSync key verdict = (result, r)) :
    Advance task s (.computed key expectedHash delta verdict) (.active (.syncLeaves key result))
      (((s.withReplica r).closes key .ended).notes (syncMarks task key verdict result))
  | copyLeave (key : Key) (rest : List (Key × ByteArray)) (locations : List Id)
      (failure : Option StorageError) :
    Advance task s (.copyLeaves key rest locations failure)
      (.active (.copying locations failure rest)) (s.withReplica (s.replica.giveBack task))
  | syncLeave (key : Key) (result : Except ExchangeError Response) :
    Advance task s (.syncLeaves key result) (.active (.ended result))
      (s.withReplica (s.replica.giveBack task))
  | settle (locations : List Id) (failure : Option StorageError)
      {result : Except ExchangeError Response} {r : Replica}
      (h : s.replica.settleCopy locations failure = (result, r)) :
    Advance task s (.settles locations failure) (.active (.ended result))
      ((s.withReplica r).notes
        ((Replica.distinctLocations locations).map Mark.told).reverse)
  | answer {result : Except ExchangeError Response} {response : Response} {r : Replica}
      (h : Replica.respond (result, s.replica.pruneLocks) = (response, r)) :
    Advance task s (.ended result) (.answered response) (s.withReplica r)

/-- A request is forgotten, with the work that it has begun. -/
def abandon (s : Busy) (task : Nat) (stage : Stage) : Busy :=
  let forgotten := s.withReplica (s.replica.forget task)
  match stage.work? with
  | none => forgotten
  | some (key, _) => forgotten.closes key .dropped

/-- What can happen next. -/
inductive Step (s : Busy) : Busy → Prop
  | arrive (q : Request) {stage : Stage} {r : Replica}
      (h : enter? s.replica q = some (stage, r)) :
    Step s (s.arrives r q stage)
  | advance (task : Nat) {q : Request} {stage : Stage} {status : Status} {s' : Busy}
      (hat : s.tasks[task]? = some (q, .active stage)) (h : Advance task s stage status s') :
    Step s (s'.move task q status)
  | drop (task : Nat) {q : Request} {stage : Stage}
      (hat : s.tasks[task]? = some (q, .active stage)) (h : stage.Suspended) :
    Step s ((s.abandon task stage).move task q (.dropped stage))

/-- What a replica can come to. -/
def Reached (r : Replica) (s : Busy) : Prop := Relation.ReflTransGen Step (start r) s

/-! ### What a step leaves alone -/

/-- Of the values only the one under `key` may differ. -/
structure OnlyUnder (key : Key) (r r' : Replica) : Prop where
  blockSize : r'.blockSize = r.blockSize
  fault : r'.store.fault = r.store.fault
  others : ∀ k, k ≠ key → r'.store.get? k = r.store.get? k

/-- Writing a value touches its key alone, whether the write fails or not. -/
theorem onlyUnder_write {r r' : Replica} {key : Key} {value : ByteArray}
    {result : Except StorageError Unit} (h : r.write key value = (result, r')) :
    OnlyUnder key r r' ∧ r'.locks = r.locks := by
  rw [Replica.write, Store.put] at h
  cases hfault : r.store.fault r.store.tried key value with
  | some why =>
    rw [hfault] at h
    obtain ⟨-, rfl⟩ := Prod.mk.inj h
    exact ⟨⟨rfl, rfl, fun _ _ => rfl⟩, rfl⟩
  | none =>
    rw [hfault] at h
    obtain ⟨-, rfl⟩ := Prod.mk.inj h
    refine ⟨⟨rfl, rfl, fun k hk => ?_⟩, rfl⟩
    exact Std.ExtTreeMap.getElem?_insert.trans
      (if_neg fun heq => hk (Std.LawfulEqOrd.eq_of_compare heq).symm)

/-- The end of a SYNC touches its key alone; the locks are given back elsewhere. -/
theorem onlyUnder_settleSync {r r' : Replica} {key : Key}
    {verdict : Except ExchangeError (Option ByteArray)} {result : Except ExchangeError Response}
    (h : r.settleSync key verdict = (result, r')) :
    OnlyUnder key r r' ∧ r'.locks = r.locks := by
  match verdict with
  | .error _ | .ok none =>
    obtain ⟨-, rfl⟩ := Prod.mk.inj h
    exact ⟨⟨rfl, rfl, fun _ _ => rfl⟩, rfl⟩
  | .ok (some value) =>
    obtain ⟨⟨written, wrote⟩, hwrite⟩ : ∃ written, r.write key value = written := ⟨_, rfl⟩
    obtain ⟨honly, hlocks⟩ := onlyUnder_write hwrite
    rw [Replica.settleSync, Replica.putLocal, hwrite] at h
    cases written <;> obtain ⟨-, rfl⟩ := Prod.mk.inj h <;>
      exact ⟨⟨honly.blockSize, honly.fault, honly.others⟩, hlocks⟩

/-- A COPY that ends tells the tracker. -/
theorem settleCopy_eq {r r' : Replica} {locations : List Id} {failure : Option StorageError}
    {result : Except ExchangeError Response} (h : r.settleCopy locations failure = (result, r')) :
    r' = { r with tracker :=
      r.tracker.notifyAll r.directory (Replica.distinctLocations locations) } :=
  (congrArg Prod.snd h).symm.trans (Replica.foldl_notify ..)

/-- An answer counts at most. -/
theorem respond_eq {r r' : Replica} {result : Except ExchangeError Response} {response : Response}
    (h : Replica.respond (result, r) = (response, r')) : ∃ served, r' = { r with served } := by
  cases result <;> obtain ⟨-, rfl⟩ := Prod.mk.inj h <;> exact ⟨_, rfl⟩

section

variable {α : Type} {show? : Status → Option α} {s s' : Busy} {task other : Nat} {q : Request}
  {stage : Stage} {status : Status}

theorem showing_of_active (hat : s.tasks[task]? = some (q, status)) :
    s.showing show? task = show? status := by
  rw [showing, hat]
  rfl

/-- Only the request that moves shows something else, whatever it is that is looked at. -/
theorem showing_move (hat : s.tasks[task]? = some (q, .active stage))
    (htasks : s'.tasks = s.tasks) :
    (s'.move task q status).showing show? other =
      if other = task then show? status else s.showing show? other := by
  have hlt := (List.getElem?_eq_some_iff.mp hat).1
  rw [showing, move, htasks, List.getElem?_set]
  by_cases heq : other = task
  · rw [if_pos heq.symm, if_pos heq, if_pos hlt]
    rfl
  · rw [if_neg (Ne.symm heq), if_neg heq]
    rfl

/-- A request that comes in and shows nothing makes no difference. -/
theorem showing_arrives (hnone : show? (.active stage) = none) (replica : Replica) :
    (s.arrives replica q stage).showing show? other = s.showing show? other := by
  rw [showing, showing, arrives, List.getElem?_append]
  split
  case isTrue => rfl
  case isFalse hge =>
    rw [List.getElem?_eq_none (Nat.le_of_not_lt hge)]
    cases other - s.tasks.length with
    | zero => exact hnone
    | succ => rfl

/-- An advance changes the replica, the log and the sections; that the task has a new status is said
separately. -/
theorem Advance.tasks (h : Advance task s stage status s') : s'.tasks = s.tasks := by
  cases h <;> rfl

theorem Advance.getElem?_tasks (h : Advance task s stage status s')
    (hat : s.tasks[task]? = some (q, .active stage)) :
    (s'.move task q status).tasks[task]? = some (q, status) := by
  rw [move, h.tasks, List.getElem?_set_self (List.getElem?_eq_some_iff.mp hat).1]

theorem tasks_abandon (s : Busy) (task : Nat) (stage : Stage) :
    (s.abandon task stage).tasks = s.tasks := by
  rw [abandon]
  split <;> rfl

/-- A request that is dropped gives up its locks; nothing else of the replica changes. -/
theorem replica_abandon (s : Busy) (task : Nat) (stage : Stage) :
    (s.abandon task stage).replica = s.replica.forget task := by
  rw [abandon]
  split <;> rfl

theorem log_abandon (s : Busy) (task : Nat) (stage : Stage) :
    (s.abandon task stage).log = s.log := by
  rw [abandon]
  split <;> rfl

/-- A request that is dropped outside its critical section leaves the sections as they are. -/
theorem sections_abandon_of_none (s : Busy) (task : Nat) (hwork : stage.work? = none) :
    (s.abandon task stage).sections = s.sections := by
  rw [abandon, hwork]
  rfl

/-- A request that is dropped inside it ends the section without an outcome. -/
theorem sections_abandon {key : Key} {work : Work} (hwork : stage.work? = some (key, work)) :
    (s.abandon task stage).sections =
      Function.update s.sections key (closeLatest .dropped (s.sections key)) := by
  rw [abandon, hwork]
  rfl

theorem Stage.claim?_copying (locations : List Id) (failure : Option StorageError)
    (rest : List (Key × ByteArray)) : (copying locations failure rest).claim? = none := by
  cases rest <;> rfl

theorem Stage.work?_copying (locations : List Id) (failure : Option StorageError)
    (rest : List (Key × ByteArray)) : (copying locations failure rest).work? = none := by
  cases rest <;> rfl

/-- A request begins without a lock, and counts at most; so its arrival disturbs nobody. -/
theorem enter?_eq {r r' : Replica} (h : enter? r q = some (stage, r')) :
    stage.claim? = none ∧ stage.work? = none ∧ ∃ served, r' = { r with served } := by
  cases q with
  | info => cases h
  | copy entries timestamp =>
    obtain ⟨rfl, rfl⟩ := Prod.mk.inj (Option.some.inj h)
    exact ⟨Stage.claim?_copying .., Stage.work?_copying .., _, rfl⟩
  | sync key expectedHash timestamp delta =>
    obtain ⟨rfl, rfl⟩ := Prod.mk.inj (Option.some.inj h)
    exact ⟨rfl, rfl, _, rfl⟩

end

/-! ### Locks -/

/-- The locks that tasks refer to are those that their stages tell of. -/
structure Locked (s : Busy) : Prop where
  inOrder : s.replica.locks.InOrder
  claimed : ∀ task key grip,
    s.replica.locks.Refers task key grip ↔ s.claim? task = some (key, grip)

namespace Locked

variable {s s' : Busy} {task : Nat} {q : Request} {stage : Stage} {status : Status}

/-- Only the task that moves refers to another lock. The table is in order by itself; what has to be
checked is that its references are those that the stages tell. -/
theorem moved (h : s.Locked) (hat : s.tasks[task]? = some (q, .active stage))
    (htasks : s'.tasks = s.tasks) (hinOrder : s'.replica.locks.InOrder)
    (hrefers : ∀ other key grip, s'.replica.locks.Refers other key grip ↔
      if other = task then status.claim? = some (key, grip)
      else s.replica.locks.Refers other key grip) : (s'.move task q status).Locked where
  inOrder := hinOrder
  claimed other key grip := by
    rw [claim?, showing_move hat htasks]
    refine (hrefers other key grip).trans ?_
    split
    · rfl
    · exact h.claimed other key grip

/-- The locks stay as they are. -/
theorem kept (h : s.Locked) (hat : s.tasks[task]? = some (q, .active stage))
    (htasks : s'.tasks = s.tasks) (hlocks : s'.replica.locks = s.replica.locks)
    (hclaim : status.claim? = stage.claim?) : (s'.move task q status).Locked := by
  refine h.moved hat htasks (hlocks ▸ h.inOrder) fun other key grip => ?_
  rw [hlocks]
  split
  case isTrue heq =>
    rw [heq, h.claimed, claim?, showing_of_active hat, hclaim]
    rfl
  case isFalse => rfl

/-- What a table of locks says about a task and what its stage says are the same. -/
theorem refers_iff (h : s.Locked) (hat : s.tasks[task]? = some (q, .active stage)) {key : Key}
    {grip : Grip} :
    s.replica.locks.Refers task key grip ↔ stage.claim? = some (key, grip) := by
  rw [h.claimed, claim?, showing_of_active hat]
  rfl

/-- A task that gives back the one lock that it refers to refers to none. -/
theorem released (h : s.Locked) (hat : s.tasks[task]? = some (q, .active stage))
    (hstage : ∀ key, stage.claim? ≠ some (key, .waiting)) (hstatus : status.claim? = none) :
    ((s.withReplica (s.replica.giveBack task)).move task q status).Locked := by
  refine h.moved hat rfl (h.inOrder.leave task .holding) fun other key grip => ?_
  refine KeyLocks.refers_leave.trans ?_
  split
  case isTrue heq =>
    subst heq
    rw [hstatus, h.refers_iff hat]
    refine ⟨fun ⟨hnot, hclaim⟩ => ?_, fun hclaim => nomatch hclaim⟩
    cases grip with
    | waiting => exact absurd hclaim (hstage key)
    | holding => exact absurd ⟨rfl, rfl⟩ hnot
  case isFalse hne => exact and_iff_right fun heq => hne heq.1

/-- The step lemma of the locks, one case for every kind of advance: a lock is asked for, taken, or
given back, and the stage says which. -/
theorem advance (h : s.Locked) (hat : s.tasks[task]? = some (q, .active stage))
    (hadvance : Advance task s stage status s') : (s'.move task q status).Locked := by
  cases hadvance with
  | ask job =>
    -- the task referred to no lock before, so there is one only that it waits for
    refine h.moved hat rfl (h.inOrder.fetch fun c hc hwait => ?_) fun other key grip => ?_
    · have hrefers : s.replica.locks.Refers task c.key .waiting :=
        ⟨c.lock, by rw [← hwait.1, ← hwait.2]; exact hc⟩
      exact nomatch (h.refers_iff hat).mp hrefers
    · refine KeyLocks.refers_fetch.trans ?_
      split
      case isTrue heq =>
        subst heq
        rw [h.refers_iff hat]
        simp only [Stage.claim?, Status.claim?, reduceCtorEq, or_false, true_and, Option.some.injEq,
          Prod.mk.injEq, eq_comm]
      case isFalse hne => exact or_iff_right fun heq => hne heq.1
  | take job hacquire =>
    refine h.moved hat rfl (h.inOrder.acquire hacquire) fun other key grip => ?_
    refine (KeyLocks.refers_acquire hacquire).trans ?_
    split
    case isTrue heq =>
      subst heq
      rw [h.refers_iff hat, h.refers_iff hat]
      constructor
      · rintro ⟨rfl, hclaim | hclaim⟩
        · obtain ⟨rfl, -⟩ := Prod.mk.inj (Option.some.inj hclaim)
          rfl
        · cases hclaim
      · intro hclaim
        obtain ⟨rfl, rfl⟩ := Prod.mk.inj (Option.some.inj hclaim)
        exact ⟨rfl, .inl rfl⟩
    case isFalse => rfl
  | write _ _ hwrite => exact h.kept hat rfl (onlyUnder_write hwrite).2 rfl
  | writeFails _ _ hwrite => exact h.kept hat rfl (onlyUnder_write hwrite).2 rfl
  | find _ _ hsettle => exact h.kept hat rfl (onlyUnder_settleSync hsettle).2 rfl
  | read => exact h.kept hat rfl rfl rfl
  | compute => exact h.kept hat rfl rfl rfl
  | carryOut _ _ hsettle => exact h.kept hat rfl (onlyUnder_settleSync hsettle).2 rfl
  | copyLeave key rest locations failure =>
    exact h.released hat (fun _ heq => nomatch heq) (Stage.claim?_copying ..)
  | syncLeave => exact h.released hat (fun _ heq => nomatch heq) rfl
  | settle _ _ hsettle =>
    refine h.kept hat rfl ?_ rfl
    rw [settleCopy_eq hsettle]
    rfl
  | answer hrespond =>
    obtain ⟨served, rfl⟩ := respond_eq hrespond
    refine h.moved hat rfl h.inOrder.prune fun other key grip => ?_
    show s.replica.locks.Refers other key grip ↔ _
    split
    case isTrue heq =>
      subst heq
      exact h.refers_iff hat
    case isFalse => rfl

/-- A request that is dropped gives back what it holds and leaves the queue that it waits in. -/
theorem drop (h : s.Locked) (hat : s.tasks[task]? = some (q, .active stage)) :
    ((s.abandon task stage).move task q (.dropped stage)).Locked := by
  -- both what the task holds and what it waits for are given up
  have hlocks : (s.abandon task stage).replica.locks = s.replica.locks.drop task := by
    rw [replica_abandon]
    rfl
  refine h.moved hat (s.tasks_abandon task stage) ?_ fun other key grip => ?_
  · rw [hlocks]
    exact (h.inOrder.leave task .holding).leave task .waiting
  · rw [hlocks, KeyLocks.refers_drop]
    split
    case isTrue heq => exact ⟨fun hrefers => absurd heq hrefers.1, fun hclaim => nomatch hclaim⟩
    case isFalse hne => exact and_iff_right hne

/-- Every step of a run keeps locks and stages together. -/
theorem step (h : s.Locked) (hstep : Step s s') : s'.Locked := by
  cases hstep with
  | arrive q henter =>
    obtain ⟨hclaim, -, served, rfl⟩ := enter?_eq henter
    refine ⟨h.inOrder, fun task key grip => ?_⟩
    rw [claim?, showing_arrives hclaim]
    exact h.claimed task key grip
  | advance task hat hadvance => exact h.advance hat hadvance
  | drop task hat _ => exact h.drop hat

/-- With no request under way no lock is referred to. -/
theorem start {r : Replica} (hlocks : KeyLocks.Reached r.locks) (hfree : r.locks.claims = []) :
    (Busy.start r).Locked := by
  refine ⟨hlocks.inOrder,
    fun task key grip => ⟨fun ⟨lock, hmem⟩ => ?_, fun hclaim => nomatch hclaim⟩⟩
  rw [Busy.start, hfree] at hmem
  cases hmem

end Locked

section

variable {r : Replica} {s : Busy} (hlocks : KeyLocks.Reached r.locks)
  (hfree : r.locks.claims = [])

include hlocks hfree

/-- By induction over the run, with `Locked.step` for each step. -/
theorem Reached.locked (h : Reached r s) : s.Locked := by
  induction h with
  | refl => exact .start hlocks hfree
  | tail _ hstep ih => exact ih.step hstep

end

/-- No two tasks hold the lock of one key. -/
theorem Locked.exclusive {s : Busy} {task other : Nat} {key : Key} (h : s.Locked)
    (htask : s.claim? task = some (key, .holding))
    (hother : s.claim? other = some (key, .holding)) :
    other = task :=
  h.inOrder.eq_of_refers ((h.claimed ..).mpr htask) ((h.claimed ..).mpr hother)

end Busy

end DeltaMesh
