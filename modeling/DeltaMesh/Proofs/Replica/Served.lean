import DeltaMesh.Replica.Service
import Mathlib.Algebra.Group.InjSurj
import Mathlib.Algebra.Group.Nat.Defs
import Mathlib.Algebra.Group.Prod

/-!
# What a replica counts

INFO and COPY are counted when they come in, what became of a SYNC and failures when the request is
answered. A request that is under way has been counted in part (`Service.counted`); whatever its
turns are, in the end the replica has counted what goes with the answer, and the answer goes with
the request (`Replica.turn_counted`). Writes may fail.
-/

namespace DeltaMesh

/-! ### Counts -/

namespace ServedTally

instance : Zero ServedTally := ⟨{}⟩

instance : Add ServedTally where
  add t u :=
    ⟨t.infos + u.infos, t.copies + u.copies, t.syncsApplied + u.syncsApplied,
      t.syncsUnchanged + u.syncsUnchanged, t.failures + u.failures⟩

def toTuple (t : ServedTally) : Nat × Nat × Nat × Nat × Nat :=
  (t.infos, t.copies, t.syncsApplied, t.syncsUnchanged, t.failures)

theorem toTuple_injective : Function.Injective toTuple := by
  rintro ⟨a, b, c, d, e⟩ ⟨a', b', c', d', e'⟩ h
  simp only [toTuple, Prod.mk.injEq] at h
  obtain ⟨rfl, rfl, rfl, rfl, rfl⟩ := h
  rfl

instance : SMul Nat ServedTally where
  smul k t :=
    ⟨k * t.infos, k * t.copies, k * t.syncsApplied, k * t.syncsUnchanged, k * t.failures⟩

instance : AddCommMonoid ServedTally :=
  toTuple_injective.addCommMonoid toTuple rfl (fun _ _ => rfl) fun _ _ => rfl

section

variable (t u : ServedTally)

@[simp] theorem infos_add : (t + u).infos = t.infos + u.infos := rfl

@[simp] theorem copies_add : (t + u).copies = t.copies + u.copies := rfl

@[simp] theorem syncsApplied_add :
    (t + u).syncsApplied = t.syncsApplied + u.syncsApplied := rfl

@[simp] theorem syncsUnchanged_add :
    (t + u).syncsUnchanged = t.syncsUnchanged + u.syncsUnchanged := rfl

@[simp] theorem failures_add : (t + u).failures = t.failures + u.failures := rfl

end

/-- What is counted for a request of this kind with this answer. -/
def ofAnswer (kind : RequestKind) (response : Response) : ServedTally where
  infos := if kind = .info then 1 else 0
  copies := if kind = .copy then 1 else 0
  syncsApplied := if response matches .syncAck .applied then 1 else 0
  syncsUnchanged := if response matches .syncAck .unchanged then 1 else 0
  failures := if response matches .failed _ then 1 else 0

end ServedTally

/-! ### Requests -/

/-- Such a request may be answered like this. -/
def Response.Suits (kind : RequestKind) : Response → Prop
  | .info .. => kind = .info
  | .copyAck _ => kind = .copy
  | .syncAck _ => kind = .sync
  | .failed _ => True

namespace Service

/-- The request is of this kind. -/
def Serves (kind : RequestKind) : Service → Prop
  | received q => q.kind = kind
  | signing answer => kind = .info ∧ ∃ holding timestamp checksums,
    answer = .info holding timestamp checksums
  | storing .. => kind = .copy
  | entering .. | rebuilding .. => kind = .sync

/-- What was counted for the request so far. -/
def counted : Service → ServedTally
  | received _ | entering .. | rebuilding .. => 0
  | signing _ => { infos := 1 }
  | storing .. => { copies := 1 }

/-- The request is of this kind, and its answer goes with it. -/
def Stop.Serves (kind : RequestKind) : Stop → Prop
  | answered response => response.Suits kind
  | computing _ rest | locked rest => rest.Serves kind

/-- What was counted for a request of this kind until it came to a stop. -/
def Stop.counted (kind : RequestKind) : Stop → ServedTally
  | answered response => .ofAnswer kind response
  | computing _ rest | locked rest => rest.counted

end Service

namespace Replica

/-- A request of this kind, of which `before` was counted when the replica had counted `served`, has
come to a stop, and what belongs to it was counted meanwhile. -/
structure Counted (kind : RequestKind) (before served : ServedTally)
    (ended : Service.Stop × Replica) : Prop where
  serves : ended.1.Serves kind
  counted : ∃ more, ended.2.served = served + more ∧ ended.1.counted kind = before + more

variable {kind : RequestKind} {served : ServedTally} {r : Replica}

/-- Telling the tracker counts nothing. -/
theorem served_foldl_notify (locations : List Id) (r : Replica) :
    (locations.foldl notify r).served = r.served := by
  induction locations generalizing r with
  | nil => rfl
  | cons location locations ih => exact ih (r.notify location)

theorem served_askFor (r : Replica) (task : Nat) (entries : List (Key × ByteArray)) :
    (r.askFor task entries).served = r.served := by
  cases entries <;> rfl

/-- A request ends with what it comes to: a failure is counted now, anything else has been. -/
theorem counted_close {before : ServedTally} (more : ServedTally)
    {result : Except ExchangeError Response}
    (hserved : r.served = served + more) (hsuits : ∀ response, result = .ok response →
      response.Suits kind ∧ ServedTally.ofAnswer kind response = before + more)
    (hfailed : ∀ why, result = .error why →
      ∀ reason, ServedTally.ofAnswer kind (.failed reason) = before + more + { failures := 1 }) :
    Counted kind before served (close (result, r)) := by
  cases result with
  | ok response =>
    obtain ⟨hsuits, hanswer⟩ := hsuits response rfl
    exact ⟨hsuits, more, hserved, hanswer⟩
  | error why =>
    refine ⟨trivial, more + { failures := 1 }, ?_, ?_⟩
    · rw [← add_assoc, ← hserved]
      rfl
    · rw [← add_assoc]
      exact hfailed why rfl why.message

theorem counted_settleCopy (locations : List Id) (failure : Option StorageError)
    (hserved : r.served = served) :
    Counted .copy { copies := 1 } served (close (r.settleCopy locations failure)) := by
  have hsame : (r.settleCopy locations failure).2.served = served + 0 := by
    exact (served_foldl_notify ..).trans (hserved.trans (add_zero _).symm)
  refine counted_close 0 hsame (fun response hresponse => ?_) fun why _ reason => rfl
  cases failure with
  | some why => cases hresponse
  | none => exact Except.ok.inj hresponse ▸ ⟨rfl, rfl⟩

/-- A COPY that has to wait for locks is counted once, after as many turns as it takes. -/
theorem counted_turnCopy (task : Nat) (locations : List Id) (entries : List (Key × ByteArray))
    (hserved : r.served = served) :
    Counted .copy { copies := 1 } served (turnCopy task locations entries r) := by
  induction entries generalizing locations r with
  | nil => exact counted_settleCopy locations none hserved
  | cons p rest ih =>
    obtain ⟨key, value⟩ := p
    rw [turnCopy]
    split
    case h_1 => exact ⟨rfl, 0, hserved.trans (add_zero _).symm, (add_zero _).symm⟩
    case h_2 locks hacquire =>
      rw [write]
      dsimp only
      split
      case h_1 heq =>
        obtain ⟨-, rfl⟩ := Prod.mk.inj heq
        exact counted_settleCopy _ _ hserved
      case h_2 heq =>
        obtain ⟨-, rfl⟩ := Prod.mk.inj heq
        exact ih _ ((served_askFor ..).trans hserved)

/-- A SYNC counts by its answer: as applied, as unchanged, or as a failure. -/
theorem counted_settleSync (key : Key) (verdict : Except ExchangeError (Option ByteArray))
    (release : Replica → Replica) (hrelease : ∀ r, (release r).served = r.served)
    (hserved : r.served = served) :
    Counted .sync 0 served (close ((r.settleSync key verdict).1,
      release (r.settleSync key verdict).2)) := by
  rcases verdict with why | _ | value
  · refine counted_close 0 ((hrelease r).trans (hserved.trans (add_zero _).symm)) nofun
      fun _ _ _ => ?_
    rfl
  · refine counted_close { syncsUnchanged := 1 } ?_ (fun response hresponse => ?_) nofun
    · rw [hrelease, ← hserved]
      rfl
    · exact Except.ok.inj hresponse ▸ ⟨rfl, rfl⟩
  · rw [settleSync, putLocal, write]
    dsimp only
    cases hput : r.store.put key value with
    | mk result store =>
      cases result with
      | error why =>
        refine counted_close 0 ((hrelease _).trans (hserved.trans (add_zero _).symm)) nofun ?_
        exact fun _ _ _ => rfl
      | ok _ =>
        refine counted_close { syncsApplied := 1 } ?_ (fun response hresponse => ?_) nofun
        · rw [hrelease, ← hserved]
          rfl
        · exact Except.ok.inj hresponse ▸ ⟨rfl, rfl⟩

/-- A SYNC is counted when it ends; while it computes nothing is counted yet. -/
theorem counted_turnSync (task : Nat) (key : Key) (expectedHash : Id) (delta : ByteArray)
    (hserved : r.served = served) :
    Counted .sync 0 served (r.turnSync task key expectedHash delta) := by
  have hunchanged : r.served = served + 0 := hserved.trans (add_zero _).symm
  rw [turnSync]
  split
  case h_1 => exact ⟨rfl, 0, hunchanged, (add_zero _).symm⟩
  case h_2 locks hacquire =>
    dsimp only
    split
    case h_1 =>
      exact counted_settleSync (r := { r with locks }) key (.ok none) (giveBack · task)
        (fun _ => rfl) hserved
    case h_2 => exact ⟨rfl, 0, hunchanged, (add_zero _).symm⟩

/-- Whatever becomes of a request in a turn, what belongs to it is counted: its arrival in the first
turn, its answer in the last. -/
theorem turn_counted (r : Replica) (task : Nat) {service : Service} (h : service.Serves kind) :
    Counted kind service.counted r.served (r.turn task service) := by
  cases service with
  | received q =>
    cases q with
    | info key valueHash timestamp =>
      cases h
      have hanswer : ∃ holding checksums,
          infoAnswer (r.store.get? key) valueHash timestamp r.blockSize =
            .info holding timestamp checksums := by
        cases r.store.get? key with
        | none => exact ⟨_, _, rfl⟩
        | some value =>
          rw [infoAnswer]
          split <;> exact ⟨_, _, rfl⟩
      obtain ⟨holding, checksums, hanswer⟩ := hanswer
      rw [turn, answerInfo, hanswer]
      dsimp only
      split
      case h_1 => exact ⟨⟨rfl, _, _, _, rfl⟩, { infos := 1 }, rfl, rfl⟩
      case h_2 => exact ⟨rfl, { infos := 1 }, rfl, rfl⟩
    | copy entries timestamp =>
      cases h
      have hcopy := counted_turnCopy task [] entries.toList
        (served_askFor r.countCopy task entries.toList)
      obtain ⟨more, hserved, hcounted⟩ := hcopy.counted
      refine ⟨hcopy.serves, { copies := 1 } + more, ?_, ?_⟩
      · exact hserved.trans (add_assoc r.served { copies := 1 } more)
      · exact hcounted.trans (zero_add _).symm
    | sync key expectedHash timestamp delta =>
      cases h
      exact counted_turnSync (r := { r with locks := r.locks.fetch task key }) task key expectedHash
        delta rfl
  | signing answer =>
    obtain ⟨rfl, holding, timestamp, checksums, rfl⟩ := h
    exact ⟨rfl, 0, (add_zero _).symm, rfl⟩
  | storing entries locations =>
    cases h
    exact counted_turnCopy task locations entries rfl
  | entering key expectedHash delta =>
    cases h
    exact counted_turnSync task key expectedHash delta rfl
  | rebuilding key verdict =>
    cases h
    exact counted_settleSync key verdict (giveBack · task) (fun _ => rfl) rfl

end Replica

end DeltaMesh
