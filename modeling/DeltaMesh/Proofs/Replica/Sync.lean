import DeltaMesh.Replica.Serve

/-!
# SYNC is all or nothing

Whatever a SYNC carries, it either stores the value that was announced, finds it in place, or fails
and leaves the values, the tracker and the counts of SYNC requests as they were. All that can
refuse it is decided before anything is written (`decision_syncVerdict`), and the one write that
follows changes no value if it fails.

Main statement: `answerSync_outcome`.
-/

namespace DeltaMesh

/-! ### The decision -/

theorem mapError_ok {ε ε' α : Type} (f : ε → ε') (a : α) :
    (Except.ok a).mapError f = .ok a := rfl

theorem mapError_error {ε ε' α : Type} (f : ε → ε') (why : ε) :
    (Except.error why : Except ε α).mapError f = .error (f why) := rfl

/-- The delta in the payload `delta` makes `value` out of the value held, or of the empty one. -/
def Rebuilds (stored? : Option ByteArray) (delta : ByteArray) (blockSize : Nat)
    (value : ByteArray) : Prop :=
  ∃ d, Wire.decodeDelta delta = .ok d ∧ rebuild (stored?.getD .empty) d blockSize = .ok value

/-- Why a SYNC is refused before anything is written. -/
inductive Refusal (stored? : Option ByteArray) (key : Key) (expectedHash : Id)
    (delta : ByteArray) (blockSize : Nat) : ExchangeError → Prop
  /-- The payload holds no delta. -/
  | unreadable {why : Wire.CodecError} (hdecode : Wire.decodeDelta delta = .error why) :
    Refusal stored? key expectedHash delta blockSize (.codec why)
  /-- The delta refers to a block that the value held does not have. -/
  | outOfRange {d : Delta} {why : OutOfRange} (hdecode : Wire.decodeDelta delta = .ok d)
    (hrebuild : rebuild (stored?.getD .empty) d blockSize = .error why) :
    Refusal stored? key expectedHash delta blockSize (.rebuild why)
  /-- The delta makes another value. -/
  | otherValue {value : ByteArray} (hvalue : Rebuilds stored? delta blockSize value)
    (hhash : Id.ofContent value ≠ expectedHash) :
    Refusal stored? key expectedHash delta blockSize (.hashMismatch key)

/-- What is decided about a SYNC, and on what grounds. -/
inductive Decision (stored? : Option ByteArray) (key : Key) (expectedHash : Id)
    (delta : ByteArray) (blockSize : Nat) : Except ExchangeError (Option ByteArray) → Prop
  | inPlace (hheld : stored?.map Id.ofContent = some expectedHash) :
    Decision stored? key expectedHash delta blockSize (.ok none)
  | store {value : ByteArray} (hother : stored?.map Id.ofContent ≠ some expectedHash)
    (hvalue : Rebuilds stored? delta blockSize value) (hhash : Id.ofContent value = expectedHash) :
    Decision stored? key expectedHash delta blockSize (.ok (some value))
  | refuse {why : ExchangeError} (hother : stored?.map Id.ofContent ≠ some expectedHash)
    (hwhy : Refusal stored? key expectedHash delta blockSize why) :
    Decision stored? key expectedHash delta blockSize (.error why)

theorem decision_syncVerdict (stored? : Option ByteArray) (key : Key) (expectedHash : Id)
    (delta : ByteArray) (blockSize : Nat) : Decision stored? key expectedHash delta blockSize
      (syncVerdict stored? key expectedHash delta blockSize) := by
  rw [syncVerdict]
  split
  case isTrue hheld => exact .inPlace hheld
  case isFalse hother =>
    cases hdecode : Wire.decodeDelta delta with
    | error why => exact .refuse hother (.unreadable hdecode)
    | ok d =>
      cases hrebuild : rebuild (stored?.getD .empty) d blockSize with
      | error why =>
        simp only [mapError_ok, mapError_error, bind, Except.bind, hrebuild]
        exact .refuse hother (.outOfRange hdecode hrebuild)
      | ok value =>
        have hvalue : Rebuilds stored? delta blockSize value := ⟨d, hdecode, hrebuild⟩
        simp only [mapError_ok, bind, Except.bind, hrebuild]
        split
        case isTrue hhash => exact .store hother hvalue hhash
        case isFalse hhash => exact .refuse hother (.otherValue hvalue hhash)

/-- A SYNC that finds its value in place stores nothing. -/
theorem syncVerdict_of_found {stored? : Option ByteArray} (key : Key) {expectedHash : Id}
    (h : stored?.map Id.ofContent = some expectedHash) (delta : ByteArray) (blockSize : Nat) :
    syncVerdict stored? key expectedHash delta blockSize = .ok none :=
  if_pos h

/-- A SYNC whose value is not in place yet stores what its delta rebuilds. -/
theorem syncVerdict_of_rebuilds {stored? : Option ByteArray} {key : Key} {expectedHash : Id}
    {delta value : ByteArray} {blockSize : Nat}
    (hother : stored?.map Id.ofContent ≠ some expectedHash)
    (hvalue : Rebuilds stored? delta blockSize value) (hhash : Id.ofContent value = expectedHash) :
    syncVerdict stored? key expectedHash delta blockSize = .ok (some value) := by
  obtain ⟨d, hdecode, hrebuild⟩ := hvalue
  rw [syncVerdict, if_neg hother]
  simp only [hdecode, hrebuild, mapError_ok, bind, Except.bind]
  exact if_pos hhash

/-- Nothing is left to store when the value is in place, and only then. -/
theorem syncVerdict_eq_none_iff {stored? : Option ByteArray} {key : Key} {expectedHash : Id}
    {delta : ByteArray} {blockSize : Nat} :
    syncVerdict stored? key expectedHash delta blockSize = .ok none ↔
      stored?.map Id.ofContent = some expectedHash := by
  refine ⟨fun h => ?_, fun h => syncVerdict_of_found key h delta blockSize⟩
  have hdecision := decision_syncVerdict stored? key expectedHash delta blockSize
  rw [h] at hdecision
  cases hdecision with
  | inPlace hheld => exact hheld

/-! ### What becomes of the replica -/

/-- Why a SYNC fails: it is refused, or the announced value cannot be written. -/
inductive SyncFailure (r : Replica) (key : Key) (expectedHash : Id) (delta : ByteArray) :
    ExchangeError → Prop
  | refused {why : ExchangeError}
    (hwhy : Refusal (r.store.get? key) key expectedHash delta r.blockSize why) :
    SyncFailure r key expectedHash delta why
  | unwritten {value : ByteArray} {why : StorageError}
    (hvalue : Rebuilds (r.store.get? key) delta r.blockSize value)
    (hhash : Id.ofContent value = expectedHash)
    (hwrite : r.store.fault r.store.tried key value = some why) :
    SyncFailure r key expectedHash delta (.storage why)

/-- How a SYNC ends: with which result, and with which replica `r'` in place of `r`. -/
inductive SyncOutcome (r : Replica) (key : Key) (expectedHash : Id) (delta : ByteArray) :
    Except ExchangeError Response → Replica → Prop
  /-- The announced value is stored in place of another one or of none. -/
  | applied {r' : Replica} {value : ByteArray}
    (hother : (r.store.get? key).map Id.ofContent ≠ some expectedHash)
    (hvalue : Rebuilds (r.store.get? key) delta r.blockSize value)
    (hhash : Id.ofContent value = expectedHash)
    (hwrite : r.store.fault r.store.tried key value = none)
    (hkey : r'.store.get? key = some value)
    (hkeys : ∀ k, k ≠ key → r'.store.get? k = r.store.get? k)
    (htracker : r'.tracker = r.tracker.notify r.directory key.location)
    (hserved : r'.served = { r.served with syncsApplied := r.served.syncsApplied + 1 }) :
    SyncOutcome r key expectedHash delta (.ok (.syncAck .applied)) r'
  /-- The announced value was in place. -/
  | unchanged {r' : Replica}
    (hheld : (r.store.get? key).map Id.ofContent = some expectedHash)
    (hstore : r'.store = r.store) (htracker : r'.tracker = r.tracker)
    (hserved : r'.served = { r.served with syncsUnchanged := r.served.syncsUnchanged + 1 }) :
    SyncOutcome r key expectedHash delta (.ok (.syncAck .unchanged)) r'
  /-- The replica keeps what it had. -/
  | failed {r' : Replica} {why : ExchangeError}
    (hother : (r.store.get? key).map Id.ofContent ≠ some expectedHash)
    (hwhy : SyncFailure r key expectedHash delta why)
    (hentries : r'.store.entries = r.store.entries) (htracker : r'.tracker = r.tracker)
    (hserved : r'.served = r.served) :
    SyncOutcome r key expectedHash delta (.error why) r'

namespace Replica

variable (r : Replica) (key : Key) (expectedHash : Id) (delta : ByteArray)

theorem putLocal_of_fault {value : ByteArray} {why : StorageError}
    (h : r.store.fault r.store.tried key value = some why) : r.putLocal key value =
      (.error why, { r with store := { r.store with tried := r.store.tried + 1 } }) := by
  rw [putLocal, write, Store.put, h]

theorem putLocal_of_no_fault {value : ByteArray}
    (h : r.store.fault r.store.tried key value = none) : r.putLocal key value =
      (.ok (), { r with
        store := { r.store with
          entries := r.store.entries.insert key value
          tried := r.store.tried + 1 }
        tracker := r.tracker.notify r.directory key.location }) := by
  rw [putLocal, write, Store.put, h]
  rfl

theorem applySync_outcome : SyncOutcome r key expectedHash delta
    (r.applySync key expectedHash delta).1 (r.applySync key expectedHash delta).2 := by
  have hdecision := decision_syncVerdict (r.store.get? key) key expectedHash delta r.blockSize
  rw [applySync]
  generalize syncVerdict (r.store.get? key) key expectedHash delta r.blockSize = verdict
    at hdecision ⊢
  cases hdecision with
  | inPlace hheld => exact .unchanged hheld rfl rfl rfl
  | refuse hother hwhy => exact .failed hother (.refused hwhy) rfl rfl rfl
  | @store value hother hvalue hhash =>
    cases hwrite : r.store.fault r.store.tried key value with
    | some why =>
      rw [settleSync, putLocal_of_fault r key hwrite]
      exact .failed hother (.unwritten hvalue hhash hwrite) rfl rfl rfl
    | none =>
      rw [settleSync, putLocal_of_no_fault r key hwrite]
      refine .applied hother hvalue hhash hwrite ?_ ?_ rfl rfl
      · exact Std.ExtTreeMap.getElem?_insert_self
      · intro k hk
        have hcompare : compare key k ≠ .eq :=
          fun h => hk (Std.LawfulEqOrd.eq_of_compare h).symm
        exact (Std.ExtTreeMap.getElem?_insert).trans (if_neg hcompare)

/-- A SYNC ends as its outcome says, for every replica, every payload and whatever faults its writes
meet. There are no assumptions: what the replica has stored, counted, told its tracker and answered
follows from the value it held and from the payload. -/
theorem answerSync_outcome (task : Nat) : SyncOutcome r key expectedHash delta
    (r.answerSync task key expectedHash delta).1 (r.answerSync task key expectedHash delta).2 := by
  rw [answerSync, withLock]
  -- the locks play no part in the outcome
  generalize (KeyLocks.acquire? (r.locks.fetch task key) task).getD (r.locks.fetch task key) = locks
  have h := applySync_outcome { r with locks } key expectedHash delta
  generalize applySync { r with locks } key expectedHash delta = ended at h ⊢
  obtain ⟨result, r'⟩ := ended
  cases h with
  | applied hother hvalue hhash hwrite hkey hkeys htracker hserved =>
    exact .applied hother hvalue hhash hwrite hkey hkeys htracker hserved
  | unchanged hheld hstore htracker hserved => exact .unchanged hheld hstore htracker hserved
  | failed hother hwhy hentries htracker hserved =>
    refine .failed hother ?_ hentries htracker hserved
    cases hwhy with
    | refused hwhy => exact .refused hwhy
    | unwritten hvalue hhash hwrite => exact .unwritten hvalue hhash hwrite

end Replica

end DeltaMesh
