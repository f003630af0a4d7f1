import DeltaMesh.Proofs.Replica.Turn

/-!
# What becomes of a request

At a replica whose writes never fail a request that waits for no lock has a definite answer and
leaves definite values behind. Both depend on nothing but what the replica holds under the keys of
the request (`Request.answer_congr`, `Request.leaves_congr`), and nothing else at the replica
changes but what is counted and what it is responsible for (`Replica.serve_serves`).
-/

namespace DeltaMesh

/-- The answer to a SYNC about which this was decided, if the value can be written. -/
def syncAnswer : Except ExchangeError (Option ByteArray) → Response
  | .error why => .failed why.message
  | .ok none => .syncAck .unchanged
  | .ok (some _) => .syncAck .applied

/-- The value that such a SYNC stores under a key, if it stores one. -/
def syncLeaves (key : Key) (verdict : Except ExchangeError (Option ByteArray)) (k : Key) :
    Option ByteArray :=
  if k = key then verdict.toOption.join else none

namespace Request

/-- The request is about the value under the key. -/
def Concerns : Request → Key → Prop
  | .info key .., k | .sync key .., k => k = key
  | .copy entries _, k => k ∈ entries

variable (blockSize : Nat) (held : Key → Option ByteArray)

/-- The answer of a replica that holds these values. -/
def answer : Request → Response
  | .info key valueHash timestamp => infoAnswer (held key) valueHash timestamp blockSize
  | .copy entries _ => .copyAck entries.size.toUInt32
  | .sync key expectedHash _ delta =>
    syncAnswer (syncVerdict (held key) key expectedHash delta blockSize)

/-- The value that such a replica stores under a key, if it stores one. -/
def leaves : Request → Key → Option ByteArray
  | .info .., _ => none
  | .copy entries _, k => entries[k]?
  | .sync key expectedHash _ delta, k =>
    syncLeaves key (syncVerdict (held key) key expectedHash delta blockSize) k

variable {blockSize held} {held' : Key → Option ByteArray} {q : Request}

theorem answer_congr (h : ∀ k, q.Concerns k → held' k = held k) :
    q.answer blockSize held' = q.answer blockSize held := by
  cases q with
  | copy entries timestamp => rfl
  | info key hash timestamp | sync key hash timestamp delta => rw [answer, answer, h key rfl]

theorem leaves_congr (h : ∀ k, q.Concerns k → held' k = held k) :
    q.leaves blockSize held' = q.leaves blockSize held := by
  funext k
  cases q with
  | info key hash timestamp | copy entries timestamp => rfl
  | sync key hash timestamp delta => rw [leaves, leaves, h key rfl]

theorem concerns_of_leaves {k : Key} {value : ByteArray}
    (h : q.leaves blockSize held k = some value) : q.Concerns k := by
  cases q with
  | info key hash timestamp => cases h
  | copy entries timestamp =>
    rw [Concerns, Std.ExtTreeMap.mem_iff_isSome_getElem?, show entries[k]? = some value from h]
    rfl
  | sync key hash timestamp delta =>
    rw [leaves, syncLeaves] at h
    split at h
    case isTrue heq => exact heq
    case isFalse => cases h

theorem leaves_eq_none {k : Key} (h : ¬q.Concerns k) : q.leaves blockSize held k = none :=
  Option.eq_none_iff_forall_ne_some.mpr fun _ hvalue => h (concerns_of_leaves hvalue)

end Request

/-- One more request was answered, and like this. -/
def ServedTally.count (t : ServedTally) : Response → ServedTally
  | .info .. => { t with infos := t.infos + 1 }
  | .copyAck _ => { t with copies := t.copies + 1 }
  | .syncAck .applied => { t with syncsApplied := t.syncsApplied + 1 }
  | .syncAck .unchanged => { t with syncsUnchanged := t.syncsUnchanged + 1 }
  | .failed _ => { t with failures := t.failures + 1 }

namespace Replica

/-- Something is stored under the location. -/
def Touches (left : Key → Option ByteArray) (location : Id) : Prop :=
  ∃ k value, left k = some value ∧ k.location = location

/-- Of what others can see of replica `r` these are the changes in `r'`, by a request that leaves
`left` behind. -/
structure Stored (left : Key → Option ByteArray) (r r' : Replica) : Prop where
  directory : r'.directory = r.directory
  blockSize : r'.blockSize = r.blockSize
  fault : r'.store.fault = r.store.fault
  held : ∀ k, r'.store.get? k = (left k).or (r.store.get? k)
  /-- The replica looks at the locations under which something is stored, and at no other. -/
  looked : ∀ location, Touches left location →
    (location ∈ r'.tracker.owned ↔ (r.directory.owner location).id = r.directory.self.id)
  spared : ∀ location, ¬Touches left location →
    (location ∈ r'.tracker.owned ↔ location ∈ r.tracker.owned)

/-- All that serving a request changes. -/
structure Serves (q : Request) (r r' : Replica) : Prop
    extends Stored (q.leaves r.blockSize r.store.get?) r r' where
  served : r'.served = r.served.count (q.answer r.blockSize r.store.get?)
  claims : r'.locks.claims = r.locks.claims
  table : r'.locks.table = if q.kind = .info then r.locks.table else r.locks.prune.table
  sound : ∀ bound, r.locks.Sound bound → r'.locks.Sound bound

variable {r r' : Replica} {task bound : Nat} {key : Key}

namespace Stored

variable {left : Key → Option ByteArray}

/-- Nothing is stored. -/
theorem of_eq (hstore : r'.store = r.store) (htracker : r'.tracker = r.tracker)
    (hdirectory : r'.directory = r.directory) (hblock : r'.blockSize = r.blockSize)
    (hleft : ∀ k, left k = none) : Stored left r r' where
  directory := hdirectory
  blockSize := hblock
  fault := by rw [hstore]
  held k := by rw [hstore, hleft, Option.none_or]
  looked _ h := by
    obtain ⟨k, value, hk, -⟩ := h
    rw [hleft] at hk
    cases hk
  spared _ _ := by rw [htracker]

theorem mem_owned (h : Stored left r r') {location : Id} : location ∈ r'.tracker.owned ↔
    Touches left location ∧ (r.directory.owner location).id = r.directory.self.id ∨
      ¬Touches left location ∧ location ∈ r.tracker.owned := by
  by_cases hlooked : Touches left location
  · rw [h.looked location hlooked, and_iff_right hlooked, or_iff_left fun hnot => hnot.1 hlooked]
  · rw [h.spared location hlooked, and_iff_right hlooked, or_iff_right fun hyes => hlooked hyes.1]

end Stored

theorem serves_info (hash : Id) (timestamp : Int64) :
    r.Serves (.info key hash timestamp) (r.answerInfo key hash timestamp).2 where
  toStored := .of_eq rfl rfl rfl rfl fun _ => rfl
  served := by
    rw [Request.answer]
    cases r.store.get? key with
    | none => rfl
    | some value =>
      rw [infoAnswer]
      split <;> rfl
  claims := rfl
  table := rfl
  sound _ h := h

theorem getElem?_insertMany_toList (e e' : Entries) (k : Key) :
    (e.insertMany e'.toList)[k]? = e'[k]?.or e[k]? := by
  cases hk : e'[k]? with
  | none =>
    have hnot : k ∉ e' := fun hmem => by
      rw [Std.ExtTreeMap.mem_iff_isSome_getElem?, hk] at hmem
      cases hmem
    refine Std.ExtTreeMap.getElem?_insertMany_list_of_contains_eq_false ?_
    rw [Std.ExtTreeMap.map_fst_toList_eq_keys]
    simpa using hnot
  | some value =>
    exact Std.ExtTreeMap.getElem?_insertMany_list_of_mem Std.ReflOrd.compare_self
      Std.ExtTreeMap.distinct_keys_toList (Std.ExtTreeMap.mem_toList_iff_getElem?_eq_some.mpr hk)

theorem serve_copy (entries : Entries) (timestamp : Int64) (hsound : r.locks.Sound task)
    (hfault : ∀ tried key value, r.store.fault tried key value = none)
    (hfree : ∀ k ∈ entries, r.locks.on k = []) :
    (r.serve task (.copy entries timestamp)).1 = .copyAck entries.size.toUInt32 ∧
      r.Serves (.copy entries timestamp) (r.serve task (.copy entries timestamp)).2 := by
  have hkeys : ∀ p ∈ entries.toList, r.locks.on p.1 = [] := fun p hp =>
    hfree p.1 (Entries.mem_of_mem_toList hp)
  obtain ⟨tried, locks, hstore, -, -⟩ :=
    storeEntries_eq (r := r.countCopy) hsound hfault entries.toList hkeys
  obtain ⟨hclaims, htable, hlocks⟩ := locks_serve (.copy entries timestamp) hsound fun k hk => by
    obtain ⟨p, hp, rfl⟩ := List.mem_map.mp hk
    exact hkeys p hp
  have hserve : r.serve task (.copy entries timestamp) = (.copyAck entries.size.toUInt32,
      { r.countCopy with
        store := ⟨r.store.entries.insertMany entries.toList, tried, r.store.fault⟩
        tracker := r.tracker.notifyAll r.directory
          (distinctLocations (entries.toList.map (·.1.location)))
        locks := locks.prune }) := by
    rw [serve, answerCopy, hstore]
    simp only [settleCopy, foldl_notify, List.length_map, Std.ExtTreeMap.length_toList]
    rfl
  rw [hserve] at hclaims htable hlocks ⊢
  have htouches : ∀ location, location ∈ distinctLocations (entries.toList.map (·.1.location)) ↔
      Touches (entries[·]?) location := fun location => by
    rw [mem_distinctLocations, List.mem_map]
    constructor
    · rintro ⟨p, hp, heq⟩
      exact ⟨p.1, p.2, Std.ExtTreeMap.mem_toList_iff_getElem?_eq_some.mp hp, heq⟩
    · rintro ⟨k, value, hk, heq⟩
      exact ⟨(k, value), Std.ExtTreeMap.mem_toList_iff_getElem?_eq_some.mpr hk, heq⟩
  refine ⟨rfl, ⟨rfl, rfl, rfl, getElem?_insertMany_toList _ _, fun location hlooked => ?_,
    fun location hspared => ?_⟩, rfl, hclaims, htable, hlocks⟩
  · exact (Tracker.mem_owned_notifyAll _).trans (by rw [if_pos ((htouches _).mpr hlooked)])
  · exact (Tracker.mem_owned_notifyAll _).trans
      (by rw [if_neg fun hmem => hspared ((htouches _).mp hmem)])

/-! ### SYNC -/

/-- What a SYNC comes to, whatever becomes of the locks: its answer, the value that it leaves, and
what is counted depend on the verdict alone. -/
theorem respond_settleSync (hfault : ∀ tried key value, r.store.fault tried key value = none)
    (key : Key) (verdict : Except ExchangeError (Option ByteArray)) (locks : KeyLocks Nat) :
    ∃ r', respond ((r.settleSync key verdict).1, { (r.settleSync key verdict).2 with locks }) =
        (syncAnswer verdict, r') ∧
      r.Stored (syncLeaves key verdict) r' ∧ r'.served = r.served.count (syncAnswer verdict) ∧
      r'.locks = locks := by
  rcases verdict with why | (_ | value)
  · exact ⟨_, rfl, .of_eq rfl rfl rfl rfl fun k => ite_self none, rfl, rfl⟩
  · exact ⟨_, rfl, .of_eq rfl rfl rfl rfl fun k => ite_self none, rfl, rfl⟩
  · rw [settleSync, putLocal_of_no_fault r key (hfault _ _ _)]
    refine ⟨_, rfl, ⟨rfl, rfl, rfl, fun k => ?_, fun location hlooked => ?_,
      fun location hspared => ?_⟩, rfl, rfl⟩
    · refine (Std.ExtTreeMap.getElem?_insert).trans ?_
      rw [syncLeaves]
      by_cases hk : k = key
      · rw [if_pos hk, if_pos (Std.LawfulEqCmp.compare_eq_iff_eq.mpr hk.symm)]
        rfl
      · rw [if_neg hk, if_neg fun heq => hk (Std.LawfulEqOrd.eq_of_compare heq).symm]
        rfl
    · obtain ⟨k, v, hk, rfl⟩ := hlooked
      rw [syncLeaves] at hk
      split at hk
      case isTrue heq =>
        rw [heq]
        exact r.tracker.mem_owned_evaluate_self r.directory key.location false
      case isFalse => cases hk
    · have hne : location ≠ key.location := fun heq =>
        hspared ⟨key, value, if_pos rfl, heq.symm⟩
      exact r.tracker.mem_owned_evaluate_of_ne r.directory key.location false hne

theorem serve_sync (hsound : r.locks.Sound task)
    (hfault : ∀ tried key value, r.store.fault tried key value = none)
    (hfree : r.locks.on key = []) (hash : Id) (timestamp : Int64) (delta : ByteArray) :
    let q : Request := .sync key hash timestamp delta
    (r.serve task q).1 = q.answer r.blockSize r.store.get? ∧ r.Serves q (r.serve task q).2 := by
  obtain ⟨locks, htaken⟩ := hsound.take hfree
  let verdict := syncVerdict (r.store.get? key) key hash delta r.blockSize
  obtain ⟨r', hrespond, hstored, hserved, -⟩ := respond_settleSync (r := { r with locks }) hfault
    key verdict (locks.release task).prune
  have hserve : r.serve task (.sync key hash timestamp delta) = (syncAnswer verdict, r') := by
    rw [← hrespond, serve, answerSync, withLock]
    simp only [htaken.now, Option.getD_some, applySync, locks_settleSync]
    rfl
  intro q
  obtain ⟨hclaims, htable, hlocks⟩ := locks_serve q hsound (List.forall_mem_singleton.mpr hfree)
  rw [hserve] at hclaims htable hlocks ⊢
  exact ⟨rfl, ⟨hstored.directory, hstored.blockSize, hstored.fault, hstored.held, hstored.looked,
    hstored.spared⟩, hserved, hclaims, htable, hlocks⟩

/-! ### All requests -/

/-- Any request is answered from what the replica holds, and leaves there what it leaves. -/
theorem serve_serves (q : Request) (hsound : r.locks.Sound task)
    (hfault : ∀ tried key value, r.store.fault tried key value = none)
    (hfree : ∀ k ∈ keysOf q, r.locks.on k = []) :
    (r.serve task q).1 = q.answer r.blockSize r.store.get? ∧ r.Serves q (r.serve task q).2 := by
  cases q with
  | info key hash timestamp => exact ⟨rfl, serves_info hash timestamp⟩
  | copy entries timestamp =>
    refine serve_copy entries timestamp hsound hfault fun k hk => hfree k ?_
    rw [keysOf, Std.ExtTreeMap.map_fst_toList_eq_keys]
    exact Std.ExtTreeMap.mem_keys.mpr hk
  | sync key hash timestamp delta =>
    exact serve_sync hsound hfault (hfree key (List.mem_singleton_self key)) hash timestamp delta

end Replica

end DeltaMesh
