import DeltaMesh.Proofs.Replica.Row
import DeltaMesh.Proofs.Replica.Sync
import DeltaMesh.Proofs.Responsibility.Tracker
import DeltaMesh.Proofs.Store.Entries
import DeltaMesh.Replica.Service

/-!
# Turns of a request

What a replica does in each turn of a request that need not wait for a lock, and what it leaves
alone meanwhile (`Replica.Moves`). With nothing else under way the turns of a request add up to
`Replica.serve` (`Replica.completes_serve`).
-/

namespace DeltaMesh

namespace Replica

/-- How a replica changes while it serves requests about the keys `K`. -/
structure Moves (K : Key → Prop) (r r' : Replica) : Prop where
  directory : r'.directory = r.directory
  blockSize : r'.blockSize = r.blockSize
  fault : r'.store.fault = r.store.fault
  held : ∀ k, ¬K k → r'.store.get? k = r.store.get? k
  locks : ∀ k, ¬K k → r'.locks.on k = r.locks.on k
  /-- Nothing is announced about locations that there is nothing to announce about. -/
  tracker : (∀ k, K k → r.tracker.notify r.directory k.location = r.tracker) →
    r'.tracker = r.tracker

namespace Moves

variable {K K' : Key → Prop} {r r' r'' : Replica}

theorem refl (K : Key → Prop) (r : Replica) : Moves K r r :=
  ⟨rfl, rfl, rfl, fun _ _ => rfl, fun _ _ => rfl, fun _ => rfl⟩

theorem trans (h : Moves K r r') (h' : Moves K r' r'') : Moves K r r'' where
  directory := h'.directory.trans h.directory
  blockSize := h'.blockSize.trans h.blockSize
  fault := h'.fault.trans h.fault
  held k hk := (h'.held k hk).trans (h.held k hk)
  locks k hk := (h'.locks k hk).trans (h.locks k hk)
  tracker hquiet := by
    have htracker := h.tracker hquiet
    refine (h'.tracker fun k hk => ?_).trans htracker
    rw [htracker, h.directory]
    exact hquiet k hk

theorem mono (h : Moves K r r') (hK : ∀ k, K k → K' k) : Moves K' r r' :=
  { h with
    held := fun k hk => h.held k fun hk' => hk (hK k hk')
    locks := fun k hk => h.locks k fun hk' => hk (hK k hk')
    tracker := fun hquiet => h.tracker fun k hk => hquiet k (hK k hk) }

/-- Counting requests concerns no key. -/
theorem served (K : Key → Prop) (r : Replica) (served : ServedTally) :
    Moves K r { r with served } :=
  ⟨rfl, rfl, rfl, fun _ _ => rfl, fun _ _ => rfl, fun _ => rfl⟩

end Moves

variable {r : Replica} {task bound : Nat} {key : Key} {value : ByteArray}

/-! ### INFO -/

/-- INFO about a key without a value is answered at once. -/
theorem turn_info_nothing (task : Nat) (hheld : r.store.get? key = none) (hash : Id)
    (timestamp : Int64) :
    ∃ served, r.turn task (.received (.info key hash timestamp)) =
      (.answered (.info .nothing timestamp none), { r with served }) := by
  simp only [turn, answerInfo, infoAnswer, hheld]
  exact ⟨_, rfl⟩

/-- INFO with the hash of the stored value is answered at once. It touches nothing but the count of
requests. -/
theorem turn_info_same (task : Nat) (hheld : r.store.get? key = some value) (timestamp : Int64) :
    ∃ served, r.turn task (.received (.info key (.ofContent value) timestamp)) =
      (.answered (.info .same timestamp none), { r with served }) := by
  simp only [turn, answerInfo, infoAnswer, hheld, if_true]
  exact ⟨_, rfl⟩

/-- With another hash the signature has to be computed first. It is that of the value as it is
stored now, whatever is written meanwhile. -/
theorem turn_info_other (task : Nat) (hheld : r.store.get? key = some value) {hash : Id}
    (hhash : Id.ofContent value ≠ hash) (timestamp : Int64) :
    ∃ served, r.turn task (.received (.info key hash timestamp)) =
      (.computing (Effort.signing value.size r.blockSize) (.signing (.info .other timestamp
        (some (Wire.encodeSignature (.ofValue value r.blockSize))))), { r with served }) := by
  simp only [turn, answerInfo, infoAnswer, hheld, if_neg hhash]
  exact ⟨_, rfl⟩

/-! ### COPY -/

/-- Telling the tracker of several locations is done with the directory as it is; nothing else
changes. -/
theorem foldl_notify (locations : List Id) (r : Replica) :
    locations.foldl notify r =
      { r with tracker := r.tracker.notifyAll r.directory locations } := by
  induction locations generalizing r with
  | nil => rfl
  | cons location locations ih => exact ih (r.notify location)

theorem mem_distinctLocations {location : Id} {locations : List Id} :
    location ∈ distinctLocations locations ↔ location ∈ locations := by
  rw [distinctLocations, Std.ExtTreeSet.mem_toList, Std.ExtTreeSet.mem_ofList,
    List.contains_iff_mem]

/-- The tracker hears of the locations in their own order, not in that of the writes. -/
theorem distinctLocations_perm {locations locations' : List Id} (h : locations.Perm locations') :
    distinctLocations locations = distinctLocations locations' := by
  refine congrArg Std.ExtTreeSet.toList (Std.ExtTreeSet.ext_mem fun location => ?_)
  rw [Std.ExtTreeSet.mem_ofList, Std.ExtTreeSet.mem_ofList, List.contains_eq_mem,
    List.contains_eq_mem]
  exact decide_eq_true_iff.trans (h.mem_iff.trans decide_eq_true_iff.symm)

/-- What the end of a COPY does depends on how often each location was written to only. -/
theorem settleCopy_perm {locations locations' : List Id} (h : locations.Perm locations')
    (failure : Option StorageError) :
    r.settleCopy locations failure = r.settleCopy locations' failure := by
  simp only [settleCopy, distinctLocations_perm h, h.length_eq]

/-- As long as no one else wants the keys, a COPY stores its values in one turn, as `storeEntries`
does; if a write fails it ends there. -/
theorem turnCopy_eq (entries : List (Key × ByteArray)) (locations : List Id)
    (hsound : r.locks.Sound task) (hfree : ∀ entry ∈ entries, r.locks.on entry.1 = []) :
    turnCopy task locations entries (r.askFor task entries) =
      close ((storeEntries task entries r).2.settleCopy
        ((storeEntries task entries r).1.1.reverse ++ locations)
        (storeEntries task entries r).1.2) := by
  induction entries generalizing r locations with
  | nil => rfl
  | cons entry rest ih =>
    obtain ⟨key, value⟩ := entry
    obtain ⟨locks, htaken⟩ := hsound.take (hfree _ List.mem_cons_self)
    rw [turnCopy, askFor, storeEntries, withLock]
    simp only [htaken.inTurn, htaken.now, Option.getD_some, write, Store.put]
    cases r.store.fault r.store.tried key value with
    | some why => rfl
    | none =>
      simp only [giveBack]
      rw [ih (key.location :: locations) htaken.released fun entry hentry =>
        (htaken.alike.on_eq _).trans (hfree entry (List.mem_cons_of_mem _ hentry))]
      simp

/-- If all locks that a COPY needs are free it is done in a single turn, as if it were alone. -/
theorem turn_copy_eq_serve (entries : Entries) (timestamp : Int64) (hsound : r.locks.Sound task)
    (hfree : ∀ entry ∈ entries.toList, r.locks.on entry.1 = []) :
    r.turn task (.received (.copy entries timestamp)) =
      (.answered (r.serve task (.copy entries timestamp)).1,
        (r.serve task (.copy entries timestamp)).2) := by
  rw [turn, turnCopy_eq entries.toList [] (r := r.countCopy) hsound hfree, serve, answerCopy]
  simp only [List.append_nil, settleCopy_perm (List.reverse_perm _)]
  rfl

/-- How a replica changes by storing entries: the tracker looks once at each location that was
written to. -/
structure Stores (entries : Entries) (r r' : Replica) : Prop
    extends Moves (· ∈ entries) r r' where
  stored : ∀ (k : Key) (value : ByteArray), entries[k]? = some value →
    r'.store.get? k = some value
  freed : ∀ k, r'.locks.on k = r.locks.on k
  told : r'.tracker = r.tracker.notifyAll r.directory
    (distinctLocations (entries.toList.map (·.1.location)))

/-- As long as no write fails all values are stored. The number of writes tried so far grows
meanwhile, and the table of locks may have been pruned. -/
theorem storeEntries_eq (hsound : r.locks.Sound task)
    (hfault : ∀ tried key value, r.store.fault tried key value = none)
    (row : List (Key × ByteArray)) (hfree : ∀ p ∈ row, r.locks.on p.1 = []) :
    ∃ tried locks, storeEntries task row r = ((row.map (·.1.location), none),
        { r with store := ⟨r.store.entries.insertMany row, tried, r.store.fault⟩, locks }) ∧
      locks.Sound task ∧ r.locks.Alike locks := by
  obtain ⟨stored, failure, tried, locks, hhalts, hstore, hlocks⟩ := storeEntries_halts task row r
  cases hhalts with
  | complete => exact ⟨tried, locks, hstore, hlocks hsound hfree⟩
  | failed haccepts hwhy =>
    rw [hfault] at hwhy
    cases hwhy

/-- All values of a COPY are stored in one turn if no write fails and the locks are free. -/
theorem turn_copy (entries : Entries) (hsound : r.locks.Sound task)
    (hfault : ∀ tried key value, r.store.fault tried key value = none)
    (hfree : ∀ k ∈ entries, r.locks.on k = []) (timestamp : Int64) :
    ∃ r', r.turn task (.received (.copy entries timestamp)) =
        (.answered (.copyAck entries.size.toUInt32), r') ∧
      r.Stores entries r' ∧ r'.locks.Sound task := by
  have hkeys : ∀ p ∈ entries.toList, r.locks.on p.1 = [] := by
    rintro ⟨key, value⟩ hp
    exact hfree key (Entries.mem_of_mem_toList hp)
  obtain ⟨tried, locks, hstore, hsound', halike⟩ :=
    storeEntries_eq (r := r.countCopy) hsound hfault entries.toList hkeys
  let stored : Replica := { r.countCopy with
    store := ⟨r.store.entries.insertMany entries.toList, tried, r.store.fault⟩
    tracker := r.tracker.notifyAll r.directory
      (distinctLocations (entries.toList.map (·.1.location)))
    locks := locks.prune }
  have hmoves : r.Moves (· ∈ entries) stored := by
    refine ⟨rfl, rfl, rfl, fun k hk => ?_, fun k _ => halike.on_eq k, fun hquiet => ?_⟩
    · refine Std.ExtTreeMap.getElem?_insertMany_list_of_contains_eq_false ?_
      rw [Std.ExtTreeMap.map_fst_toList_eq_keys]
      simpa using hk
    · refine Tracker.notifyAll_of_quiet fun location hlocation => ?_
      obtain ⟨⟨key, value⟩, hp, rfl⟩ := List.mem_map.mp (mem_distinctLocations.mp hlocation)
      exact hquiet key (Entries.mem_of_mem_toList hp)
  refine ⟨stored, ?_, ⟨hmoves, fun k value hvalue => ?_, halike.on_eq, rfl⟩, hsound'.prune⟩
  · rw [turn_copy_eq_serve entries timestamp hsound hkeys, serve, answerCopy, hstore]
    simp only [settleCopy, foldl_notify, List.length_map, Std.ExtTreeMap.length_toList]
    rfl
  · exact Std.ExtTreeMap.getElem?_insertMany_list_of_mem Std.ReflOrd.compare_self
      Std.ExtTreeMap.distinct_keys_toList
      (Std.ExtTreeMap.mem_toList_iff_getElem?_eq_some.mpr hvalue)

/-- With its lock free and no write failing a COPY of one value is stored and acknowledged in one
turn. -/
theorem turn_copy_single (hsound : r.locks.Sound task) (hfree : r.locks.on key = [])
    (hfault : ∀ tried key value, r.store.fault tried key value = none) (timestamp : Int64) :
    ∃ r', r.turn task (.received (.copy (.ofPairs [(key, value)]) timestamp)) =
        (.answered (.copyAck 1), r') ∧
      r.Moves (· = key) r' ∧ r'.store.get? key = some value ∧ r'.locks.Sound task ∧
      r'.locks.on key = [] := by
  have hmem : ∀ k, k ∈ Entries.ofPairs [(key, value)] ↔ k = key := fun k =>
    Entries.mem_ofPairs.trans List.mem_singleton
  obtain ⟨r', hturn, hstores, hsound'⟩ := turn_copy (.ofPairs [(key, value)]) hsound hfault
    (fun k hk => (hmem k).mp hk ▸ hfree) timestamp
  refine ⟨r', ?_, hstores.mono fun k hk => (hmem k).mp hk, hstores.stored key value ?_, hsound',
    (hstores.freed key).trans hfree⟩
  · rw [hturn, Entries.size_single]
    rfl
  · rw [Entries.getElem?_ofPairs]
    simp

/-! ### SYNC -/

/-- A SYNC for another value than the one held takes the lock and computes. -/
theorem turn_sync (hsound : r.locks.Sound task) (hfree : r.locks.on key = []) {hash : Id}
    {delta : ByteArray} {verdict : Except ExchangeError (Option ByteArray)}
    (hverdict : syncVerdict (r.store.get? key) key hash delta r.blockSize = verdict)
    (hne : verdict ≠ .ok none) (timestamp : Int64) :
    ∃ locks lock, r.turn task (.received (.sync key hash timestamp delta)) =
        (.computing (Effort.rebuilding delta.size ((r.store.get? key).getD .empty).size)
          (.rebuilding key verdict), { r with locks }) ∧
      r.Moves (· = key) { r with locks } ∧ locks.Sound (task + 1) ∧
      locks.on key = [⟨task, key, lock, .holding⟩] := by
  obtain ⟨locks, htaken⟩ := hsound.take hfree
  obtain ⟨lock, hself⟩ := htaken.on_self
  refine ⟨locks, lock, ?_, ?_, htaken.sound, hself⟩
  · rw [turn, turnSync]
    simp only [htaken.inTurn, hverdict]
  · exact ⟨rfl, rfl, rfl, fun _ _ => rfl, htaken.on_other, fun _ => rfl⟩

section

variable {lock : Nat}

/-- When the one holder of the key's lock gives it back, no one refers to it, and the locks of the
other keys are as they were. -/
theorem locks_given_back (hsound : r.locks.Sound bound)
    (hlock : r.locks.on key = [⟨task, key, lock, .holding⟩]) :
    (r.locks.release task).prune.Sound bound ∧ (r.locks.release task).prune.on key = [] ∧
      ∀ k, k ≠ key → (r.locks.release task).prune.on k = r.locks.on k := by
  have hmem : ⟨task, key, lock, .holding⟩ ∈ r.locks.on key := hlock ▸ List.mem_singleton_self _
  refine ⟨(hsound.leave task .holding).prune, ?_, fun k hk => ?_⟩
  · exact hsound.on_release_self (c := ⟨task, key, lock, .holding⟩) hlock rfl
  · exact hsound.on_release_of_ne (List.mem_filter.mp hmem).1 rfl hk

/-- A SYNC that has computed stores its value and gives the lock back. -/
theorem turn_rebuilding (hsound : r.locks.Sound bound)
    (hlock : r.locks.on key = [⟨task, key, lock, .holding⟩])
    (hfault : r.store.fault r.store.tried key value = none) :
    ∃ r', r.turn task (.rebuilding key (.ok (some value))) =
        (.answered (.syncAck .applied), r') ∧
      r.Moves (· = key) r' ∧ r'.store.get? key = some value ∧ r'.locks.Sound bound ∧
      r'.locks.on key = [] := by
  obtain ⟨hsound', hfree, hother⟩ := locks_given_back hsound hlock
  refine ⟨_, by rw [turn, settleSync, putLocal_of_no_fault r key hfault]; rfl, ?_, ?_, hsound',
    hfree⟩
  · refine ⟨rfl, rfl, rfl, fun k hk => ?_, hother, fun hquiet => hquiet key rfl⟩
    exact (Std.ExtTreeMap.getElem?_insert).trans
      (if_neg fun heq => hk (Std.LawfulEqOrd.eq_of_compare heq).symm)
  · exact Std.ExtTreeMap.getElem?_insert_self

/-- A SYNC that could not compute its value gives the lock back. -/
theorem turn_rebuilding_failed (hsound : r.locks.Sound bound)
    (hlock : r.locks.on key = [⟨task, key, lock, .holding⟩]) (why : ExchangeError) :
    ∃ r', r.turn task (.rebuilding key (.error why)) = (.answered (.failed why.message), r') ∧
      r.Moves (· = key) r' ∧ r'.store.get? key = r.store.get? key ∧ r'.locks.Sound bound ∧
      r'.locks.on key = [] := by
  obtain ⟨hsound', hfree, hother⟩ := locks_given_back hsound hlock
  exact ⟨_, rfl, ⟨rfl, rfl, rfl, fun _ _ => rfl, hother, fun _ => rfl⟩, rfl, hsound', hfree⟩

end

/-! ### All turns together -/

/-- The turns of a request as `task`, one after the other, end with this answer and replica. -/
inductive Completes (task : Nat) : Service → Replica → Response × Replica → Prop
  | answered {service : Service} {r r' : Replica} {response : Response}
    (h : r.turn task service = (.answered response, r')) :
    Completes task service r (response, r')
  | computing {service rest : Service} {r r' : Replica} {effort : Nat} {ended : Response × Replica}
    (h : r.turn task service = (.computing effort rest, r'))
    (hrest : Completes task rest r' ended) : Completes task service r ended

/-- The turns of a request have one end, as each turn is a function of the replica. -/
theorem Completes.unique {service : Service} {ended ended' : Response × Replica}
    (h : Completes task service r ended) (h' : Completes task service r ended') :
    ended = ended' := by
  induction h with
  | answered hturn =>
    cases h' with
    | answered hturn' =>
      cases hturn.symm.trans hturn'
      rfl
    | computing hturn' => cases hturn.symm.trans hturn'
  | computing hturn _ ih =>
    cases h' with
    | answered hturn' => cases hturn.symm.trans hturn'
    | computing hturn' hrest' =>
      cases hturn.symm.trans hturn'
      exact ih hrest'

/-- The keys that a request needs the locks of. -/
def keysOf : Request → List Key
  | .info .. => []
  | .copy entries _ => entries.toList.map (·.1)
  | .sync key .. => [key]

/-- INFO comes to its end whatever else goes on: it asks for no lock. -/
theorem completes_info (hash : Id) (timestamp : Int64) :
    Completes task (.received (.info key hash timestamp)) r
      (r.serve task (.info key hash timestamp)) := by
  rw [serve]
  cases hheld : r.store.get? key with
  | none =>
    refine .answered ?_
    simp only [turn, answerInfo, infoAnswer, hheld]
  | some value =>
    by_cases hhash : Id.ofContent value = hash
    · refine .answered ?_
      simp only [turn, answerInfo, infoAnswer, hheld, if_pos hhash]
    · have hturn : r.turn task (.received (.info key hash timestamp)) =
          (.computing (Effort.signing value.size r.blockSize)
            (.signing (r.answerInfo key hash timestamp).1),
            (r.answerInfo key hash timestamp).2) := by
        simp only [turn, answerInfo, infoAnswer, hheld, if_neg hhash]
      exact .computing hturn (.answered rfl)

/-- SYNC comes to its end if its lock is free. Should it have to rebuild a value, then that takes a
second turn, which begins with the lock still held. -/
theorem completes_sync (hsound : r.locks.Sound task) (hfree : r.locks.on key = []) (hash : Id)
    (timestamp : Int64) (delta : ByteArray) :
    Completes task (.received (.sync key hash timestamp delta)) r
      (r.serve task (.sync key hash timestamp delta)) := by
  obtain ⟨locks, htaken⟩ := hsound.take hfree
  rw [serve, answerSync, withLock]
  simp only [htaken.now, Option.getD_some]
  -- the first turn goes on like one of a request that has waited
  have hfirst : ∀ ended, Completes task (.entering key hash delta)
      { r with locks := r.locks.fetch task key } ended →
        Completes task (.received (.sync key hash timestamp delta)) r ended := by
    intro ended h
    cases h with
    | answered hturn => exact .answered hturn
    | computing hturn hrest => exact .computing hturn hrest
  have hcomputing : ∀ verdict, syncVerdict (r.store.get? key) key hash delta r.blockSize = verdict →
      verdict ≠ .ok none →
        { r with locks := r.locks.fetch task key }.turn task (.entering key hash delta) =
          (.computing (Effort.rebuilding delta.size ((r.store.get? key).getD .empty).size)
            (.rebuilding key verdict), { r with locks }) := by
    intro verdict hverdict hne
    simp only [turn, turnSync, htaken.inTurn, hverdict]
  refine hfirst _ ?_
  rw [applySync]
  cases hverdict : syncVerdict (r.store.get? key) key hash delta r.blockSize with
  | error why => exact .computing (hcomputing _ hverdict (by simp)) (.answered rfl)
  | ok verdict =>
    cases verdict with
    | none =>
      refine .answered ?_
      simp only [turn, turnSync, htaken.inTurn, hverdict]
      rfl
    | some value => exact .computing (hcomputing _ hverdict (by simp)) (.answered rfl)

/-- When no one else refers to the locks that a request needs, its turns add up to
`Replica.serve`. -/
theorem completes_serve (q : Request) (hsound : r.locks.Sound task)
    (hfree : ∀ k ∈ keysOf q, r.locks.on k = []) :
    Completes task (.received q) r (r.serve task q) := by
  cases q with
  | info key hash timestamp => exact completes_info hash timestamp
  | copy entries timestamp =>
    exact .answered (turn_copy_eq_serve entries timestamp hsound fun entry hentry =>
      hfree entry.1 (List.mem_map_of_mem hentry))
  | sync key hash timestamp delta =>
    exact completes_sync hsound (hfree key (List.mem_singleton_self key)) hash timestamp delta

/-! ### Locks -/

/-- Locks that differ in what no one refers to only are pruned to the same ones. -/
theorem pruned_of_alike {locks locks' : KeyLocks Nat} (hsound : locks'.Sound task)
    (halike : locks.Alike locks') : locks'.prune.claims = locks.claims ∧
      locks'.prune.table = locks.prune.table ∧
      ∀ bound, locks.Sound bound → locks'.prune.Sound bound :=
  ⟨halike.claims, halike.pruned, fun _ h =>
    { hsound.prune with early := fun c hc => h.early c (halike.claims ▸ hc) }⟩

theorem locks_respond (result : Except ExchangeError Response) :
    (respond (result, r)).2.locks = r.locks := by
  cases result <;> rfl

theorem locks_settleSync (verdict : Except ExchangeError (Option ByteArray)) :
    (r.settleSync key verdict).2.locks = r.locks := by
  rcases verdict with why | (_ | value)
  · rfl
  · rfl
  · rw [settleSync, putLocal, write, Store.put]
    cases r.store.fault r.store.tried key value <;> rfl

/-- Once a request is answered the locks are held by those who held them before, and after a request
that writes none is left over. -/
theorem locks_serve (q : Request) (hsound : r.locks.Sound task)
    (hfree : ∀ k ∈ keysOf q, r.locks.on k = []) :
    let locks := (r.serve task q).2.locks
    locks.claims = r.locks.claims ∧
      locks.table = (if q.kind = .info then r.locks.table else r.locks.prune.table) ∧
      ∀ bound, r.locks.Sound bound → locks.Sound bound := by
  intro locks
  cases q with
  | info key hash timestamp => exact ⟨rfl, rfl, fun _ => id⟩
  | copy entries timestamp =>
    obtain ⟨stored, failure, tried, locks', -, hstore, hlocks⟩ :=
      storeEntries_halts task entries.toList r.countCopy
    obtain ⟨hsound', halike⟩ := hlocks hsound fun p hp => hfree p.1 (List.mem_map_of_mem hp)
    have hback : locks = locks'.prune := by
      simp only [locks, serve, answerCopy, hstore, settleCopy, foldl_notify, locks_respond,
        pruneLocks]
    rw [hback]
    exact pruned_of_alike hsound' halike
  | sync key hash timestamp delta =>
    obtain ⟨locks', htaken⟩ := hsound.take (hfree key (List.mem_singleton_self key))
    have hback : locks = (locks'.release task).prune := by
      simp only [locks, serve, answerSync, withLock, htaken.now, Option.getD_some, applySync,
        locks_settleSync, locks_respond, pruneLocks]
    rw [hback]
    exact pruned_of_alike htaken.released htaken.alike

end Replica

end DeltaMesh
