import DeltaMesh.Proofs.Replica.Commute
import DeltaMesh.Proofs.Replica.Served

/-!
# Requests that leave no trace

Requests are served one after the other, and what becomes of each (`Replica.exchanges`) is decided
by what the replica holds: the locks and the counts play no part in it (`Replica.serve_aside`). Some
requests leave nothing behind that others could notice. That is to say there is a relation between
replicas which such a request keeps on either side, and any other request on both sides, with the
same answer (`Conceals`). Two rows of requests that differ in such requests only then get the same
answers to all others, and end at related replicas (`Conceals.exchanges_eq`).
-/

namespace DeltaMesh

/-- When no task refers to a lock, the locks that a task has passed are not marked by it. -/
theorem KeyLocks.passed_eq (l : KeyLocks Nat) (hclaims : l.claims = []) (task : Nat) (key : Key) :
    l.passed task key = { l.fetch 0 key with claims := [] } := by
  cases htable : l.table[key]? with
  | none => simp [passed, fetch, htable, hclaims, acquire?, isHeld, release, leave]
  | some lock => simp [passed, fetch, htable, hclaims, acquire?, isHeld, release, leave]

namespace Replica

/-! ### Rows of requests -/

/-- The requests of a row, each with its answer. -/
def exchanges (r : Replica) (qs : List (Nat × Request)) : List ((Nat × Request) × Response) :=
  qs.zip ((r.serveAll qs).1.map Prod.snd)

section

variable (r : Replica) (q : Nat × Request) (qs front back : List (Nat × Request))

@[simp] theorem exchanges_nil : r.exchanges [] = [] := rfl

@[simp] theorem exchanges_cons :
    r.exchanges (q :: qs) = (q, (r.serve q.1 q.2).1) :: (r.serve q.1 q.2).2.exchanges qs := rfl

@[simp] theorem length_exchanges : (r.exchanges qs).length = qs.length := by
  induction qs generalizing r with
  | nil => rfl
  | cons q qs ih => rw [exchanges_cons, List.length_cons, ih, List.length_cons]

/-- A row is served in two parts. -/
theorem serveAll_append : r.serveAll (front ++ back) =
    ((r.serveAll front).1 ++ ((r.serveAll front).2.serveAll back).1,
      ((r.serveAll front).2.serveAll back).2) := by
  induction front generalizing r with
  | nil => rfl
  | cons q front ih => rw [List.cons_append, serveAll_cons, ih, serveAll_cons, List.cons_append]

theorem exchanges_append :
    r.exchanges (front ++ back) = r.exchanges front ++ (r.serveAll front).2.exchanges back := by
  induction front generalizing r with
  | nil => rfl
  | cons q front ih =>
    rw [List.cons_append, exchanges_cons, ih, exchanges_cons, serveAll_cons, List.cons_append]

/-- A request in the middle of a row is answered by the replica that has served those before it. -/
theorem getElem?_exchanges : (r.exchanges (front ++ q :: back))[front.length]? =
    some (q, ((r.serveAll front).2.serve q.1 q.2).1) := by
  rw [exchanges_append, List.getElem?_append_right (Nat.le_of_eq (length_exchanges r front)),
    length_exchanges, Nat.sub_self, exchanges_cons, List.getElem?_cons_zero]

end

/-! ### Locks and counts -/

/-- Entries are stored alike whatever the locks and the counts are. By induction on the row, since
each entry takes and gives back a lock. -/
theorem storeEntries_aside (task : Nat) (row : List (Key × ByteArray)) (r : Replica)
    (locks : KeyLocks Nat) (served : ServedTally) :
    ∃ locks', storeEntries task row { r with locks, served } = ((storeEntries task row r).1,
        { (storeEntries task row r).2 with locks := locks', served }) ∧
      (locks = r.locks → locks' = (storeEntries task row r).2.locks) := by
  induction row generalizing r locks with
  | nil => exact ⟨locks, rfl, id⟩
  | cons p row ih =>
    obtain ⟨key, value⟩ := p
    rw [storeEntries, storeEntries]
    -- both replicas have the same store, so both writes fail or none does
    cases hfault : r.store.fault r.store.tried key value with
    | some why =>
      rw [withLock_write_of_fault hfault,
        withLock_write_of_fault (r := { r with locks, served }) hfault]
      exact ⟨_, rfl, fun hlocks => hlocks ▸ rfl⟩
    | none =>
      rw [withLock_write_of_no_fault hfault,
        withLock_write_of_no_fault (r := { r with locks, served }) hfault]
      obtain ⟨locks', hstored, hlocks'⟩ := ih { r with
        store := { r.store with
          entries := r.store.entries.insert key value
          tried := r.store.tried + 1 }
        locks := r.locks.passed task key } (locks.passed task key)
      dsimp only at hstored ⊢
      rw [hstored]
      exact ⟨locks', rfl, fun hlocks => hlocks' (hlocks ▸ rfl)⟩

/-- When no task refers to a lock it makes no difference which one stores entries. -/
theorem storeEntries_task (row : List (Key × ByteArray)) {r : Replica}
    (hclaims : r.locks.claims = []) (task task' : Nat) :
    storeEntries task row r = storeEntries task' row r := by
  induction row generalizing r with
  | nil => rfl
  | cons p row ih =>
    obtain ⟨key, value⟩ := p
    rw [storeEntries, storeEntries]
    cases hfault : r.store.fault r.store.tried key value with
    | some why =>
      rw [withLock_write_of_fault hfault, withLock_write_of_fault hfault,
        r.locks.passed_eq hclaims, r.locks.passed_eq hclaims]
    | none =>
      rw [withLock_write_of_no_fault hfault, withLock_write_of_no_fault hfault,
        r.locks.passed_eq hclaims, r.locks.passed_eq hclaims]
      dsimp only
      rw [ih]
      rfl

/-- What becomes of a COPY that has stored its entries, but for what is counted. -/
theorem respond_settleCopy_aside (r : Replica) (locations : List Id)
    (failure : Option StorageError) (locks : KeyLocks Nat) (served : ServedTally) :
    let ended := r.settleCopy locations failure
    let ended' := { r with locks, served }.settleCopy locations failure
    let answered := respond (ended.1, ended.2.pruneLocks)
    respond (ended'.1, ended'.2.pruneLocks) = (answered.1, { answered.2 with
      locks := locks.prune
      served := served + { failures := if failure.isSome then 1 else 0 } }) := by
  simp only [settleCopy, foldl_notify]
  cases failure with
  | none => rfl
  | some why => rfl

/-- What becomes of a SYNC about which this was decided, but for what is counted, does not depend on
the locks. -/
theorem respond_settleSync_aside (r : Replica) (key : Key)
    (verdict : Except ExchangeError (Option ByteArray)) (locks locks' : KeyLocks Nat)
    (served : ServedTally) :
    let ended := r.settleSync key verdict
    let ended' := { r with served }.settleSync key verdict
    let answered := respond (ended.1, { ended.2 with locks })
    respond (ended'.1, { ended'.2 with locks := locks' }) = (answered.1, { answered.2 with
      locks := locks'
      served := served + .ofAnswer .sync answered.1 }) := by
  rcases verdict with why | _ | value
  · rfl
  · rfl
  · simp only [settleSync]
    cases hfault : r.store.fault r.store.tried key value with
    | some why =>
      rw [putLocal_of_fault r key hfault, putLocal_of_fault { r with served } key hfault]
      rfl
    | none =>
      rw [putLocal_of_no_fault r key hfault, putLocal_of_no_fault { r with served } key hfault]
      rfl

theorem settleSync_locks (r : Replica) (key : Key)
    (verdict : Except ExchangeError (Option ByteArray)) (locks : KeyLocks Nat) :
    { r with locks }.settleSync key verdict = ((r.settleSync key verdict).1,
      { (r.settleSync key verdict).2 with locks }) := by
  rcases verdict with why | _ | value
  · rfl
  · rfl
  · simp only [settleSync]
    cases hfault : r.store.fault r.store.tried key value with
    | some why =>
      rw [putLocal_of_fault r key hfault, putLocal_of_fault { r with locks } key hfault]
    | none =>
      rw [putLocal_of_no_fault r key hfault, putLocal_of_no_fault { r with locks } key hfault]

/-- A SYNC that is served alone holds its lock meanwhile, and the locks are the only thing that this
makes a difference to. -/
theorem serve_sync_eq (r : Replica) (task : Nat) (key : Key) (hash : Id) (timestamp : Int64)
    (delta : ByteArray) :
    let ended := r.settleSync key (syncVerdict (r.store.get? key) key hash delta r.blockSize)
    r.serve task (.sync key hash timestamp delta) = respond (ended.1,
      { ended.2 with locks := (r.locks.passed task key).prune }) := by
  simp only [serve, answerSync, withLock, applySync, settleSync_locks]
  rfl

/-- When no task refers to a lock it makes no difference which one stands for a request. -/
theorem serve_task {r : Replica} (hclaims : r.locks.claims = []) (q : Request)
    (task task' : Nat) : r.serve task q = r.serve task' q := by
  cases q with
  | info key hash timestamp => rfl
  | copy entries timestamp =>
    have hstored := storeEntries_task entries.toList (r := r.countCopy) hclaims task task'
    simp only [serve, answerCopy, hstored]
  | sync key hash timestamp delta =>
    rw [serve_sync_eq, serve_sync_eq, r.locks.passed_eq hclaims, r.locks.passed_eq hclaims]

/-- What becomes of a request that is served to its end has nothing to do with the locks and the
counts. -/
theorem serve_aside (r : Replica) (locks : KeyLocks Nat) (served : ServedTally) (task : Nat)
    (q : Request) :
    ∃ locks', { r with locks, served }.serve task q = ((r.serve task q).1,
        { (r.serve task q).2 with
          locks := locks'
          served := served + .ofAnswer q.kind (r.serve task q).1 }) ∧
      (locks = r.locks → locks' = (r.serve task q).2.locks) := by
  cases q with
  | info key hash timestamp =>
    refine ⟨locks, ?_, id⟩
    simp only [serve, answerInfo]
    cases r.store.get? key with
    | none => rfl
    | some value =>
      rw [infoAnswer]
      split <;> rfl
  | copy entries timestamp =>
    obtain ⟨locks', hstored, hlocks'⟩ := storeEntries_aside task entries.toList r.countCopy locks
      { served with copies := served.copies + 1 }
    have hcount : { r with locks, served }.countCopy = { r.countCopy with
        locks
        served := { served with copies := served.copies + 1 } } := rfl
    simp only [serve, answerCopy, hcount, hstored]
    generalize storeEntries task entries.toList r.countCopy = ended at hlocks' ⊢
    obtain ⟨⟨locations, failure⟩, r'⟩ := ended
    refine ⟨locks'.prune, ?_, fun hlocks => ?_⟩
    · simp only [respond_settleCopy_aside]
      cases failure with
      | none => rfl
      | some why => rfl
    · simp only [hlocks' hlocks, settleCopy, foldl_notify, locks_respond]
      rfl
  | sync key hash timestamp delta =>
    refine ⟨(locks.passed task key).prune, ?_, fun hlocks => ?_⟩
    · have hlocks := settleSync_locks { r with served } key
        (syncVerdict (r.store.get? key) key hash delta r.blockSize) locks
      rw [serve_sync_eq, serve_sync_eq, hlocks]
      exact respond_settleSync_aside r key _ _ _ served
    · rw [hlocks, serve_sync_eq, locks_respond]

/-- What goes with the answer is counted. -/
theorem served_serve (r : Replica) (task : Nat) (q : Request) :
    (r.serve task q).2.served = r.served + .ofAnswer q.kind (r.serve task q).1 := by
  obtain ⟨locks', hserve, -⟩ := r.serve_aside r.locks r.served task q
  exact congrArg (·.2.served) hserve

/-- A replica keeps the block size that it was made with. -/
theorem blockSize_serve (r : Replica) (task : Nat) (q : Request) :
    (r.serve task q).2.blockSize = r.blockSize := by
  have hrespond : ∀ (result : Except ExchangeError Response) (r : Replica),
      (respond (result, r)).2.blockSize = r.blockSize := fun result r => by cases result <;> rfl
  cases q with
  | info key hash timestamp => rfl
  | copy entries timestamp =>
    obtain ⟨stored, failure, tried, locks, -, hstored, -⟩ :=
      storeEntries_halts task entries.toList r.countCopy
    rw [serve, answerCopy, hstored]
    simp only [settleCopy, foldl_notify, hrespond]
    rfl
  | sync key hash timestamp delta =>
    rw [serve_sync_eq, hrespond]
    generalize syncVerdict (r.store.get? key) key hash delta r.blockSize = verdict
    rcases verdict with why | _ | value
    · rfl
    · rfl
    · simp only [settleSync]
      cases hfault : r.store.fault r.store.tried key value with
      | some why => rw [putLocal_of_fault r key hfault]
      | none => rw [putLocal_of_no_fault r key hfault]

end Replica

/-! ### Rows that differ in silent requests -/

/-- Related replicas cannot be told apart by their answers, and `Silent` requests leave nothing
behind that could be told. Of the requests with their answers only some are `Allowed`. -/
structure Conceals (Silent : Request → Prop) (Allowed : Request → Response → Prop)
    (Related : Replica → Replica → Prop) : Prop where
  symm : ∀ {r r' : Replica}, Related r r' → Related r' r
  served : ∀ {r r' : Replica} (task : Nat) (q : Request), Related r r' →
    Allowed q (r.serve task q).1 →
      (r'.serve task q).1 = (r.serve task q).1 ∧ Related (r.serve task q).2 (r'.serve task q).2
  silent : ∀ {r r' : Replica} (task : Nat) (q : Request), Related r r' → Silent q →
    Related r (r'.serve task q).2

namespace Conceals

variable {Silent : Request → Prop} {Allowed : Request → Response → Prop}
  {Related : Replica → Replica → Prop} {keep : Nat × Request → Bool} {r r' : Replica}
  {qs qs' front back : List (Nat × Request)}

/-- A row of silent requests leaves nothing behind but what may differ anyway. -/
theorem serveAll_silent (hc : Conceals Silent Allowed Related)
    (hqs : ∀ q ∈ qs', Silent q.2) (h : Related r r') : Related r (r'.serveAll qs').2 := by
  induction qs' generalizing r' with
  | nil => exact h
  | cons q qs' ih =>
    obtain ⟨hq, hrest⟩ := List.forall_mem_cons.mp hqs
    exact ih hrest (hc.silent q.1 q.2 h hq)

theorem filter_exchanges_eq_nil (hqs : ∀ q ∈ qs, ¬keep q = true) (r : Replica) :
    (r.exchanges qs).filter (fun e => keep e.1) = [] :=
  List.filter_eq_nil_iff.mpr fun e he => hqs e.1 (List.of_mem_zip he).1

theorem filter_exchanges_cons (r : Replica) (q : Nat × Request) (qs : List (Nat × Request)) :
    (r.exchanges (q :: qs)).filter (fun e => keep e.1) =
      if keep q then (q, (r.serve q.1 q.2).1) ::
        ((r.serve q.1 q.2).2.exchanges qs).filter (fun e => keep e.1)
      else ((r.serve q.1 q.2).2.exchanges qs).filter (fun e => keep e.1) :=
  List.filter_cons

/-- Two rows that differ in silent requests only get the same answers to all others. -/
theorem exchanges_eq (hc : Conceals Silent Allowed Related) (h : Related r r')
    (hqs : ∀ q ∈ qs, keep q = false → Silent q.2) (hqs' : ∀ q ∈ qs', keep q = false → Silent q.2)
    (hsame : qs'.filter keep = qs.filter keep)
    (hallowed : ∀ e ∈ r.exchanges qs, Allowed e.1.2 e.2) :
    (r'.exchanges qs').filter (fun e => keep e.1) = (r.exchanges qs).filter (fun e => keep e.1) ∧
      Related (r.serveAll qs).2 (r'.serveAll qs').2 := by
  induction qs generalizing r r' qs' with
  | nil =>
    have hnone := List.filter_eq_nil_iff.mp hsame
    refine ⟨filter_exchanges_eq_nil hnone r', hc.serveAll_silent (fun q hq => ?_) h⟩
    exact hqs' q hq (eq_false_of_ne_true (hnone q hq))
  | cons q qs ih =>
    obtain ⟨hsilent, hqs⟩ := List.forall_mem_cons.mp hqs
    rw [Replica.exchanges_cons] at hallowed
    obtain ⟨hfirst, hrest⟩ := List.forall_mem_cons.mp hallowed
    by_cases hq : keep q = true
    · -- the other row comes to the same request after some silent ones
      rw [List.filter_cons_of_pos hq] at hsame
      obtain ⟨skipped, rest, rfl, hskipped, -, hsame⟩ := List.filter_eq_cons_iff.mp hsame
      obtain ⟨hqs', hrest'⟩ := List.forall_mem_append.mp hqs'
      have hreached : Related r (r'.serveAll skipped).2 := hc.serveAll_silent
        (fun p hp => hqs' p hp (eq_false_of_ne_true (hskipped p hp))) h
      obtain ⟨hanswer, hafter⟩ := hc.served q.1 q.2 hreached hfirst
      obtain ⟨hexchanges, hend⟩ :=
        ih hafter hqs (fun p hp => hrest' p (List.mem_cons_of_mem q hp)) hsame hrest
      rw [Replica.serveAll_append, Replica.exchanges_append, List.filter_append,
        filter_exchanges_eq_nil hskipped, List.nil_append, filter_exchanges_cons,
        filter_exchanges_cons, if_pos hq, if_pos hq, hexchanges, hanswer]
      exact ⟨rfl, hend⟩
    · -- a silent request of this row, which the other one need not have
      rw [List.filter_cons_of_neg hq] at hsame
      have hafter := hc.symm (hc.silent q.1 q.2 (hc.symm h) (hsilent (eq_false_of_ne_true hq)))
      rw [filter_exchanges_cons, if_neg hq]
      exact ih hafter hqs hqs' hsame hrest

/-- Wherever one row has come to, the replica is related to one that the other row comes to. -/
theorem exists_related (hc : Conceals Silent Allowed Related) (h : Related r r')
    (hqs : ∀ q ∈ qs, keep q = false → Silent q.2)
    (hqs' : ∀ q ∈ front ++ back, keep q = false → Silent q.2)
    (hsame : (front ++ back).filter keep = qs.filter keep)
    (hallowed : ∀ e ∈ r.exchanges qs, Allowed e.1.2 e.2) :
    ∃ front', front' <+: qs ∧ Related (r.serveAll front').2 (r'.serveAll front).2 := by
  rw [List.filter_append] at hsame
  obtain ⟨front', back', rfl, hfront, -⟩ := List.filter_eq_append_iff.mp hsame.symm
  rw [Replica.exchanges_append] at hallowed
  obtain ⟨hallowed', -⟩ := List.forall_mem_append.mp hallowed
  obtain ⟨hqsFront, -⟩ := List.forall_mem_append.mp hqs
  obtain ⟨hqsFront', -⟩ := List.forall_mem_append.mp hqs'
  obtain ⟨-, hreached⟩ := hc.exchanges_eq h hqsFront hqsFront' hfront.symm hallowed'
  exact ⟨front', List.prefix_append front' back', hreached⟩

end Conceals

end DeltaMesh
