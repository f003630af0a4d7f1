import DeltaMesh.Proofs.Replica.Copy
import Mathlib.Logic.Function.Basic

/-!
# Requests served one after the other

A replica that serves nothing else answers a request after one turn or two (`Replica.turns_serve`)
and then the next one (`Replica.after`). Its writes may fail: a request that would store a value
under a key has stored it if it succeeds, and nothing at all if it fails (`Replica.Writes`).
-/

namespace DeltaMesh

namespace Store

theorem get?_insert (s : Store) (key : Key) (value : ByteArray) (tried : Nat) :
    (Store.mk (s.entries.insert key value) tried s.fault).get? =
      Function.update s.get? key (some value) := by
  funext k
  rw [Function.update_apply, Store.get?, Std.ExtTreeMap.getElem?_insert]
  refine if_congr ?_ rfl rfl
  rw [Std.LawfulEqCmp.compare_eq_iff_eq, eq_comm]

theorem get?_eq_of_entries {s s' : Store} (h : s'.entries = s.entries) : s'.get? = s.get? := by
  funext k
  rw [Store.get?, h, Store.get?]

end Store

namespace Replica

variable {r r' : Replica} {task : Nat} {key : Key} {value : ByteArray}

/-! ### Turns -/

/-- An INFO or a SYNC that has computed is answered in its next turn, by any replica, as the answer
or the value goes along with it. -/
theorem answered_of_computing {q : Request} {effort : Nat} {rest : Service}
    (hq : q.kind ≠ .copy) (h : r.turn task (.received q) = (.computing effort rest, r'))
    (later : Replica) : ∃ response ended, later.turn task rest = (.answered response, ended) := by
  have hrest :
      (∃ answer, rest = .signing answer) ∨ ∃ key verdict, rest = .rebuilding key verdict := by
    cases q with
    | info key hash timestamp =>
      rw [turn] at h
      have hstop := congrArg Prod.fst h
      dsimp only at hstop
      split at hstop
      · exact .inl ⟨_, (Service.Stop.computing.inj hstop).2.symm⟩
      · cases hstop
    | copy entries timestamp => exact absurd rfl hq
    | sync key hash timestamp delta =>
      rw [turn, turnSync] at h
      split at h
      · cases h
      · dsimp only at h
        split at h
        · cases h
        · exact .inr ⟨_, _, (Service.Stop.computing.inj (congrArg Prod.fst h)).2.symm⟩
  obtain ⟨answer, rfl⟩ | ⟨key, verdict, rfl⟩ := hrest
  · exact ⟨_, _, rfl⟩
  · exact ⟨_, _, rfl⟩

/-- A request that need not wait is answered in its first turn, or in its second one after a
computation. -/
theorem turns_serve (q : Request) (hsound : r.locks.Sound task)
    (hfree : ∀ k ∈ keysOf q, r.locks.on k = []) :
    r.turn task (.received q) = (.answered (r.serve task q).1, (r.serve task q).2) ∨
      ∃ effort rest r', r.turn task (.received q) = (.computing effort rest, r') ∧
        r'.turn task rest = (.answered (r.serve task q).1, (r.serve task q).2) := by
  by_cases hcopy : q.kind = .copy
  · cases q with
    | copy entries timestamp =>
      exact .inl (turn_copy_eq_serve entries timestamp hsound fun entry hentry =>
        hfree entry.1 (List.mem_map_of_mem hentry))
    | info | sync => cases hcopy
  · have hcompletes := completes_serve q hsound hfree
    generalize r.serve task q = ended at hcompletes ⊢
    cases hcompletes with
    | answered hturn => exact .inl hturn
    | @computing _ rest _ r' effort _ hturn hrest =>
      refine .inr ⟨effort, rest, r', hturn, ?_⟩
      obtain ⟨response, r'', hlater⟩ := answered_of_computing hcopy hturn r'
      cases hrest with
      | answered hanswered => exact hanswered
      | computing hcomputing => cases hlater.symm.trans hcomputing

/-- A replica that has served these requests, one after the other, the first one as `task`. -/
def after (r : Replica) (task : Nat) : List Request → Replica
  | [] => r
  | q :: rest => (r.serve task q).2.after (task + 1) rest

theorem after_concat (r : Replica) (task : Nat) (before : List Request) (q : Request) :
    r.after task (before ++ [q]) =
      ((r.after task before).serve (task + before.length) q).2 := by
  induction before generalizing r task with
  | nil => rfl
  | cons first before ih =>
    rw [List.cons_append, after, ih, List.length_cons, Nat.add_right_comm, Nat.add_assoc]
    rfl

/-! ### Values -/

/-- How a request ends that would store one of the values `P` under a key: with the response `done`
if it stores one, and with a failure otherwise. -/
inductive Writes (r r' : Replica) (key : Key) (P : ByteArray → Prop) (done : Response) :
    Response → Prop
  | stored {value : ByteArray} (hvalue : P value)
    (hheld : r'.store.get? = Function.update r.store.get? key (some value)) :
    Writes r r' key P done done
  | failed (reason : String) (hheld : r'.store.get? = r.store.get?) :
    Writes r r' key P done (.failed reason)

theorem Writes.imp {P P' : ByteArray → Prop} {done response : Response}
    (h : r.Writes r' key P done response) (himp : ∀ value, P value → P' value) :
    r.Writes r' key P' done response := by
  cases h with
  | stored hvalue hheld => exact .stored (himp _ hvalue) hheld
  | failed reason hheld => exact .failed reason hheld

/-- A COPY of one value that is served alone stores this value or fails, and writes nothing else. -/
theorem writes_copy (r : Replica) (task : Nat) (key : Key) (value : ByteArray)
    (timestamp : Int64) :
    let ended := r.serve task (.copy (.ofPairs [(key, value)]) timestamp)
    r.Writes ended.2 key (· = value) (.copyAck 1) ended.1 := by
  intro ended
  have houtcome : CopyOutcome r (.ofPairs [(key, value)]) ended.1 ended.2 :=
    r.copyOutcome_serve task _ timestamp
  generalize ended.1 = response, ended.2 = r' at houtcome
  cases houtcome with
  | complete haccepts hstored hserved =>
    rw [Entries.size_single]
    refine .stored rfl ?_
    have hentries := hstored.entries
    rw [Entries.toList_ofPairs_single, Std.ExtTreeMap.insertMany_cons,
      Std.ExtTreeMap.insertMany_nil] at hentries
    exact (Store.get?_eq_of_entries hentries).trans (r.store.get?_insert key value 0)
  | @failed _ stored rest k v why hentries haccepts hfault hstored hserved =>
    -- the one value is the one that could not be written
    rw [Entries.toList_ofPairs_single] at hentries
    obtain ⟨rfl, -⟩ | ⟨-, hnil⟩ := List.singleton_eq_append_iff.mp hentries
    · refine .failed _ (Store.get?_eq_of_entries (hstored.entries.trans ?_))
      exact Std.ExtTreeMap.insertMany_nil
    · cases hnil

/-- A SYNC that finds the value announced stores nothing. -/
theorem store_serve_sync (r : Replica) (task : Nat) {key : Key} {hash : Id}
    (hfound : (r.store.get? key).map Id.ofContent = some hash) (timestamp : Int64)
    (delta : ByteArray) : (r.serve task (.sync key hash timestamp delta)).2.store = r.store := by
  rw [serve, answerSync, withLock]
  simp only [applySync, syncVerdict_of_found key hfound]
  rfl

/-- A SYNC at a replica that does not hold the value announced stores that value or nothing, and
says which. -/
theorem writes_sync (r : Replica) (task : Nat) {key : Key} {hash : Id}
    (hother : (r.store.get? key).map Id.ofContent ≠ some hash) (timestamp : Int64)
    (delta : ByteArray) :
    let ended := r.serve task (.sync key hash timestamp delta)
    r.Writes ended.2 key
      (fun value => Rebuilds (r.store.get? key) delta r.blockSize value ∧ Id.ofContent value = hash)
      (.syncAck .applied) ended.1 := by
  intro ended
  -- the locks play no part in what is stored
  obtain ⟨locks, locks', result, r', houtcome, hended⟩ :
      ∃ locks locks' result r', SyncOutcome { r with locks } key hash delta result r' ∧
        ended = respond (result, { r' with locks := locks' }) :=
    ⟨_, _, _, _, applySync_outcome { r with locks := _ } key hash delta, rfl⟩
  rw [hended]
  cases houtcome with
  | @applied _ value _ hvalue hhash _ hkey hkeys _ _ =>
    refine .stored ⟨hvalue, hhash⟩ (funext fun k => ?_)
    rw [Function.update_apply]
    split
    case isTrue hk => exact hk ▸ hkey
    case isFalse hk => exact hkeys k hk
  | unchanged hheld => exact absurd hheld hother
  | failed _ hwhy hentries => exact .failed _ (Store.get?_eq_of_entries hentries)

end Replica

end DeltaMesh
