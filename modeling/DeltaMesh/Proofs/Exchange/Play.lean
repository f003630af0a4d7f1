import DeltaMesh.Proofs.Exchange.Sends
import DeltaMesh.Proofs.Replica.Shelf
import DeltaMesh.Reconciler.Basic
import Mathlib.Algebra.Group.Defs

/-!
# What a conversation comes to

A conversation asks one peer about one location. Once it is settled how that peer meets requests,
the conversation has one course only: a result, what the peer has of the location in the end, and
what the asking node counts meanwhile (`Exchange.play`). Of the values that are brought to a replica
each has one result (`Exchange.length_play_reconcileReplica`). If no request comes through, each of
them fails, and the peer keeps what it has (`Exchange.play_reconcileReplica_of_gone`).
-/

namespace DeltaMesh

/-! ### Counts -/

namespace SentTally

instance : Zero SentTally := ⟨{}⟩

instance : Add SentTally where
  add t u :=
    ⟨t.infos + u.infos, t.copies + u.copies, t.syncs + u.syncs, t.upToDate + u.upToDate,
      t.failures + u.failures, t.bytesSent + u.bytesSent, t.bytesSaved + u.bytesSaved,
      t.pushes + u.pushes⟩

theorem zero_eq : (0 : SentTally) = {} := rfl

theorem add_eq (t u : SentTally) : t + u =
    ⟨t.infos + u.infos, t.copies + u.copies, t.syncs + u.syncs, t.upToDate + u.upToDate,
      t.failures + u.failures, t.bytesSent + u.bytesSent, t.bytesSaved + u.bytesSaved,
      t.pushes + u.pushes⟩ := rfl

instance : AddCommMonoid SentTally where
  add_assoc t u v := by simp only [add_eq, Nat.add_assoc]
  zero_add t := by simp only [add_eq, zero_eq, Nat.zero_add]
  add_zero t := by simp only [add_eq, zero_eq, Nat.add_zero]
  add_comm t u := by simp only [add_eq, Nat.add_comm]
  nsmul := nsmulRec

/-- What is counted does not depend on what was counted before. -/
theorem record_eq_add (t : SentTally) (what : Note) : t.record what = t + record 0 what := by
  rcases what with (_ | _ | _) | _ | _ | _ | _ | _ | _ | _ <;>
    simp only [record, add_eq, zero_eq, Nat.zero_add, Nat.add_zero]

end SentTally

/-- What a conversation comes to. -/
structure Ending (α : Type) where
  result : α
  /-- What the peer has of the location then. -/
  shelf : Shelf
  /-- What the asking node has counted. -/
  sent : SentTally

namespace Exchange

variable {α β : Type}

/-- What a conversation comes to with a peer that meets requests like this: a reply, and what the
peer has afterwards. -/
def play (meet : Request → Shelf → Reply × Shelf) : Exchange α → Shelf → Ending α
  | done result, s => ⟨result, s, 0⟩
  | ask _ q next, s => (next (meet q s).1).play meet (meet q s).2
  | note what next, s =>
    let ending := next.play meet s
    { ending with sent := SentTally.record 0 what + ending.sent }
  | compute _ next, s => next.play meet s

variable {meet : Request → Shelf → Reply × Shelf}

theorem play_andThen (x : Exchange α) (f : α → Exchange β) (s : Shelf) :
    (x.andThen f).play meet s =
      { (f (x.play meet s).result).play meet (x.play meet s).shelf with
        sent := (x.play meet s).sent +
          ((f (x.play meet s).result).play meet (x.play meet s).shelf).sent } := by
  induction x generalizing s with
  | done result => simp only [andThen, play, zero_add]
  | ask peer q next ih => exact ih _ _
  | note what next ih => simp only [andThen, play, ih, add_assoc]
  | compute effort next ih => exact ih s

/-! ### Whom a conversation asks -/

/-- All requests go to one peer. -/
def Asks (peer : Peer) : Exchange α → Prop
  | done _ => True
  | ask p _ next => p = peer ∧ ∀ reply, (next reply).Asks peer
  | note _ next => next.Asks peer
  | compute _ next => next.Asks peer

theorem Asks.andThen {peer : Peer} {x : Exchange α} (hx : x.Asks peer) {f : α → Exchange β}
    (hf : ∀ a, (f a).Asks peer) : (x.andThen f).Asks peer := by
  induction x with
  | done result => exact hf result
  | ask p q next ih => exact ⟨hx.1, fun reply => ih reply (hx.2 reply)⟩
  | note what next ih => exact ih hx
  | compute effort next ih => exact ih hx

section

variable (t : Terms) (peer : Peer) (key : Key) (value : ByteArray)

theorem asks_copying : (copying t peer key value).Asks peer := by
  rw [copying]
  split
  case isTrue => exact trivial
  case isFalse =>
    refine ⟨rfl, fun reply => ?_⟩
    rcases reply with why | (_ | _ | _ | _) <;> exact trivial

theorem asks_diffing (checksums : ByteArray) :
    (diffing t peer key value checksums).Asks peer := by
  rw [diffing, Asks]
  cases Wire.decodeSignature checksums with
  | error why => exact trivial
  | ok signature =>
    simp only [syncing]
    split
    case isTrue => exact trivial
    case isFalse =>
      refine ⟨rfl, fun reply => ?_⟩
      rcases reply with why | (_ | _ | _ | _) <;> exact trivial

theorem asks_reconcileValue : (reconcileValue t peer key value).run.Asks peer := by
  rw [run_reconcileValue]
  refine ⟨rfl, fun reply => ?_⟩
  rcases reply with why | (⟨(_ | _ | _), _, (_ | checksums)⟩ | _ | _ | _)
  case ok.info.nothing.none | ok.info.nothing.some => exact asks_copying t peer key value
  case ok.info.other.some => exact asks_diffing t peer key value checksums
  all_goals exact trivial

theorem asks_reconcileReplica (values : List (Key × ByteArray)) :
    (reconcileReplica t peer values).Asks peer := by
  suffices ∀ results, (reconcileOnto t peer results values).Asks peer from this []
  induction values with
  | nil => exact fun _ => trivial
  | cons p values ih =>
    intro results
    exact (asks_reconcileValue t peer p.1 p.2).andThen fun result => ih (result :: results)

end

/-! ### Bringing values to a replica -/

section

variable (t : Terms) (peer : Peer) (values : List (Key × ByteArray)) (s : Shelf)

/-- Every value has one result. -/
theorem length_play_reconcileReplica :
    ((reconcileReplica t peer values).play meet s).result.length = values.length := by
  suffices ∀ results s, ((reconcileOnto t peer results values).play meet s).result.length =
      results.length + values.length from (this [] s).trans (Nat.zero_add _)
  induction values with
  | nil => exact fun results s => List.length_reverse
  | cons p values ih =>
    intro results s
    rw [reconcileOnto, play_andThen]
    exact (ih _ _).trans (by rw [List.length_cons, List.length_cons]; omega)

/-- If no request comes through, no value does, and nothing changes at the peer. Each value is tried
nevertheless, and fails for the same reason. -/
theorem play_reconcileReplica_of_gone {why : NetworkError} (h : ∀ q s, meet q s = (.error why, s)) :
    ((reconcileReplica t peer values).play meet s).result =
        values.map (fun _ => .error (.network why)) ∧
      ((reconcileReplica t peer values).play meet s).shelf = s := by
  suffices ∀ results, ((reconcileOnto t peer results values).play meet s).result =
        results.reverse ++ values.map (fun _ => .error (.network why)) ∧
      ((reconcileOnto t peer results values).play meet s).shelf = s from this []
  induction values with
  | nil => exact fun results => ⟨(List.append_nil _).symm, rfl⟩
  | cons p values ih =>
    intro results
    have hvalue : (reconcileValue t peer p.1 p.2).run.play meet s =
        ⟨.error (.network why), s, SentTally.record 0 (.requestFailed .info) + 0⟩ := by
      rw [run_reconcileValue, play, h]
      rfl
    rw [reconcileOnto, play_andThen, hvalue]
    obtain ⟨hresult, hshelf⟩ := ih (.error (.network why) :: results)
    refine ⟨hresult.trans ?_, hshelf⟩
    rw [List.reverse_cons, List.append_assoc, List.map_cons]
    rfl

end

end Exchange

end DeltaMesh
