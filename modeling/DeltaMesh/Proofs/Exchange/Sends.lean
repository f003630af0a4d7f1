import DeltaMesh.Proofs.Exchange.HandOver
import DeltaMesh.Proofs.Exchange.Reconcile

/-!
# What conversations send

Whatever is answered, the requests of a conversation are about its own values. To bring values to a
replica the conversation asks about each, sends it alone if it is within the limit, or sends its
delta against some signature if that is within the limit (`Exchange.sends_reconcileReplica`). A
hand-over sends the rows of its values, and can come to send each of them
(`Exchange.sends_handOver_iff`).
-/

namespace DeltaMesh

namespace Exchange

variable {α β : Type} {P P' : Request → Prop}

/-- Whatever is answered, only requests like these are sent. -/
def Sends (P : Request → Prop) : Exchange α → Prop
  | .done _ => True
  | .ask _ q next => P q ∧ ∀ reply, (next reply).Sends P
  | .note _ next => next.Sends P
  | .compute _ next => next.Sends P

theorem Sends.andThen {x : Exchange α} (hx : x.Sends P) {f : α → Exchange β}
    (hf : ∀ a, (f a).Sends P) : (x.andThen f).Sends P := by
  induction x with
  | done result => exact hf result
  | ask peer q next ih => exact ⟨hx.1, fun reply => ih reply (hx.2 reply)⟩
  | note what next ih => exact ih hx
  | compute effort next ih => exact ih hx

/-! ### Bringing values to a replica -/

section

variable (t : Terms) (peer : Peer) {key : Key} {value : ByteArray}

/-- The requests in which a value is brought to a replica. -/
structure Covers (P : Request → Prop) (t : Terms) (key : Key) (value : ByteArray) : Prop where
  info : P (.info key (.ofContent value) t.now)
  copy : value.size ≤ t.limit → P (.copy (.ofPairs [(key, value)]) t.now)
  sync : ∀ signature, (deltaPayload t value signature).size ≤ t.limit →
    P (.sync key (.ofContent value) t.now (deltaPayload t value signature))

theorem sends_copying (h : Covers P t key value) : (copying t peer key value).Sends P := by
  rw [copying]
  split
  case isTrue => exact trivial
  case isFalse hsmall =>
    refine ⟨h.copy (Nat.le_of_not_lt hsmall), fun reply => ?_⟩
    rcases reply with why | (_ | _ | _ | _) <;> exact trivial

theorem sends_diffing (h : Covers P t key value) (checksums : ByteArray) :
    (diffing t peer key value checksums).Sends P := by
  rw [diffing, Sends]
  cases Wire.decodeSignature checksums with
  | error why => exact trivial
  | ok signature =>
    simp only [syncing]
    split
    case isTrue => exact trivial
    case isFalse hsmall =>
      refine ⟨h.sync signature (Nat.le_of_not_lt hsmall), fun reply => ?_⟩
      rcases reply with why | (_ | _ | _ | _) <;> exact trivial

theorem sends_reconcileValue (h : Covers P t key value) :
    (reconcileValue t peer key value).run.Sends P := by
  rw [run_reconcileValue]
  refine ⟨h.info, fun reply => ?_⟩
  rcases reply with why | (⟨(_ | _ | _), _, (_ | checksums)⟩ | _ | _ | _)
  case ok.info.nothing.none | ok.info.nothing.some => exact sends_copying t peer h
  case ok.info.other.some => exact sends_diffing t peer h checksums
  all_goals exact trivial

theorem sends_reconcileReplica {values : List (Key × ByteArray)}
    (h : ∀ p ∈ values, Covers P t p.1 p.2) : (reconcileReplica t peer values).Sends P := by
  suffices ∀ results, (reconcileOnto t peer results values).Sends P from this []
  induction values with
  | nil => exact fun _ => trivial
  | cons p values ih =>
    obtain ⟨hfirst, hrest⟩ := List.forall_mem_cons.mp h
    intro results
    exact (sends_reconcileValue t peer hfirst).andThen fun result => ih hrest (result :: results)

end

/-! ### Handing a location over -/

section

variable (t : Terms) (owner : Peer)

theorem sends_sendingRows_iff (rows : List (List (Key × ByteArray))) (stored : Nat) :
    (sendingRows t owner stored rows).Sends P ↔ ∀ row ∈ rows, P (.copy (.ofPairs row) t.now) := by
  induction rows generalizing stored with
  | nil => exact ⟨fun _ _ h => (nomatch h), fun _ => trivial⟩
  | cons row rows ih =>
    rw [List.forall_mem_cons]
    refine and_congr_right fun _ => ⟨fun h => ?_, fun h reply => ?_⟩
    -- the rest is sent if the first row is acknowledged
    · exact (ih (stored + 0)).mp (h (.ok (.copyAck 0)))
    · rcases reply with why | (_ | more | _ | _)
      case ok.copyAck => exact (ih (stored + more.toNat)).mpr h
      all_goals exact trivial

/-- However many bytes the values have, the requests of a hand-over have no more values than there
are, and none that is too large. -/
theorem sends_handOver {values : List (Key × ByteArray)}
    (h : ∀ batch : Entries, batch.size ≤ values.length → (∀ p ∈ batch.toList, p.2.size ≤ t.limit) →
      P (.copy batch t.now)) : (handOver t owner values).run.Sends P := by
  have hafter : ∀ (batch : Entries) (goOn : Nat → Exchange (Except ReplicationError Nat)),
      P (.copy batch t.now) → (∀ more, (goOn more).Sends P) →
        (Exchange.ask owner (.copy batch t.now) (afterCopies batch.totalBytes goOn)).Sends P := by
    refine fun batch goOn hbatch hgoOn => ⟨hbatch, fun reply => ?_⟩
    rcases reply with why | (_ | more | _ | _)
    case ok.copyAck => exact hgoOn more.toNat
    all_goals exact trivial
  -- what waits to be sent and what is to come are at most all values
  suffices ∀ (rest : List (Key × ByteArray)) (batch : Entries) (bytes stored : Nat),
      batch.size + rest.length ≤ values.length → (∀ p ∈ batch.toList, p.2.size ≤ t.limit) →
        (handOverOnto t owner batch bytes stored rest).run.Sends P by
    refine this values ∅ 0 0 (Nat.le_of_eq ?_) fun p hp => ?_
    · rw [Std.ExtTreeMap.size_empty, Nat.zero_add]
    · rw [Std.ExtTreeMap.mem_toList_iff_getElem?_eq_some, Std.ExtTreeMap.getElem?_empty] at hp
      cases hp
  intro rest
  induction rest with
  | nil =>
    intro batch bytes stored hcount hsizes
    rw [run_handOverOnto_nil]
    split
    case isTrue => exact trivial
    case isFalse => exact hafter batch _ (h batch hcount hsizes) fun _ => trivial
  | cons p rest ih =>
    intro batch bytes stored hcount hsizes
    rw [List.length_cons] at hcount
    rw [run_handOverOnto_cons]
    split
    case isTrue => exact ih batch bytes stored (by omega) hsizes
    case isFalse hsmall =>
      split
      case isTrue =>
        refine hafter batch _ (h batch (by omega) hsizes) fun more => ?_
        refine ih (.ofPairs [p]) _ _ ?_ fun p' hp' => ?_
        · rw [Entries.size_single]
          omega
        · rw [Entries.toList_ofPairs_single, List.mem_singleton] at hp'
          exact hp' ▸ Nat.le_of_not_lt hsmall
      case isFalse =>
        refine ih (batch.insert p.1 p.2) _ _ ?_ fun p' hp' => ?_
        · have hinsert := Std.ExtTreeMap.size_insert_le (t := batch) (k := p.1) (v := p.2)
          omega
        · rw [Std.ExtTreeMap.mem_toList_iff_getElem?_eq_some, Std.ExtTreeMap.getElem?_insert] at hp'
          split at hp'
          case isTrue => exact Option.some.inj hp' ▸ Nat.le_of_not_lt hsmall
          case isFalse => exact hsizes p' (Std.ExtTreeMap.mem_toList_iff_getElem?_eq_some.mpr hp')

theorem sends_handOver_iff {values : List (Key × ByteArray)}
    (hsizes : ∀ p ∈ values, p.2.size ≤ t.limit) :
    (handOver t owner values).run.Sends P ↔
      ∀ row ∈ rowsOf values, P (.copy (.ofPairs row) t.now) := by
  rw [run_handOver t owner hsizes, sends_sendingRows_iff]

end

end Exchange

end DeltaMesh
