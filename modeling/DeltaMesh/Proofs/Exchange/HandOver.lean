import DeltaMesh.Exchange.HandOver
import DeltaMesh.Proofs.Store.Entries

/-!
# Handing a location over, request by request

The values that are handed over go out in rows, one request for each (`Exchange.rowsOf`): together
the rows are the values, in their order, no row is empty, and a row of more than one value has at
most `maxBatch` value bytes. The conversation sends the rows one after the other, up to the first
one that is not acknowledged (`Exchange.run_handOver`).
-/

namespace DeltaMesh

namespace Exchange

open Entries (bytesOf bytesOf_concat)

/-! ### Rows -/

/-- The rows in which values go out, after `row`, which waits to be sent. -/
def rowsOnto (row : List (Key × ByteArray)) :
    List (Key × ByteArray) → List (List (Key × ByteArray))
  | [] => if row.isEmpty then [] else [row]
  | (key, value) :: rest =>
    if row.isEmpty = false ∧ maxBatch < bytesOf row + value.size then
      row :: rowsOnto [(key, value)] rest
    else rowsOnto (row ++ [(key, value)]) rest

/-- The rows in which values go out. -/
def rowsOf (values : List (Key × ByteArray)) : List (List (Key × ByteArray)) := rowsOnto [] values

/-- Such a row is worth a request, and has few bytes unless it is a single value. -/
structure Sendable (row : List (Key × ByteArray)) : Prop where
  nonempty : row ≠ []
  small : bytesOf row ≤ maxBatch ∨ row.length = 1

theorem sendable_singleton (key : Key) (value : ByteArray) : Sendable [(key, value)] :=
  ⟨List.cons_ne_nil _ _, .inr rfl⟩

theorem flatten_rowsOnto (row values : List (Key × ByteArray)) :
    (rowsOnto row values).flatten = row ++ values := by
  induction values generalizing row with
  | nil =>
    rw [rowsOnto]
    split
    case isTrue h => rw [List.isEmpty_iff.mp h, List.flatten_nil, List.nil_append]
    case isFalse => rw [List.flatten_singleton, List.append_nil]
  | cons p rest ih =>
    obtain ⟨key, value⟩ := p
    rw [rowsOnto]
    split
    case isTrue => rw [List.flatten_cons, ih, List.singleton_append]
    case isFalse => rw [ih, List.append_assoc, List.singleton_append]

/-- The rows together are the values. -/
theorem flatten_rowsOf (values : List (Key × ByteArray)) : (rowsOf values).flatten = values :=
  flatten_rowsOnto [] values

theorem rowsOf_ne_nil {values : List (Key × ByteArray)} (h : values ≠ []) :
    rowsOf values ≠ [] := by
  intro hnil
  rw [← flatten_rowsOf values, hnil] at h
  exact h rfl

theorem sublist_of_mem_rowsOf {row values : List (Key × ByteArray)} (h : row ∈ rowsOf values) :
    row.Sublist values := by
  rw [← flatten_rowsOf values]
  exact List.sublist_flatten_of_mem h

theorem sendable_of_mem_rowsOnto {row values : List (Key × ByteArray)}
    (hrow : row ≠ [] → Sendable row) : ∀ r ∈ rowsOnto row values, Sendable r := by
  induction values generalizing row with
  | nil =>
    intro r hr
    rw [rowsOnto] at hr
    split at hr
    case isTrue => cases hr
    case isFalse h =>
      rw [List.mem_singleton.mp hr]
      exact hrow fun heq => h (List.isEmpty_iff.mpr heq)
  | cons p rest ih =>
    obtain ⟨key, value⟩ := p
    rw [rowsOnto]
    split
    case isTrue h =>
      refine List.forall_mem_cons.mpr ⟨hrow fun heq => ?_, ih fun _ => sendable_singleton key value⟩
      rw [heq] at h
      cases h.1
    case isFalse h =>
      refine ih fun hne => ⟨hne, ?_⟩
      rw [bytesOf_concat]
      cases hempty : row.isEmpty with
      | true =>
        rw [List.isEmpty_iff.mp hempty]
        exact .inr rfl
      | false => exact .inl (Nat.le_of_not_lt fun hlt => h ⟨hempty, hlt⟩)

theorem sendable_of_mem_rowsOf {values : List (Key × ByteArray)} :
    ∀ r ∈ rowsOf values, Sendable r :=
  sendable_of_mem_rowsOnto fun h => absurd rfl h

/-! ### The conversation -/

section

variable (t : Terms) (owner : Peer)

/-- What follows upon the reply to COPY; the conversation goes on with how many values were
stored. -/
def afterCopies {α : Type} (bytes : Nat) (goOn : Nat → Exchange (Except ReplicationError α)) :
    Reply → Exchange (Except ReplicationError α)
  | .ok (.copyAck stored) => .note (.copied bytes) (goOn stored.toNat)
  | .ok (.failed reason) =>
    .note (.requestFailed .copy) (.done (.error (.protocol (.remote reason))))
  | .ok other => .done (.error (.protocol (.unexpected .copy other)))
  | .error why => .note (.requestFailed .copy) (.done (.error (.network why)))

/-- Rows go out one after the other; `stored` values were stored before. -/
def sendingRows (stored : Nat) :
    List (List (Key × ByteArray)) → Exchange (Except ReplicationError Nat)
  | [] => .note .handedOver (.done (.ok stored))
  | row :: rows =>
    .ask owner (.copy (.ofPairs row) t.now)
      (afterCopies (Entries.ofPairs row).totalBytes fun more => sendingRows (stored + more) rows)

theorem run_sendCopy_bind {α : Type} (entries : Entries) (f : Nat → Attempt α) :
    (sendCopy t owner entries >>= f).run = .ask owner (.copy entries t.now)
      (afterCopies entries.totalBytes fun more => (f more).run) := by
  refine congrArg (Exchange.ask owner _) (funext fun reply => ?_)
  rcases reply with why | (_ | _ | _ | _) <;> rfl

section

variable (batch : Entries) (bytes stored : Nat)

/-- What is waiting is sent in the end. -/
theorem run_handOverOnto_nil : (handOverOnto t owner batch bytes stored []).run =
    if batch.isEmpty then .note .handedOver (.done (.ok stored))
    else .ask owner (.copy batch t.now) (afterCopies batch.totalBytes fun more =>
      .note .handedOver (.done (.ok (stored + more)))) := by
  rw [handOverOnto]
  cases batch.isEmpty with
  | true => rfl
  | false => exact run_sendCopy_bind t owner _ _

/-- A value is left out, waits until the others before it are sent, or joins them. -/
theorem run_handOverOnto_cons (p : Key × ByteArray) (rest : List (Key × ByteArray)) :
    (handOverOnto t owner batch bytes stored (p :: rest)).run =
      if t.limit < p.2.size then
        .note .valueSkipped (handOverOnto t owner batch bytes stored rest).run
      else if ¬batch.isEmpty ∧ maxBatch < bytes + p.2.size then
        .ask owner (.copy batch t.now) (afterCopies batch.totalBytes fun more =>
          (handOverOnto t owner (.ofPairs [p]) p.2.size (stored + more) rest).run)
      else (handOverOnto t owner (batch.insert p.1 p.2) (bytes + p.2.size) stored rest).run := by
  rw [handOverOnto]
  split
  · rfl
  · split
    · exact run_sendCopy_bind t owner _ _
    · rfl

end

theorem run_handOverOnto {values : List (Key × ByteArray)}
    (hsizes : ∀ p ∈ values, p.2.size ≤ t.limit) (row : List (Key × ByteArray)) (stored : Nat) :
    (handOverOnto t owner (.ofPairs row) (bytesOf row) stored values).run =
      sendingRows t owner stored (rowsOnto row values) := by
  induction values generalizing row stored with
  | nil =>
    rw [handOverOnto, rowsOnto, Entries.isEmpty_ofPairs]
    cases row.isEmpty with
    | true => rfl
    | false => exact run_sendCopy_bind t owner _ _
  | cons p rest ih =>
    obtain ⟨key, value⟩ := p
    obtain ⟨hsize, hrest⟩ := List.forall_mem_cons.mp hsizes
    rw [handOverOnto, if_neg (Nat.not_lt.mpr hsize), rowsOnto, Entries.isEmpty_ofPairs]
    split
    case isTrue h =>
      rw [if_pos (by simpa using h), run_sendCopy_bind, sendingRows]
      refine congrArg (fun goOn => Exchange.ask owner _ (afterCopies _ goOn))
        (funext fun more => ?_)
      exact ih hrest [(key, value)] (stored + more)
    case isFalse h =>
      rw [if_neg (by simpa using h), ← Entries.ofPairs_concat, ← bytesOf_concat]
      exact ih hrest (row ++ [(key, value)]) stored

/-- A hand-over of values that requests can carry sends their rows. -/
theorem run_handOver {values : List (Key × ByteArray)}
    (hsizes : ∀ p ∈ values, p.2.size ≤ t.limit) :
    (handOver t owner values).run = sendingRows t owner 0 (rowsOf values) :=
  run_handOverOnto t owner hsizes [] 0

end

end Exchange

end DeltaMesh
