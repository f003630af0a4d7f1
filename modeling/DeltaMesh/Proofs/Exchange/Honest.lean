import DeltaMesh.Proofs.Exchange.Reconcile

/-!
# What a conversation about a value asks

A node that brings a value to a replica asks after the value, sends it, or sends a delta for it
(`Brings`), and nothing else, whatever it is answered. If the conversation ends well then the last
answer said that the replica holds the value (`Confirms`).

Main statement: this holds of the conversation of the program (`honest_reconcileValue`).
-/

namespace DeltaMesh

/-! ### Requests and answers -/

/-- A request with which a node brings `value` under `key` to a replica. A delta is one for the
value, but nothing is said about what it is to be applied to. -/
inductive Brings (key : Key) (value : ByteArray) : Request → Prop
  | info (timestamp : Int64) : Brings key value (.info key (.ofContent value) timestamp)
  | copy (timestamp : Int64) : Brings key value (.copy (.ofPairs [(key, value)]) timestamp)
  | sync (timestamp : Int64) (signature : Signature) (blockSize : Nat) :
    Brings key value (.sync key (.ofContent value) timestamp
      (Wire.encodeDelta (diff signature value blockSize)))

/-- What a SYNC that brings a value carries. -/
theorem Brings.delta_eq {key : Key} {value : ByteArray} {k : Key} {hash : Id} {timestamp : Int64}
    {delta : ByteArray} (h : Brings key value (.sync k hash timestamp delta)) :
    ∃ signature blockSize, delta = Wire.encodeDelta (diff signature value blockSize) := by
  cases h with
  | sync _ signature blockSize => exact ⟨signature, blockSize, rfl⟩

/-- The response says that the replica holds what the request brings. -/
inductive Confirms : Request → Response → Prop
  | info {key : Key} {hash : Id} {asked answered : Int64} {checksums : Option ByteArray} :
    Confirms (.info key hash asked) (.info .same answered checksums)
  | copy {entries : Entries} {timestamp : Int64} {stored : UInt32} :
    Confirms (.copy entries timestamp) (.copyAck stored)
  | sync {key : Key} {hash : Id} {timestamp : Int64} {delta : ByteArray} {ack : SyncAck} :
    Confirms (.sync key hash timestamp delta) (.syncAck ack)

/-! ### The conversation -/

/-- Whatever it is answered, the conversation about a value asks nothing but what brings the value,
and it ends well only if `confirmed` holds by then: at first what is given, later that the answer
it went on from last confirms the request. -/
def Exchange.Honest (key : Key) (value : ByteArray) :
    (confirmed : Prop) → Exchange ValueResult → Prop
  | confirmed, .done result => (∃ outcome, result = .ok outcome) → confirmed
  | confirmed, .note _ next => next.Honest key value confirmed
  | confirmed, .compute _ next => next.Honest key value confirmed
  | _, .ask _ q next => Brings key value q ∧
    ∀ reply, (next reply).Honest key value (∃ response, reply = .ok response ∧ Confirms q response)

section Honest

variable {key : Key} {value : ByteArray} {confirmed : Prop}

theorem Exchange.Honest.imp {confirmed' : Prop} (h : confirmed → confirmed')
    {x : Exchange ValueResult} (hx : x.Honest key value confirmed) :
    x.Honest key value confirmed' := by
  induction x with
  | done result => exact fun hok => h (hx hok)
  | note what next ih => exact ih hx
  | compute effort next ih => exact ih hx
  | ask peer q next => exact hx

variable (key value)

/-- A conversation that ends in a failure promises nothing. -/
theorem honest_error (why : ReplicationError) :
    (Exchange.done (.error why) : Exchange ValueResult).Honest key value confirmed := by
  rintro ⟨_, h⟩
  cases h

theorem honest_copying (t : Terms) (peer : Peer) :
    (Exchange.copying t peer key value).Honest key value confirmed := by
  rw [Exchange.copying]
  split
  case isTrue => exact honest_error key value _
  case isFalse =>
    refine ⟨.copy _, fun reply => ?_⟩
    rcases reply with why | (_ | stored | _ | _)
    case ok.copyAck => exact fun _ => ⟨_, rfl, .copy⟩
    all_goals exact honest_error key value _

theorem honest_diffing (t : Terms) (peer : Peer) (checksums : ByteArray) :
    (Exchange.diffing t peer key value checksums).Honest key value confirmed := by
  rw [Exchange.diffing]
  cases Wire.decodeSignature checksums with
  | error why => exact honest_error key value _
  | ok signature =>
    simp only [Exchange.Honest, Exchange.syncing]
    split
    case isTrue => exact honest_error key value _
    case isFalse =>
      refine ⟨.sync _ _ _, fun reply => ?_⟩
      rcases reply with why | (_ | _ | ack | _)
      case ok.syncAck => exact fun _ => ⟨_, rfl, .sync⟩
      all_goals exact honest_error key value _

theorem honest_reconcileValue (t : Terms) (peer : Peer) :
    (reconcileValue t peer key value).run.Honest key value confirmed := by
  rw [Exchange.run_reconcileValue]
  refine ⟨.info _, fun reply => ?_⟩
  rcases reply with why | (⟨(_ | _ | _), _, (_ | checksums)⟩ | _ | _ | _)
  case ok.info.same.none | ok.info.same.some => exact fun _ => ⟨_, rfl, .info⟩
  case ok.info.nothing.none | ok.info.nothing.some => exact honest_copying key value t peer
  case ok.info.other.some => exact honest_diffing key value t peer checksums
  all_goals exact honest_error key value _

end Honest

end DeltaMesh
