import DeltaMesh.Exchange.Reconcile

/-!
# The conversation about one value, step by step

`reconcileValue` is written as a program; here it is laid out as the tree that it stands for
(`run_reconcileValue`). Each request comes with what follows upon every possible reply.
-/

namespace DeltaMesh.Exchange

/-- A request failed, and with it the conversation. -/
def failing (kind : RequestKind) (why : ReplicationError) : Exchange ValueResult :=
  .note (.requestFailed kind) (.done (.error why))

variable (t : Terms) (peer : Peer) (key : Key) (value : ByteArray)

/-- What follows upon the reply to COPY. -/
def afterCopy : Reply → Exchange ValueResult
  | .ok (.copyAck _) =>
    .note (.copied (Entries.ofPairs [(key, value)]).totalBytes) (.done (.ok (.copied value.size)))
  | .ok (.failed reason) => failing .copy (.protocol (.remote reason))
  | .ok other => .done (.error (.protocol (.unexpected .copy other)))
  | .error why => failing .copy (.network why)

/-- The value itself is sent unless it is too large. -/
def copying : Exchange ValueResult :=
  if t.limit < value.size then .done (.error (.tooLarge key value.size t.limit))
  else .ask peer (.copy (.ofPairs [(key, value)]) t.now) (afterCopy key value)

/-- What follows upon the reply to SYNC. -/
def afterSync (summary : Summary) (payload : Nat) : Reply → Exchange ValueResult
  | .ok (.syncAck ack) =>
    .note (.synced ack payload summary.bytesSaved) (.done (.ok (.synced summary ack)))
  | .ok (.failed reason) => failing .sync (.protocol (.remote reason))
  | .ok other => .done (.error (.protocol (.unexpected .sync other)))
  | .error why => failing .sync (.network why)

/-- The payload of a delta against the blocks of `signature`. -/
def deltaPayload (signature : Signature) : ByteArray :=
  Wire.encodeDelta (diff signature value t.blockSize)

/-- What the delta against the blocks of `signature` comes to. -/
def deltaSummary (signature : Signature) : Summary :=
  .ofDelta (diff signature value t.blockSize) value.size (deltaPayload t value signature).size

/-- A delta is sent unless its payload is too large. -/
def syncing (signature : Signature) : Exchange ValueResult :=
  if t.limit < (deltaPayload t value signature).size then
    .done (.error (.tooLarge key (deltaPayload t value signature).size t.limit))
  else .ask peer (.sync key (.ofContent value) t.now (deltaPayload t value signature))
    (afterSync (deltaSummary t value signature) (deltaPayload t value signature).size)

/-- The checksums of the replica's blocks are read and a delta is made. -/
def diffing (checksums : ByteArray) : Exchange ValueResult :=
  .compute (Effort.diffing ((Wire.decodeSignature checksums).toOption.getD []).length
      value.size t.blockSize)
    (match Wire.decodeSignature checksums with
    | .error why => .done (.error (.protocol (.codec why)))
    | .ok signature => syncing t peer key value signature)

/-- What follows upon the reply to INFO. -/
def afterInfo : Reply → Exchange ValueResult
  | .ok (.info .same _ _) => .note (.infoAnswered .same) (.done (.ok .upToDate))
  | .ok (.info .nothing _ _) => .note (.infoAnswered .nothing) (copying t peer key value)
  | .ok (.info .other _ none) =>
    .note (.infoAnswered .other) (.done (.error (.protocol .missingChecksums)))
  | .ok (.info .other _ (some checksums)) =>
    .note (.infoAnswered .other) (diffing t peer key value checksums)
  | .ok (.failed reason) => failing .info (.protocol (.remote reason))
  | .ok other => .done (.error (.protocol (.unexpected .info other)))
  | .error why => failing .info (.network why)

/-- A size check in front of the rest. -/
theorem run_checkSize_bind (size : Nat) (f : Unit → Attempt Outcome) :
    (checkSize t key size >>= f).run =
      if t.limit < size then .done (.error (.tooLarge key size t.limit)) else (f ()).run := by
  rw [checkSize]
  split <;> rfl

theorem run_sendCopy :
    (do checkSize t key value.size
        discard <| sendCopy t peer (.ofPairs [(key, value)])
        return .copied value.size : Attempt Outcome).run = copying t peer key value := by
  rw [run_checkSize_bind, copying]
  refine congrArg (ite _ _) (congrArg (Exchange.ask _ _) (funext fun reply => ?_))
  rcases reply with why | (_ | _ | _ | _) <;> rfl

theorem run_sendDelta (checksums : ByteArray) :
    (sendDelta t peer key value checksums).run = diffing t peer key value checksums := by
  rw [sendDelta, diffing]
  refine congrArg (Exchange.compute _) ?_
  cases Wire.decodeSignature checksums with
  | error why => rfl
  | ok signature =>
    refine (run_checkSize_bind t key _ _).trans ?_
    refine congrArg (ite _ _) (congrArg (Exchange.ask _ _) (funext fun reply => ?_))
    rcases reply with why | (_ | _ | _ | _) <;> rfl

theorem run_reconcileValue : (reconcileValue t peer key value).run =
    .ask peer (.info key (.ofContent value) t.now) (afterInfo t peer key value) := by
  refine congrArg (Exchange.ask _ _) (funext fun reply => ?_)
  rcases reply with why | (⟨(_ | _ | _), _, (_ | checksums)⟩ | _ | _ | _)
  case ok.info.nothing.none | ok.info.nothing.some =>
    exact congrArg (Exchange.note _) (run_sendCopy t peer key value)
  case ok.info.other.some =>
    exact congrArg (Exchange.note _) (run_sendDelta t peer key value checksums)
  all_goals rfl

end DeltaMesh.Exchange
