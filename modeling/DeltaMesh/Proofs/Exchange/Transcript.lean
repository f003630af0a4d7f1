import DeltaMesh.Proofs.Exchange.Play
import DeltaMesh.Proofs.Replica.Served

/-!
# What conversations say to anyone

Whoever answers, and however the answers depend on what was asked before (`Transport`), a
conversation takes one course: its transcript (`Exchange.transcript`). The conversation about one
value has ten courses (`ValueCourse`), and each of them keeps to the protocol (`FollowsProtocol`):
the value is asked about once, at most one request follows, which depends on the answer, and the
result says how the last request was met.

Main statements: `Exchange.valueCourse_transcript` and `ValueCourse.followsProtocol`.
-/

namespace DeltaMesh

/-- What comes back for a request may depend in any way on the requests so far; the last one is that
request. -/
abbrev Transport := List (Peer × Request) → Reply

/-- A request, and what came back for it. -/
structure Inquiry where
  peer : Peer
  request : Request
  reply : Reply

/-- How a conversation went. -/
structure Transcript (α : Type) where
  result : α
  /-- The requests in order. -/
  asked : List Inquiry
  /-- What the asking node has counted. -/
  sent : SentTally

namespace Exchange

variable {α : Type}

/-- How a conversation goes after the requests `before`. -/
def transcript (transport : Transport) :
    Exchange α → (before : List (Peer × Request)) → Transcript α
  | done result, _ => ⟨result, [], 0⟩
  | ask peer q next, before =>
    let reply := transport (before ++ [(peer, q)])
    let rest := (next reply).transcript transport (before ++ [(peer, q)])
    { rest with asked := ⟨peer, q, reply⟩ :: rest.asked }
  | note what next, before =>
    let rest := next.transcript transport before
    { rest with sent := SentTally.record 0 what + rest.sent }
  | compute _ next, before => next.transcript transport before

end Exchange

/-! ### Why a conversation fails -/

/-- A reply of no use to the one who has sent a request of this kind, and what is said of it. -/
inductive Unmet (kind : RequestKind) : Reply → ReplicationError → Prop
  /-- The replica reports a failure. -/
  | remote (reason : String) : Unmet kind (.ok (.failed reason)) (.protocol (.remote reason))
  /-- The response belongs to another kind of request. -/
  | unexpected {response : Response} (h : ¬response.Suits kind) :
    Unmet kind (.ok response) (.protocol (.unexpected kind response))
  | network (why : NetworkError) : Unmet kind (.error why) (.network why)

/-! ### The conversation about one value -/

section

variable (t : Terms) (peer : Peer) (key : Key) (value : ByteArray)

/-- The request that asks about the value, and what came back. -/
def Inquiry.info (reply : Reply) : Inquiry :=
  ⟨peer, .info key (.ofContent value) t.now, reply⟩

/-- The request that sends the value alone, and what came back. -/
def Inquiry.copy (reply : Reply) : Inquiry := ⟨peer, .copy (.ofPairs [(key, value)]) t.now, reply⟩

/-- The request that sends the delta against the blocks of `signature`, and what came back. -/
def Inquiry.sync (signature : Signature) (reply : Reply) : Inquiry :=
  ⟨peer, .sync key (.ofContent value) t.now
    (Wire.encodeDelta (diff signature value t.blockSize)), reply⟩

/-- The courses that the conversation about a value can take: what is asked and answered, and what
the result is. -/
inductive ValueCourse : List Inquiry → ValueResult → Prop
  | unmet {reply : Reply} {why : ReplicationError} (h : Unmet .info reply why) :
    ValueCourse [.info t peer key value reply] (.error why)
  | upToDate (stamp : Int64) (checksums? : Option ByteArray) :
    ValueCourse [.info t peer key value (.ok (.info .same stamp checksums?))] (.ok .upToDate)
  | tooLarge (stamp : Int64) (checksums? : Option ByteArray) (hlarge : t.limit < value.size) :
    ValueCourse [.info t peer key value (.ok (.info .nothing stamp checksums?))]
      (.error (.tooLarge key value.size t.limit))
  | copied (stamp : Int64) (checksums? : Option ByteArray) (hsmall : value.size ≤ t.limit)
    (stored : UInt32) :
    ValueCourse [.info t peer key value (.ok (.info .nothing stamp checksums?)),
      .copy t peer key value (.ok (.copyAck stored))] (.ok (.copied value.size))
  | copyUnmet (stamp : Int64) (checksums? : Option ByteArray) (hsmall : value.size ≤ t.limit)
    {reply : Reply} {why : ReplicationError} (h : Unmet .copy reply why) :
    ValueCourse [.info t peer key value (.ok (.info .nothing stamp checksums?)),
      .copy t peer key value reply] (.error why)
  | missingChecksums (stamp : Int64) :
    ValueCourse [.info t peer key value (.ok (.info .other stamp none))]
      (.error (.protocol .missingChecksums))
  | malformedChecksums (stamp : Int64) {checksums : ByteArray} {why : Wire.CodecError}
    (hread : Wire.decodeSignature checksums = .error why) :
    ValueCourse [.info t peer key value (.ok (.info .other stamp (some checksums)))]
      (.error (.protocol (.codec why)))
  | deltaTooLarge (stamp : Int64) {checksums : ByteArray} {signature : Signature}
    (hread : Wire.decodeSignature checksums = .ok signature)
    (hlarge : t.limit < (Exchange.deltaPayload t value signature).size) :
    ValueCourse [.info t peer key value (.ok (.info .other stamp (some checksums)))]
      (.error (.tooLarge key (Exchange.deltaPayload t value signature).size t.limit))
  | synced (stamp : Int64) {checksums : ByteArray} {signature : Signature}
    (hread : Wire.decodeSignature checksums = .ok signature)
    (hsmall : (Exchange.deltaPayload t value signature).size ≤ t.limit) (ack : SyncAck) :
    ValueCourse [.info t peer key value (.ok (.info .other stamp (some checksums))),
      .sync t peer key value signature (.ok (.syncAck ack))]
      (.ok (.synced (Exchange.deltaSummary t value signature) ack))
  | syncUnmet (stamp : Int64) {checksums : ByteArray} {signature : Signature}
    (hread : Wire.decodeSignature checksums = .ok signature)
    (hsmall : (Exchange.deltaPayload t value signature).size ≤ t.limit) {reply : Reply}
    {why : ReplicationError} (h : Unmet .sync reply why) :
    ValueCourse [.info t peer key value (.ok (.info .other stamp (some checksums))),
      .sync t peer key value signature reply] (.error why)

variable (transport : Transport) (before : List (Peer × Request))

namespace Exchange

theorem valueCourse_copying (stamp : Int64) (checksums? : Option ByteArray) :
    let rest := (copying t peer key value).transcript transport before
    ValueCourse t peer key value
      (.info t peer key value (.ok (.info .nothing stamp checksums?)) :: rest.asked)
      rest.result := by
  rw [copying]
  split
  case isTrue hlarge => exact .tooLarge stamp checksums? hlarge
  case isFalse hlarge =>
    have hsmall := Nat.le_of_not_lt hlarge
    simp only [transcript]
    generalize transport (before ++ [(peer, .copy (.ofPairs [(key, value)]) t.now)]) = reply
    rcases reply with why | (_ | stored | _ | reason)
    · exact .copyUnmet stamp checksums? hsmall (.network why)
    · exact .copyUnmet stamp checksums? hsmall (.unexpected (by rintro ⟨⟩))
    · exact .copied stamp checksums? hsmall stored
    · exact .copyUnmet stamp checksums? hsmall (.unexpected (by rintro ⟨⟩))
    · exact .copyUnmet stamp checksums? hsmall (.remote reason)

theorem valueCourse_diffing (stamp : Int64) (checksums : ByteArray) :
    let rest := (diffing t peer key value checksums).transcript transport before
    ValueCourse t peer key value
      (.info t peer key value (.ok (.info .other stamp (some checksums))) :: rest.asked)
      rest.result := by
  rw [diffing, transcript]
  cases hread : Wire.decodeSignature checksums with
  | error why => exact .malformedChecksums stamp hread
  | ok signature =>
    simp only [syncing]
    split
    case isTrue hlarge => exact .deltaTooLarge stamp hread hlarge
    case isFalse hlarge =>
      have hsmall := Nat.le_of_not_lt hlarge
      simp only [transcript]
      generalize transport (before ++
        [(peer, .sync key (.ofContent value) t.now (deltaPayload t value signature))]) = reply
      rcases reply with why | (_ | _ | ack | reason)
      · exact .syncUnmet stamp hread hsmall (.network why)
      · exact .syncUnmet stamp hread hsmall (.unexpected (by rintro ⟨⟩))
      · exact .syncUnmet stamp hread hsmall (.unexpected (by rintro ⟨⟩))
      · exact .synced stamp hread hsmall ack
      · exact .syncUnmet stamp hread hsmall (.remote reason)

/-- Whatever comes back, the conversation about a value takes one of its courses. The answer to INFO
decides which. -/
theorem valueCourse_transcript :
    let record := (reconcileValue t peer key value).run.transcript transport before
    ValueCourse t peer key value record.asked record.result := by
  rw [run_reconcileValue]
  simp only [transcript]
  generalize transport (before ++ [(peer, .info key (.ofContent value) t.now)]) = reply
  rcases reply with why | (⟨(_ | _ | _), stamp, (_ | checksums)⟩ | _ | _ | reason)
  case error => exact .unmet (.network why)
  case ok.info.same.none | ok.info.same.some => exact .upToDate stamp _
  case ok.info.nothing.none | ok.info.nothing.some =>
    exact valueCourse_copying t peer key value transport _ stamp _
  case ok.info.other.none => exact .missingChecksums stamp
  case ok.info.other.some => exact valueCourse_diffing t peer key value transport _ stamp checksums
  case ok.copyAck | ok.syncAck => exact .unmet (.unexpected nofun)
  case ok.failed => exact .unmet (.remote reason)

end Exchange

/-! ### The protocol -/

/-- Why the conversation about a value comes to nothing after an inquiry. -/
inductive Blames : Inquiry → ReplicationError → Prop
  | unmet {q : Inquiry} {why : ReplicationError} (h : Unmet q.request.kind q.reply why) :
    Blames q why
  /-- The replica holds nothing, and the value is too large to be sent. -/
  | tooLarge {stamp : Int64} {checksums? : Option ByteArray} (hlarge : t.limit < value.size) :
    Blames (.info t peer key value (.ok (.info .nothing stamp checksums?)))
      (.tooLarge key value.size t.limit)
  | missingChecksums {stamp : Int64} :
    Blames (.info t peer key value (.ok (.info .other stamp none))) (.protocol .missingChecksums)
  | malformedChecksums {stamp : Int64} {checksums : ByteArray} {why : Wire.CodecError}
    (hread : Wire.decodeSignature checksums = .error why) :
    Blames (.info t peer key value (.ok (.info .other stamp (some checksums))))
      (.protocol (.codec why))
  /-- The delta is too large to be sent. -/
  | deltaTooLarge {stamp : Int64} {checksums : ByteArray} {signature : Signature}
    (hread : Wire.decodeSignature checksums = .ok signature)
    (hlarge : t.limit < (Wire.encodeDelta (diff signature value t.blockSize)).size) :
    Blames (.info t peer key value (.ok (.info .other stamp (some checksums))))
      (.tooLarge key (Wire.encodeDelta (diff signature value t.blockSize)).size t.limit)

/-- What may be sent once the question about a value was answered: the value itself if the replica
holds nothing, and a delta if it holds another value; neither is larger than the limit. -/
inductive Sequel : Reply → Inquiry → Prop
  | copy {stamp : Int64} {checksums? : Option ByteArray} (hsmall : value.size ≤ t.limit)
    (reply : Reply) :
    Sequel (.ok (.info .nothing stamp checksums?)) (.copy t peer key value reply)
  | sync {stamp : Int64} {checksums : ByteArray} {signature : Signature}
    (hread : Wire.decodeSignature checksums = .ok signature)
    (hsmall : (Wire.encodeDelta (diff signature value t.blockSize)).size ≤ t.limit)
    (reply : Reply) :
    Sequel (.ok (.info .other stamp (some checksums))) (.sync t peer key value signature reply)

/-- The inquiries of a conversation about a value are those of the protocol, and its result says how
the last one was met. -/
structure FollowsProtocol (asked : List Inquiry) (result : ValueResult) : Prop where
  /-- The value is asked about once, and at most one request follows. -/
  requests : ∃ reply, asked = [.info t peer key value reply] ∨
    ∃ q, asked = [.info t peer key value reply, q] ∧ Sequel t peer key value reply q
  upToDate : result = .ok .upToDate ↔ ∃ stamp checksums?,
    asked.getLast? = some (.info t peer key value (.ok (.info .same stamp checksums?)))
  copied : ∀ bytes, result = .ok (.copied bytes) ↔ bytes = value.size ∧
    ∃ stored, asked.getLast? = some (.copy t peer key value (.ok (.copyAck stored)))
  synced : ∀ ack, (∃ summary, result = .ok (.synced summary ack)) ↔
    ∃ signature, asked.getLast? = some (.sync t peer key value signature (.ok (.syncAck ack)))
  failed : ∀ why, result = .error why →
    ∃ q, asked.getLast? = some q ∧ Blames t peer key value q why

variable {t peer key value}

/-- A response in kind that reports no failure is of use. -/
theorem Unmet.not_suits {kind : RequestKind} {response : Response} {why : ReplicationError}
    (h : Unmet kind (.ok response) why) (hfailed : ∀ reason, response ≠ .failed reason) :
    ¬response.Suits kind := by
  intro hsuits
  cases h with
  | remote reason => exact hfailed reason rfl
  | unexpected h => exact h hsuits

/-- Nothing that a conversation fails after is what it succeeds with. -/
theorem Blames.not_met {q : Inquiry} {why : ReplicationError}
    (h : Blames t peer key value q why) :
    (∀ stamp checksums?, q ≠ .info t peer key value (.ok (.info .same stamp checksums?))) ∧
      (∀ stored, q ≠ .copy t peer key value (.ok (.copyAck stored))) ∧
        ∀ signature ack, q ≠ .sync t peer key value signature (.ok (.syncAck ack)) := by
  cases h with
  | unmet h =>
    refine ⟨?_, ?_, ?_⟩
    · rintro stamp checksums? rfl
      exact h.not_suits nofun rfl
    · rintro stored rfl
      exact h.not_suits nofun rfl
    · rintro signature ack rfl
      exact h.not_suits nofun rfl
  | tooLarge | missingChecksums | malformedChecksums | deltaTooLarge => exact ⟨nofun, nofun, nofun⟩

theorem followsProtocol_of_blames {asked : List Inquiry} {q : Inquiry} {why : ReplicationError}
    (hrequests : ∃ reply, asked = [.info t peer key value reply] ∨
      ∃ q, asked = [.info t peer key value reply, q] ∧ Sequel t peer key value reply q)
    (hlast : asked.getLast? = some q) (hblames : Blames t peer key value q why) :
    FollowsProtocol t peer key value asked (.error why) := by
  obtain ⟨hinfo, hcopy, hsync⟩ := hblames.not_met
  refine ⟨hrequests, ⟨nofun, ?_⟩, fun bytes => ⟨nofun, ?_⟩, fun ack => ⟨nofun, ?_⟩, ?_⟩
  · rintro ⟨stamp, checksums?, hmet⟩
    exact absurd (Option.some.inj (hlast.symm.trans hmet)) (hinfo stamp checksums?)
  · rintro ⟨-, stored, hmet⟩
    exact absurd (Option.some.inj (hlast.symm.trans hmet)) (hcopy stored)
  · rintro ⟨signature, hmet⟩
    exact absurd (Option.some.inj (hlast.symm.trans hmet)) (hsync signature ack)
  · rintro _ ⟨⟩
    exact ⟨q, hlast, hblames⟩

/-- Every course is one of the protocol: at most two requests, the second one determined by the
answer to the first, and a result that says how the last one was met. -/
theorem ValueCourse.followsProtocol {asked : List Inquiry} {result : ValueResult}
    (h : ValueCourse t peer key value asked result) :
    FollowsProtocol t peer key value asked result := by
  cases h with
  | unmet h => exact followsProtocol_of_blames ⟨_, .inl rfl⟩ rfl (.unmet h)
  | tooLarge stamp checksums? hlarge =>
    exact followsProtocol_of_blames ⟨_, .inl rfl⟩ rfl (.tooLarge hlarge)
  | copyUnmet stamp checksums? hsmall h =>
    exact followsProtocol_of_blames ⟨_, .inr ⟨_, rfl, .copy hsmall _⟩⟩ rfl (.unmet h)
  | missingChecksums stamp =>
    exact followsProtocol_of_blames ⟨_, .inl rfl⟩ rfl .missingChecksums
  | malformedChecksums stamp hread =>
    exact followsProtocol_of_blames ⟨_, .inl rfl⟩ rfl (.malformedChecksums hread)
  | deltaTooLarge stamp hread hlarge =>
    exact followsProtocol_of_blames ⟨_, .inl rfl⟩ rfl (.deltaTooLarge hread hlarge)
  | syncUnmet stamp hread hsmall h =>
    exact followsProtocol_of_blames ⟨_, .inr ⟨_, rfl, .sync hread hsmall _⟩⟩ rfl (.unmet h)
  | upToDate stamp checksums? =>
    refine ⟨⟨_, .inl rfl⟩, ⟨fun _ => ⟨stamp, checksums?, rfl⟩, fun _ => rfl⟩,
      fun bytes => ⟨nofun, nofun⟩, fun ack => ⟨nofun, nofun⟩, nofun⟩
  | copied stamp checksums? hsmall stored =>
    refine ⟨⟨_, .inr ⟨_, rfl, .copy hsmall _⟩⟩, ⟨nofun, nofun⟩, fun bytes => ⟨?_, ?_⟩,
      fun ack => ⟨nofun, nofun⟩, nofun⟩
    · rintro ⟨⟩
      exact ⟨rfl, stored, rfl⟩
    · rintro ⟨rfl, -⟩
      rfl
  | synced stamp hread hsmall ack =>
    refine ⟨⟨_, .inr ⟨_, rfl, .sync hread hsmall _⟩⟩, ⟨nofun, nofun⟩,
      fun bytes => ⟨nofun, nofun⟩, fun ack' => ⟨?_, ?_⟩, nofun⟩
    · rintro ⟨summary, ⟨⟩⟩
      exact ⟨_, rfl⟩
    · rintro ⟨signature', hlast⟩
      have hreply := congrArg Inquiry.reply (Option.some.inj hlast)
      cases hreply
      exact ⟨_, rfl⟩

end

end DeltaMesh
