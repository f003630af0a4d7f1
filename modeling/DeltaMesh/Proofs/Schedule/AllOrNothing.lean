import DeltaMesh.Proofs.Cluster.Lone
import DeltaMesh.Proofs.Schedule.Alone
import DeltaMesh.Proofs.Schedule.Bring

/-!
# Bringing a value stores it or changes nothing

A node brings a value to a replica while nothing else goes on. Writes at the replica may fail, and
its blocks may have another length than those of the node. If no two contents in question have the
same hash by chance, the node learns exactly what came of it: the value is stored and the outcome
tells what was held before, or the attempt has failed and every value is as it was
(`ValueCourse.settled`). Once the value is stored, asking about it is enough.

Main statement: `Schedule.bring_settled`.
-/

namespace DeltaMesh

/-! ### What the answers say -/

/-- What an answer to INFO says of what is held. -/
def Holding.Tells (held? : Option ByteArray) (hash : Id) : Holding → Prop
  | .same => held?.map Id.ofContent = some hash
  | .nothing => held? = none
  | .other => ∃ base, held? = some base ∧ Id.ofContent base ≠ hash

theorem infoAnswer_tells (held? : Option ByteArray) (hash : Id) (now : Int64) (blockSize : Nat) :
    ∃ (holding : Holding) (checksums? : Option ByteArray),
      infoAnswer held? hash now blockSize = .info holding now checksums? ∧
        holding.Tells held? hash := by
  cases held? with
  | none => exact ⟨.nothing, none, rfl, rfl⟩
  | some base =>
    rw [infoAnswer]
    split
    case isTrue hhash => exact ⟨.same, none, rfl, congrArg some hhash⟩
    case isFalse hhash => exact ⟨.other, _, rfl, base, rfl, hhash⟩

/-- The answer to INFO says what is held, however it arrives. -/
theorem Holding.tells_of_arrived {held? : Option ByteArray} {hash : Id} {now : Int64}
    {blockSize : Nat} {response : Response}
    (h : (infoAnswer held? hash now blockSize).arrived = .ok response) :
    ∃ holding stamp checksums?, response = .info holding stamp checksums? ∧
      holding.Tells held? hash := by
  obtain ⟨holding, checksums?, hanswer, htells⟩ := infoAnswer_tells held? hash now blockSize
  rw [hanswer] at h
  obtain ⟨stamp, checksums?', rfl⟩ := Response.arrived_info h
  exact ⟨holding, stamp, checksums?', rfl, htells⟩

namespace Replica.Writes

variable {r r' : Replica} {key : Key} {P : ByteArray → Prop} {done response : Response}

/-- If something else than a failure arrives, a value is stored; that an answer is damaged on its
way cannot hide a failure. -/
theorem stored_of_arrived (h : r.Writes r' key P done response) (hdone : done.Fits)
    {response' : Response} (harrived : response.arrived = .ok response')
    (hfailed : ∀ reason, response' ≠ .failed reason) : response' = done ∧
      ∃ value, P value ∧ r'.store.get? = Function.update r.store.get? key (some value) := by
  cases h with
  | @stored value hvalue hheld =>
    rw [Response.arrived_of_fits hdone] at harrived
    exact ⟨(Except.ok.inj harrived).symm, value, hvalue, hheld⟩
  | failed reason hheld =>
    obtain ⟨reason', rfl⟩ := Response.arrived_failed harrived
    exact absurd rfl (hfailed reason')

/-- If what arrives is of no use, nothing is stored: the replica answers with a failure then, and a
failure leaves its values alone. -/
theorem kept_of_unmet (h : r.Writes r' key P done response) (hdone : done.Fits)
    {kind : RequestKind} (hsuits : done.Suits kind) (hfailed : ∀ reason, done ≠ .failed reason)
    {why : ReplicationError} (hunmet : Unmet kind response.arrived why) :
    r'.store.get? = r.store.get? := by
  cases h with
  | failed reason hheld => exact hheld
  | stored hvalue hheld =>
    rw [Response.arrived_of_fits hdone] at hunmet
    exact absurd hsuits (hunmet.not_suits hfailed)

end Replica.Writes

/-! ### What comes of the value -/

/-- The value `made` is what a replica that holds `base` rebuilds from the delta that it is sent, if
it is sent one. -/
inductive Remade (t : Terms) (value base : ByteArray) (blockSize : Nat) (made : ByteArray) : Prop
  | intro {stamp : Int64} {checksums : ByteArray} {signature : Signature}
    (harrived : (infoAnswer (some base) (.ofContent value) t.now blockSize).arrived =
      .ok (.info .other stamp (some checksums)))
    (hread : Wire.decodeSignature checksums = .ok signature)
    (hmade : Rebuilds (some base) (Exchange.deltaPayload t value signature) blockSize made)

/-- Neither the value `base` that a replica holds nor what it rebuilds from it is taken for the
value because of its hash. -/
structure Unmistaken (t : Terms) (value base : ByteArray) (blockSize : Nat) : Prop where
  held : Id.ofContent base = Id.ofContent value → base = value
  made : ∀ made, Remade t value base blockSize made →
    Id.ofContent made = Id.ofContent value → made = value

/-- A value that can be replayed on top of `base` is what is made of it: the hash of what the
replica rebuilds is that of the value, and then it is the value. -/
theorem Errand.Replayable.unmistaken {n : Nat} {e : Errand n} {base : ByteArray}
    (h : e.Replayable base) (hdelta : (Wire.putDelta (e.delta base)).size < Wire.lengthBound) :
    Unmistaken e.terms e.value base e.blockSize where
  held hhash := absurd hhash h.hash
  made made hmade _ := by
    obtain ⟨harrived, hread, d, hdecode, hrebuild⟩ := hmade
    rw [infoAnswer, if_neg h.hash, Response.arrived_of_fits h.answerFits] at harrived
    obtain ⟨-, -, hchecksums⟩ := Response.info.inj (Except.ok.inj harrived)
    obtain rfl := Option.some.inj hchecksums
    rw [h.signatureRead] at hread
    split at hread
    case isTrue => cases hread
    case isFalse =>
      obtain rfl := Except.ok.inj hread
      have hread' : Wire.decodeDelta (e.payload base) =
          if Wire.Refused (Wire.putDelta (e.delta base)) then
            .error (.oversizedPayload (Wire.putDelta (e.delta base)).size)
          else .ok (e.delta base) := Wire.decodeDelta_encodeDelta hdelta h.delta
      rw [← Errand.payload, hread'] at hdecode
      split at hdecode
      case isTrue => cases hdecode
      case isFalse =>
        obtain rfl := Except.ok.inj hdecode
        have hvalue : rebuild base (e.delta base) e.blockSize = .ok e.value :=
          rebuild_diff_of_blockCount e.terms.blockSize h.blocks h.separates
        exact Except.ok.inj (hrebuild.symm.trans hvalue)

/-- The outcome tells what was held before the value was stored. -/
inductive Outcome.Tells (held? : Option ByteArray) (value : ByteArray) : Outcome → Prop
  | upToDate (hheld : held? = some value) : Tells held? value .upToDate
  | copied (hheld : held? = none) : Tells held? value (.copied value.size)
  | synced {base : ByteArray} (hheld : held? = some base) (hne : base ≠ value)
    (summary : Summary) : Tells held? value (.synced summary .applied)

/-- What is held afterwards goes with the result: the value is stored under its key and nothing else
has changed, or nothing at all has. -/
inductive Settled (held : Key → Option ByteArray) (key : Key) (value : ByteArray) :
    ValueResult → (Key → Option ByteArray) → Prop
  | stored {outcome : Outcome} (htells : outcome.Tells (held key) value) :
    Settled held key value (.ok outcome) (Function.update held key (some value))
  | kept (why : ReplicationError) : Settled held key value (.error why) held

namespace Replica

variable {r : Replica} {task : Nat} {t : Terms} {peer : Peer} {key : Key} {value : ByteArray}
  {record : Transcript ValueResult}

/-- An answer to the question about the value says what the replica holds. -/
theorem tells_of_info (hconforms : record.Conforms (r.transport task)) {holding : Holding}
    {stamp : Int64} {checksums? : Option ByteArray} {rest : List Inquiry}
    (hasked :
      record.asked = .info t peer key value (.ok (.info holding stamp checksums?)) :: rest) :
    (infoAnswer (r.store.get? key) (.ofContent value) t.now r.blockSize).arrived =
        .ok (.info holding stamp checksums?) ∧
      holding.Tells (r.store.get? key) (.ofContent value) := by
  have hreply := hconforms 0 _ (by rw [hasked]; rfl)
  rw [Transcript.requests, hasked] at hreply
  have harrived : (infoAnswer (r.store.get? key) (.ofContent value) t.now r.blockSize).arrived =
      .ok (.info holding stamp checksums?) := hreply.symm
  obtain ⟨_, _, _, heq, htells⟩ := Holding.tells_of_arrived harrived
  obtain ⟨rfl, -, -⟩ := Response.info.inj heq
  exact ⟨harrived, htells⟩

/-- What a second request brings about that would store the value, and how it is met. -/
theorem held_after_second (hconforms : record.Conforms (r.transport task)) {first second : Inquiry}
    (hasked : record.asked = [first, second]) {r₁ : Replica}
    (hfirst : (r.serve task first.request).2 = r₁) {done : Response}
    (hwrites : r₁.Writes (r₁.serve (task + 1) second.request).2 key (· = value) done
      (r₁.serve (task + 1) second.request).1) (hdone : done.Fits) :
    (∀ response, second.reply = .ok response → (∀ reason, response ≠ .failed reason) →
      response = done ∧ (r.after task (record.requests.map Prod.snd)).store.get? =
        Function.update r₁.store.get? key (some value)) ∧
    ∀ kind why, done.Suits kind → (∀ reason, done ≠ .failed reason) →
      Unmet kind second.reply why →
        (r.after task (record.requests.map Prod.snd)).store.get? = r₁.store.get? := by
  subst hfirst
  have hreply := hconforms 1 second (by rw [hasked]; rfl)
  rw [Transcript.requests, hasked] at hreply ⊢
  refine ⟨fun response harrived hfailed => ?_, fun kind why hsuits hfailed hunmet => ?_⟩
  · obtain ⟨heq, _, rfl, hheld⟩ :=
      hwrites.stored_of_arrived hdone (hreply.symm.trans harrived) hfailed
    exact ⟨heq, hheld⟩
  · rw [hreply] at hunmet
    exact hwrites.kept_of_unmet hdone hsuits hfailed hunmet

/-- At a replica that holds another value a delta against the checksums it has sent stores the value
or nothing. -/
theorem writes_delta (hconforms : record.Conforms (r.transport task)) {stamp : Int64}
    {checksums : ByteArray} {rest : List Inquiry} (hasked : record.asked =
      .info t peer key value (.ok (.info .other stamp (some checksums))) :: rest)
    {signature : Signature} (hread : Wire.decodeSignature checksums = .ok signature)
    (hunmistaken : ∀ base, r.store.get? key = some base → Unmistaken t value base r.blockSize)
    {r₁ : Replica} (hstore : r₁.store = r.store) (hblock : r₁.blockSize = r.blockSize)
    (task₁ : Nat) :
    (∃ base, r.store.get? key = some base ∧ base ≠ value) ∧
      let ended := r₁.serve task₁
        (.sync key (.ofContent value) t.now (Exchange.deltaPayload t value signature))
      r₁.Writes ended.2 key (· = value) (.syncAck .applied) ended.1 := by
  obtain ⟨harrived, base, hheld, hhash⟩ := tells_of_info hconforms hasked
  have hother : (r₁.store.get? key).map Id.ofContent ≠ some (.ofContent value) := by
    rw [hstore, hheld]
    exact fun heq => hhash (Option.some.inj heq)
  refine ⟨⟨base, hheld, fun heq => hhash (congrArg Id.ofContent heq)⟩,
    (r₁.writes_sync task₁ hother t.now _).imp fun made hmade => ?_⟩
  rw [hstore, hblock] at hmade
  rw [hheld] at harrived hmade
  exact (hunmistaken base hheld).made made ⟨harrived, hread, hmade.1⟩ hmade.2

end Replica

/-- What a conversation about a value comes to at a replica that serves nothing else. -/
theorem ValueCourse.settled {t : Terms} {peer : Peer} {key : Key} {value : ByteArray} {r : Replica}
    {task : Nat} {record : Transcript ValueResult}
    (hcourse : ValueCourse t peer key value record.asked record.result)
    (hconforms : record.Conforms (r.transport task))
    (hunmistaken : ∀ base, r.store.get? key = some base → Unmistaken t value base r.blockSize) :
    Settled r.store.get? key value record.result
      (r.after task (record.requests.map Prod.snd)).store.get? := by
  generalize hasked : record.asked = asked, record.result = result at hcourse ⊢
  -- INFO changes nothing that is held
  obtain ⟨r₁, hr₁, hstore, hblock⟩ :
      ∃ r₁, (r.serve task (.info key (.ofContent value) t.now)).2 = r₁ ∧
    r₁.store = r.store ∧ r₁.blockSize = r.blockSize := ⟨_, rfl, rfl, rfl⟩
  cases hcourse with
  | unmet | tooLarge | missingChecksums | malformedChecksums | deltaTooLarge =>
    rw [Transcript.requests, hasked]
    exact .kept _
  | upToDate stamp checksums? =>
    obtain ⟨-, htells⟩ := Replica.tells_of_info hconforms hasked
    obtain ⟨base, hheld, hhash⟩ := Option.map_eq_some_iff.mp htells
    obtain rfl := (hunmistaken base hheld).held hhash
    have hstored : Settled r.store.get? key base (.ok .upToDate)
        (Function.update r.store.get? key (some base)) := .stored (.upToDate hheld)
    rw [Transcript.requests, hasked]
    rwa [← hheld, Function.update_eq_self] at hstored
  | copied stamp checksums? hsmall stored =>
    obtain ⟨-, htells⟩ := Replica.tells_of_info hconforms hasked
    obtain ⟨hstored, -⟩ := Replica.held_after_second hconforms hasked hr₁
      (r₁.writes_copy (task + 1) key value t.now) trivial
    rw [(hstored _ rfl (by rintro _ ⟨⟩)).2, hstore]
    exact .stored (.copied htells)
  | copyUnmet stamp checksums? hsmall h =>
    obtain ⟨-, hkept⟩ := Replica.held_after_second hconforms hasked hr₁
      (r₁.writes_copy (task + 1) key value t.now) trivial
    rw [hkept _ _ rfl (by rintro _ ⟨⟩) h, hstore]
    exact .kept _
  | synced stamp hread hsmall ack =>
    obtain ⟨⟨base, hheld, hne⟩, hwrites⟩ := Replica.writes_delta hconforms hasked hread hunmistaken
      hstore hblock (task + 1)
    obtain ⟨hstored, -⟩ := Replica.held_after_second hconforms hasked hr₁ hwrites trivial
    obtain ⟨heq, hupdate⟩ := hstored _ rfl (by rintro _ ⟨⟩)
    obtain rfl := Response.syncAck.inj heq
    rw [hupdate, hstore]
    exact .stored (.synced hheld hne _)
  | syncUnmet stamp hread hsmall h =>
    obtain ⟨-, hwrites⟩ := Replica.writes_delta hconforms hasked hread hunmistaken hstore hblock
      (task + 1)
    obtain ⟨-, hkept⟩ := Replica.held_after_second hconforms hasked hr₁ hwrites trivial
    rw [hkept _ _ rfl (by rintro _ ⟨⟩) h, hstore]
    exact .kept _

/-! ### The whole way -/

theorem Exchange.covers_lone {t : Terms} (hlimit : t.limit < Wire.lengthBound) {key : Key}
    (value : ByteArray) {Free : Key → Prop} (hfree : Free key) :
    Covers (fun q => q.Fits ∧ ∀ k ∈ Replica.keysOf q, Free k) t key value where
  info := ⟨trivial, fun _ hk => nomatch hk⟩
  copy hsize := by
    refine ⟨(covers_fits hlimit key value).copy hsize, ?_⟩
    rw [Replica.keysOf, Entries.toList_ofPairs_single]
    exact List.forall_mem_singleton.mpr hfree
  sync signature hsize :=
    ⟨(covers_fits hlimit key value).sync signature hsize, List.forall_mem_singleton.mpr hfree⟩

namespace Schedule

variable {n : Nat} {s : Schedule n} {i p : Fin n} {peer : Peer} {key : Key} {value : ByteArray}

/-- A node that brings a value to a replica that holds it asks about it and nothing else. -/
theorem bring_again (hidle : s.Idle) (hreach : s.cluster.Reaches peer p)
    (hsound : s.cluster.LocksSound)
    (hheld : (s.cluster.replica p).store.get? key = some value) :
    ∃ s' bytes, s.bring i peer key value = (some (.ok .upToDate), s') ∧
      s'.cluster.network.sent = ⟨peer.id, .info, bytes⟩ :: s.cluster.network.sent := by
  let t := (s.cluster.reconciler i).terms s.cluster.now
  have hreply : ((s.cluster.replica p).serve s.cluster.network.nextTask
      (.info key (.ofContent value) t.now)).1.arrived = .ok (.info .same t.now none) := by
    rw [Replica.serve, Replica.answerInfo, hheld, infoAnswer, if_pos rfl]
    exact Response.arrived_of_fits (by rintro _ ⟨⟩)
  obtain ⟨c₁, hstill, hask⟩ := Cluster.alone_ask (α := ValueResult) hreach
    (q := .info key (.ofContent value) t.now) trivial (hsound p) (by rintro _ ⟨⟩)
  rw [hreply] at hask
  have halone : Cluster.Alone i (.ok .upToDate) (c₁.jot i (.infoAnswered .same)) 1
      (reconcileValue t peer key value).run s.cluster := by
    rw [Exchange.run_reconcileValue]
    exact hask i _ _ 0 _ (.note (.done 0))
  obtain ⟨s', hbring, -, hcluster⟩ := bring_alone hidle halone (by decide)
  have hsent : s'.cluster.network.sent = c₁.network.sent := by
    rw [hcluster]
    rfl
  exact ⟨s', _, hbring, hsent.trans hstill.sent⟩

/-- A node that brings a value to a replica either has it stored there, and learns what was held
before, or has failed and left every value of the replica as it was. Once the value is stored the
node finds that out with one request. -/
theorem bring_settled (s : Schedule n) (i p : Fin n) (peer : Peer) (key : Key) (value : ByteArray)
    (hidle : s.Idle) (hreach : s.cluster.Reaches peer p) (hsound : s.cluster.LocksSound)
    (hfree : (s.cluster.replica p).locks.on key = [])
    (hlimit : ((s.cluster.reconciler i).terms s.cluster.now).limit < Wire.lengthBound)
    (hunmistaken : ∀ base, (s.cluster.replica p).store.get? key = some base →
      Unmistaken ((s.cluster.reconciler i).terms s.cluster.now) value base
        (s.cluster.replica p).blockSize) :
    ∃ result s', s.bring i peer key value = (some result, s') ∧
      Settled (s.cluster.replica p).store.get? key value result
        (s'.cluster.replica p).store.get? ∧
      ∀ outcome, result = .ok outcome → ∃ s'' bytes,
        s'.bring i peer key value = (some (.ok .upToDate), s'') ∧
          s''.cluster.network.sent = ⟨peer.id, .info, bytes⟩ :: s'.cluster.network.sent := by
  let t := (s.cluster.reconciler i).terms s.cluster.now
  let transport := (s.cluster.replica p).transport s.cluster.network.nextTask
  let record := (reconcileValue t peer key value).run.transcript transport []
  have hcourse : ValueCourse t peer key value record.asked record.result :=
    Exchange.valueCourse_transcript t peer key value transport []
  have hconforms : record.Conforms transport := Exchange.conforms_transcript _ transport
  have hsettled := hcourse.settled hconforms hunmistaken
  have hstops : record.asked.length ≤ 2 := by
    obtain ⟨reply, hasked | ⟨q, hasked, -⟩⟩ := hcourse.followsProtocol.requests
    · rw [hasked]
      exact Nat.le_succ 1
    · rw [hasked]
      exact Nat.le_refl 2
  obtain ⟨c', halone, hasked⟩ : ∃ c', Cluster.Alone i record.result c' (1 + record.asked.length)
      (reconcileValue t peer key value).run s.cluster ∧ s.cluster.Asked peer p record.requests c' :=
    (Cluster.Asked.nil hreach hsound).alone (Exchange.computes_reconcileValue t peer key value)
      (Exchange.asks_reconcileValue t peer key value)
      (Exchange.sends_reconcileValue t peer (Exchange.covers_lone hlimit value hfree)) i
  obtain ⟨s', hbring, hidle', rfl⟩ := bring_alone hidle halone (by omega)
  have hreplica : s'.cluster.replica p = (s.cluster.replica p).after s.cluster.network.nextTask
      (record.requests.map Prod.snd) := hasked.replica
  rw [← hreplica] at hsettled
  refine ⟨record.result, s', hbring, hsettled, fun outcome houtcome => ?_⟩
  refine bring_again hidle' hasked.reaches hasked.sound ?_
  generalize (s'.cluster.replica p).store.get? = held', record.result = result
    at hsettled houtcome ⊢
  cases hsettled with
  | stored htells => exact Function.update_self ..
  | kept why => cases houtcome

/-- A node with blocks of 32 bytes brings a value to one that holds another value and has blocks of
two bytes. A delta is sent and applied, and when the node asks again the replica is up to date. -/
theorem bring_settled_pair :
    let key : Key := ⟨.ofNat 1, .ofNat 2, .ofNat 3⟩
    let value : ByteArray := ⟨#[3, 7, 1, 2]⟩
    let base : ByteArray := ⟨#[5, 1, 1, 2]⟩
    let peer : Peer := ⟨.ofNat 2, .v4 [127, 0, 0, 1] 7002⟩
    let pair := Cluster.pair {} (.ofPairs [(key, base)])
    let s := ofCluster (pair.served 1 { pair.replica 1 with blockSize := 2 })
    (s.cluster.replica 1).store.get? key = some base ∧ ∃ summary s' s'' bytes,
      s.bring 0 peer key value = (some (.ok (.synced summary .applied)), s') ∧
        (s'.cluster.replica 1).store.get? =
          Function.update (s.cluster.replica 1).store.get? key (some value) ∧
        s'.bring 0 peer key value = (some (.ok .upToDate), s'') ∧
        s''.cluster.network.sent = ⟨peer.id, .info, bytes⟩ :: s'.cluster.network.sent := by
  intro key value base peer pair s
  let e : Errand 2 := { Errand.ofPair {} key value base with blockSize := 2 }
  have hopen := Errand.open_ofPair {} key value base
  have hheld : (s.cluster.replica 1).store.get? key = some base :=
    Std.ExtTreeMap.getElem?_insert_self
  have hchecksums : (e.checksums base).size ≤ Wire.maxInflated := by
    rw [Errand.checksums, Wire.size_putSignature, Wire.length_ofValue]
    decide
  have hdelta : (Wire.putDelta (e.delta base)).size ≤ Wire.maxInflated :=
    Nat.le_trans (Wire.size_putDelta_diff_le _ value (by decide : 20 ≤ 32)) (by decide)
  have hpayload : (e.payload base).size ≤ e.terms.limit :=
    Nat.le_trans (Wire.size_encodeDelta_diff_le _ value (by decide : 20 ≤ 32)) (by decide)
  have hreplayable : e.Replayable base :=
    { hash := by decide +kernel
      separates := by decide +kernel
      blocks := by decide
      checksums := Wire.lengthTold_of_size hchecksums
      delta := Wire.lengthTold_of_size hdelta }
  have hpasses : e.Passes := by
    intro base' hheld' _
    rw [← Option.some.inj hheld']
    exact ⟨Wire.not_refused_of_size hchecksums, hpayload, Wire.not_refused_of_size hdelta⟩
  have hreach : s.cluster.Reaches peer 1 := ⟨rfl, rfl, hopen.reaches.registered⟩
  have hsound : s.cluster.LocksSound := Fin.forall_fin_two.mpr ⟨.empty _, .empty _⟩
  obtain ⟨result, s', hbring, hsettled, hagain⟩ := bring_settled s 0 1 peer key value
    (idle_ofCluster _) hreach hsound rfl (by decide) fun base' hheld' => by
      obtain rfl := Option.some.inj (hheld.symm.trans hheld')
      exact hreplayable.unmistaken (Nat.lt_of_le_of_lt hdelta (by decide))
  -- nothing keeps the delta back, so that the errand ends as one that is synced
  have hended : result = .ok (.synced (e.summary base) .applied) := by
    have hfeasible : e.Feasible :=
      ⟨by decide, by decide, fun base' hheld' _ => Option.some.inj hheld' ▸ hreplayable⟩
    obtain ⟨s₁, hends, -, -⟩ := bring_ends (s := s) (e := e) (i := 0) (idle_ofCluster _) rfl
      ⟨hreach, rfl, fun _ _ _ => rfl, hsound⟩ hfeasible ⟨hheld, rfl⟩
    have hending := congrArg Prod.fst (Errand.ending_of_synced hpasses rfl (by decide))
    exact (Option.some.inj (congrArg Prod.fst (hbring.symm.trans hends))).trans hending
  subst hended
  obtain ⟨s'', bytes, hupToDate, hsent⟩ := hagain _ rfl
  generalize hafter : (s'.cluster.replica 1).store.get? = after at hsettled
  cases hsettled with
  | stored => exact ⟨hheld, _, s', s'', bytes, hbring, hafter, hupToDate, hsent⟩

end Schedule

end DeltaMesh
