import DeltaMesh.Proofs.Cluster.Moves
import DeltaMesh.Proofs.Delta.RoundTrip
import DeltaMesh.Proofs.Exchange.Reconcile
import DeltaMesh.Proofs.Wire.Size

/-!
# Bringing a value, turn by turn

An `Errand` is a value on its way to a replica, and what the replica holds under its key at first.
What the errand comes to depends on nothing else (`Errand.result`, `Errand.left?`), although it may
have to rest up to three times while one side computes: the replica the checksums of its blocks,
the node its delta, the replica the new value. Each turn that such an errand is given gets it
further (`Errand.turned_converse`, `Errand.turned_resume`), and what has nothing to do with its key
at its replica stays as it is.
-/

namespace DeltaMesh

/-- A value on its way to a replica. -/
structure Errand (n : Nat) where
  terms : Terms
  /-- As whom the node addresses the replica. -/
  peer : Peer
  replica : Fin n
  /-- The length of the replica's blocks. -/
  blockSize : Nat
  key : Key
  value : ByteArray
  /-- What the replica holds under the key at first. -/
  held? : Option ByteArray

namespace Errand

variable {n : Nat} (e : Errand n)

/-- The checksums of the blocks of `base`, as they are written. -/
def checksums (base : ByteArray) : ByteArray :=
  Wire.putSignature (.ofValue base e.blockSize)

/-- The delta to be applied to `base`. -/
def delta (base : ByteArray) : Delta :=
  diff (.ofValue base e.blockSize) e.value e.terms.blockSize

/-- The payload of the delta to be applied to `base`. -/
def payload (base : ByteArray) : ByteArray :=
  Exchange.deltaPayload e.terms e.value (.ofValue base e.blockSize)

def summary (base : ByteArray) : Summary :=
  Exchange.deltaSummary e.terms e.value (.ofValue base e.blockSize)

/-- What the replica makes of the delta to be applied to `base`. -/
def verdict (base : ByteArray) : Except ExchangeError (Option ByteArray) :=
  if Wire.Refused (Wire.putDelta (e.delta base)) then
    .error (.codec (.oversizedPayload (Wire.putDelta (e.delta base)).size))
  else .ok (some e.value)

/-- What the errand comes to if a delta is sent, and what the replica then holds. -/
def synced (base : ByteArray) : ValueResult × Option ByteArray :=
  match e.verdict base with
  | .ok _ => (.ok (.synced (e.summary base) .applied), some e.value)
  | .error why => (.error (.protocol (.remote why.message)), some base)

/-- Values are compared as the core library compares them, whatever else is imported. -/
local instance decidableEqValue : DecidableEq ByteArray := ByteArray.instDecidableEq

/-- What the errand comes to, and what the replica then holds. -/
def ending : ValueResult × Option ByteArray :=
  match e.held? with
  | none =>
    if e.terms.limit < e.value.size then
      (.error (.tooLarge e.key e.value.size e.terms.limit), none)
    else (.ok (.copied e.value.size), some e.value)
  | some base =>
    if base = e.value then (.ok .upToDate, some base)
    else if Wire.Refused (e.checksums base) then
      (.error (.protocol (.codec (.oversizedPayload (e.checksums base).size))), some base)
    else if e.terms.limit < (e.payload base).size then
      (.error (.tooLarge e.key (e.payload base).size e.terms.limit), some base)
    else e.synced base

def result : ValueResult := e.ending.1

def left? : Option ByteArray := e.ending.2

/-- Nothing gets mixed up when the value is brought to a replica that holds `base`: no two hashes
are the same by chance, and every number fits its field. -/
structure Replayable (base : ByteArray) : Prop where
  hash : Id.ofContent base ≠ Id.ofContent e.value
  separates : Separates e.value base e.blockSize
  blocks : blockCount base.size e.blockSize ≤ UInt32.size
  checksums : Wire.LengthTold (e.checksums base)
  delta : Wire.LengthTold (Wire.putDelta (e.delta base))

/-- Whatever the replica holds, it can be told about the value. -/
structure Feasible : Prop where
  fits : e.value.size < Wire.lengthBound
  limit : e.terms.limit < Wire.lengthBound
  replayable : ∀ base, e.held? = some base → base ≠ e.value → e.Replayable base

/-- The replica serves the errand, and writing does not fail. -/
structure Open (c : Cluster n) : Prop where
  reaches : c.Reaches e.peer e.replica
  blockSize : (c.replica e.replica).blockSize = e.blockSize
  faultless : ∀ tried key value, (c.replica e.replica).store.fault tried key value = none
  sound : c.LocksSound

/-- What the replica holds under the key, and who refers to its lock. -/
structure At (c : Cluster n) (held? : Option ByteArray) (claims : List (Claim Nat)) : Prop where
  held : (c.replica e.replica).store.get? e.key = held?
  locks : (c.replica e.replica).locks.on e.key = claims

/-- What follows once the checksums of the blocks of `base` are read. -/
def reading (base : ByteArray) : Exchange ValueResult :=
  if Wire.Refused (e.checksums base) then
    .done (.error (.protocol (.codec (.oversizedPayload (e.checksums base).size))))
  else Exchange.syncing e.terms e.peer e.key e.value (.ofValue base e.blockSize)

/-- The errand rests, and has to rest at most so many times before it is over; `f` is what comes
after it in its conversation. -/
inductive Stage (f : ValueResult → Exchange α) (c : Cluster n) : Nat → Talk n α → Prop
  | signing {base : ByteArray} {task bytes due : Nat} (hheld : e.held? = some base)
    (hne : base ≠ e.value) (hat : e.At c (some base) []) :
    Stage f c 3 (.asking ⟨e.replica, task, .info, bytes, .signing (.info .other e.terms.now
        (some (Wire.encodeSignature (.ofValue base e.blockSize))))⟩ (.work due)
      fun reply => (Exchange.afterInfo e.terms e.peer e.key e.value reply).andThen f)
  | diffing {base : ByteArray} {due : Nat} (hheld : e.held? = some base)
    (hne : base ≠ e.value) (hat : e.At c (some base) []) :
    Stage f c 2 (.resting (.work due) ((e.reading base).andThen f))
  | rebuilding {base : ByteArray} {task lock bytes due : Nat} (hheld : e.held? = some base)
    (hne : base ≠ e.value) (hending : e.ending = e.synced base)
    (hat : e.At c (some base) [⟨task, e.key, lock, .holding⟩]) :
    Stage f c 1 (.asking
      ⟨e.replica, task, .sync, bytes, .rebuilding e.key (e.verdict base)⟩ (.work due)
      fun reply => (Exchange.afterSync (e.summary base) (e.payload base).size reply).andThen f)

/-- What a turn makes of an errand: it is over and the conversation goes on, or it rests with fewer
than `before` stops to come. -/
inductive Turned (f : ValueResult → Exchange α) (i : Fin n) (D : Prop) (c : Cluster n)
    (before : Nat) : Talk n α × Cluster n → Prop
  | finished {c' : Cluster n} (hmoves : c.Moves (Cluster.corner e.replica (· = e.key)) D c')
    (hat : e.At c' e.left? []) : Turned f i D c before (c'.converse i (f e.result))
  | rests {talk : Talk n α} {c' : Cluster n} {stops : Nat}
    (hmoves : c.Moves (Cluster.corner e.replica (· = e.key)) D c') (hlt : stops < before)
    (hstage : e.Stage f c' stops talk) : Turned f i D c before (talk, c')

variable {e} {c c' : Cluster n} {α : Type} {f : ValueResult → Exchange α} {i : Fin n} {D : Prop}

/-! ### What both ends read -/

theorem Replayable.size_checksums_lt {base : ByteArray} (h : e.Replayable base) :
    (e.checksums base).size < Wire.lengthBound := by
  have hblocks := h.blocks
  rw [Errand.checksums, Wire.size_putSignature, Wire.length_ofValue]
  exact Nat.lt_of_le_of_lt (Nat.add_le_add_left (Nat.mul_le_mul_left 20 hblocks) 8) (by decide)

theorem Replayable.signatureRead {base : ByteArray} (h : e.Replayable base) :
    Wire.decodeSignature (Wire.encodeSignature (.ofValue base e.blockSize)) =
      if Wire.Refused (e.checksums base) then
        .error (.oversizedPayload (e.checksums base).size)
      else .ok (.ofValue base e.blockSize) :=
  Wire.decodeSignature_encodeSignature h.size_checksums_lt h.checksums

/-- The checksums in an answer to INFO fit behind their length, as they take less room than what can
be told in eight bytes. -/
theorem Replayable.answerFits {base : ByteArray} (h : e.Replayable base) :
    (Response.info .other e.terms.now
      (some (Wire.encodeSignature (.ofValue base e.blockSize)))).Fits := by
  rintro checksums hchecksums
  have hblocks := h.blocks
  have hpayload : (Wire.encodeSignature (.ofValue base e.blockSize)).size ≤
      8 + 20 * blockCount base.size e.blockSize + 1 := by
    rw [← Wire.length_ofValue, ← Wire.size_putSignature]
    exact Wire.size_payload_le _
  have hbound : 8 + 20 * UInt32.size + 1 < Wire.lengthBound := by decide
  rw [← Option.some.inj hchecksums]
  omega

/-- The replica decides as the errand says. The delta comes back from its payload unless that is
refused for its size, and the blocks that it refers to are cut from the same value that the
checksums were made of. -/
theorem Feasible.verdict_eq {base : ByteArray} (hfeasible : e.Feasible)
    (hheld : e.held? = some base) (hne : base ≠ e.value)
    (hsize : (e.payload base).size ≤ e.terms.limit) :
    syncVerdict (some base) e.key (.ofContent e.value) (e.payload base) e.blockSize =
      e.verdict base := by
  have h := hfeasible.replayable base hheld hne
  have hfits : (Wire.putDelta (e.delta base)).size < Wire.lengthBound :=
    Wire.size_lt_of_payload h.delta (by decide) (Nat.lt_of_le_of_lt hsize hfeasible.limit)
  have hread : Wire.decodeDelta (e.payload base) =
      if Wire.Refused (Wire.putDelta (e.delta base)) then
        .error (.oversizedPayload (Wire.putDelta (e.delta base)).size)
      else .ok (e.delta base) := Wire.decodeDelta_encodeDelta hfits h.delta
  have hrebuild : rebuild base (e.delta base) e.blockSize = .ok e.value :=
    rebuild_diff_of_blockCount e.terms.blockSize h.blocks h.separates
  have hother : (some base).map Id.ofContent ≠ some (.ofContent e.value) :=
    fun heq => h.hash (Option.some.inj heq)
  rw [syncVerdict, if_neg hother, hread, verdict]
  split
  · rfl
  · simp only [mapError_ok, bind, Except.bind, Option.getD_some, hrebuild, if_true]

theorem verdict_ne (base : ByteArray) : e.verdict base ≠ .ok none := by
  rw [verdict]
  split <;> exact fun h => nomatch h

/-! ### Single turns -/

theorem Open.changes {T : Fin n → Key → Prop} (h : e.Open c) (hchanges : c.Changes T D c') :
    e.Open c' where
  reaches := hchanges.reaches h.reaches
  blockSize := (hchanges.replica e.replica).blockSize.trans h.blockSize
  faultless := by
    rw [(hchanges.replica e.replica).fault]
    exact h.faultless
  sound := hchanges.locks h.sound

/-- What has nothing to do with the errand's key at its replica leaves the errand where it is. -/
theorem At.changes {T : Fin n → Key → Prop} {held? : Option ByteArray} {claims : List (Claim Nat)}
    (h : e.At c held? claims) (hchanges : c.Changes T D c') (hT : ¬T e.replica e.key) :
    e.At c' held? claims where
  held := ((hchanges.replica e.replica).held e.key hT).trans h.held
  locks := ((hchanges.replica e.replica).locks e.key hT).trans h.locks

theorem Stage.changes {T : Fin n → Key → Prop} {stops : Nat} {talk : Talk n α}
    (h : e.Stage f c stops talk) (hchanges : c.Changes T D c') (hT : ¬T e.replica e.key) :
    e.Stage f c' stops talk := by
  cases h with
  | signing hheld hne hat => exact .signing hheld hne (hat.changes hchanges hT)
  | diffing hheld hne hat => exact .diffing hheld hne (hat.changes hchanges hT)
  | rebuilding hheld hne hending hat =>
    exact .rebuilding hheld hne hending (hat.changes hchanges hT)

/-- An errand rests only while something is computed. -/
theorem Stage.wait? {stops : Nat} {talk : Talk n α}
    (h : e.Stage f c stops talk) : ∃ due, talk.wait? = some (.work due) := by
  cases h <;> exact ⟨_, rfl⟩

theorem Stage.pos {stops : Nat} {talk : Talk n α} (h : e.Stage f c stops talk) : 0 < stops := by
  cases h <;> decide

/-- Notes are taken while the errand stays where it is. -/
theorem At.jot {held? : Option ByteArray} {claims : List (Claim Nat)} (h : e.At c held? claims)
    (what : Note) : e.At (c.jot i what) held? claims := ⟨h.held, h.locks⟩

/-- What went before in the same turn. -/
theorem Turned.after {before : Nat} {ended : Talk n α × Cluster n}
    (hmoves : c.Moves (Cluster.corner e.replica (· = e.key)) D c')
    (h : Turned e f i D c' before ended) :
    Turned e f i D c before ended := by
  cases h with
  | finished hmoves' hat => exact .finished (hmoves.trans hmoves') hat
  | rests hmoves' hlt hstage => exact .rests (hmoves.trans hmoves') hlt hstage

/-- An errand that is over before its turn is. -/
theorem turned_ended {before : Nat} {result : ValueResult} {left? : Option ByteArray}
    (hending : e.ending = (result, left?)) (hat : e.At c left? []) :
    Turned e f i D c before (c.converse i (f result)) := by
  have hresult : e.result = result := congrArg Prod.fst hending
  have hleft : e.left? = left? := congrArg Prod.snd hending
  rw [← hresult]
  exact .finished (.refl _ _ c) (hleft ▸ hat)

/-- Before the conversation goes on, a note is taken of how the errand has ended. -/
theorem turned_note {before : Nat} {what : Note} {result : ValueResult} {left? : Option ByteArray}
    (hending : e.ending = (result, left?))
    (hmoves : c.Moves (Cluster.corner e.replica (· = e.key)) D c') (hat : e.At c' left? []) :
    Turned e f i D c before (c'.converse i ((Exchange.note what (.done result)).andThen f)) :=
  .after (hmoves.trans (c'.moves_jot i what)) (turned_ended hending (hat.jot what))

/-- The value itself is sent, or it is too large. If it is sent it is stored in the same turn,
because the lock of its key is free. -/
theorem turned_copying (hopen : e.Open c) (hfeasible : e.Feasible) (hheld : e.held? = none)
    (hat : e.At c none []) (hD : D) (before : Nat) :
    Turned e f i D c before (c.converse i
      ((Exchange.copying e.terms e.peer e.key e.value).andThen f)) := by
  rw [Exchange.copying]
  split
  case isTrue hlarge =>
    have hending : e.ending = (.error (.tooLarge e.key e.value.size e.terms.limit), none) := by
      simp only [ending, hheld, if_pos hlarge]
    exact turned_ended hending hat
  case isFalse hsmall =>
    have hending : e.ending = (.ok (.copied e.value.size), some e.value) := by
      simp only [ending, hheld, if_neg hsmall]
    obtain ⟨r, hturn, hmoves, hstored, hsound, hfree⟩ :=
      Replica.turn_copy_single (hopen.sound e.replica) hat.locks hopen.faultless e.terms.now
    have hfits : (Request.copy (.ofPairs [(e.key, e.value)]) e.terms.now).Fits := by
      rw [Request.Fits, Entries.toList_ofPairs_single]
      exact ⟨(by decide : 1 < Wire.lengthBound), by simpa using hfeasible.fits⟩
    obtain ⟨c', hconverse, hmoves', hreplica⟩ := Cluster.converse_of_answered (D := D) i
      (fun reply => (Exchange.afterCopy e.key e.value reply).andThen f) hopen.reaches hfits
      (fun _ => hD) (.copyAck 1) trivial hturn hmoves (hsound.mono (Nat.le_succ _))
    rw [Exchange.andThen, hconverse, Exchange.afterCopy]
    exact turned_note hending hmoves' ⟨hreplica ▸ hstored, hreplica ▸ hfree⟩

/-- A delta is sent, or its payload is too large. If it is sent the replica takes the lock, and the
errand rests while the value is rebuilt. -/
theorem turned_syncing (hopen : e.Open c) (hfeasible : e.Feasible) {base : ByteArray}
    (hheld : e.held? = some base) (hne : base ≠ e.value)
    (hread : ¬Wire.Refused (e.checksums base)) (hat : e.At c (some base) []) (hD : D)
    {before : Nat} (hbefore : 1 < before) :
    Turned e f i D c before (c.converse i ((Exchange.syncing e.terms e.peer e.key e.value
      (.ofValue base e.blockSize)).andThen f)) := by
  rw [Exchange.syncing]
  split
  case isTrue hlarge =>
    have hending : e.ending =
        (.error (.tooLarge e.key (e.payload base).size e.terms.limit), some base) := by
      simp only [ending, hheld, if_neg hne, if_neg hread]
      exact if_pos hlarge
    exact turned_ended hending hat
  case isFalse hsmall =>
    have hsize : (e.payload base).size ≤ e.terms.limit := Nat.le_of_not_lt hsmall
    have hending : e.ending = e.synced base := by
      simp only [ending, hheld, if_neg hne, if_neg hread]
      exact if_neg hsmall
    have hverdict : syncVerdict ((c.replica e.replica).store.get? e.key) e.key
        (.ofContent e.value) (e.payload base) (c.replica e.replica).blockSize =
          e.verdict base := by
      rw [hat.held, hopen.blockSize]
      exact hfeasible.verdict_eq hheld hne hsize
    obtain ⟨locks, lock, hturn, hmoves, hsound, hclaims⟩ :=
      Replica.turn_sync (hopen.sound e.replica) hat.locks hverdict (verdict_ne base) e.terms.now
    obtain ⟨c', due, hconverse, hmoves', hreplica⟩ := Cluster.converse_of_computing (D := D) i
      (q := .sync e.key (.ofContent e.value) e.terms.now (e.payload base))
      (fun reply => (Exchange.afterSync (e.summary base) (e.payload base).size reply).andThen f)
      hopen.reaches (Nat.lt_of_le_of_lt hsize hfeasible.limit) (fun _ => hD) hturn hmoves hsound
    show Turned e f i D c before (c.converse i (.ask e.peer
      (.sync e.key (.ofContent e.value) e.terms.now (e.payload base)) fun reply =>
        (Exchange.afterSync (e.summary base) (e.payload base).size reply).andThen f))
    rw [hconverse]
    -- the replica keeps its value and the lock of the key until the new value is computed
    have hat' : e.At c' (some base) [⟨c.network.nextTask, e.key, lock, .holding⟩] :=
      ⟨hreplica ▸ hat.held, hreplica ▸ hclaims⟩
    exact .rests hmoves' hbefore (.rebuilding hheld hne hending hat')

/-- The checksums of the replica's blocks are read, unless their payload is refused. -/
theorem turned_reading (hopen : e.Open c) (hfeasible : e.Feasible) {base : ByteArray}
    (hheld : e.held? = some base) (hne : base ≠ e.value) (hat : e.At c (some base) []) (hD : D)
    {before : Nat} (hbefore : 1 < before) :
    Turned e f i D c before (c.converse i ((e.reading base).andThen f)) := by
  rw [reading]
  split
  case isTrue hrefused =>
    have hending : e.ending =
        (.error (.protocol (.codec (.oversizedPayload (e.checksums base).size))), some base) := by
      simp only [ending, hheld, if_neg hne, if_pos hrefused]
    exact turned_ended hending hat
  case isFalse hread => exact turned_syncing hopen hfeasible hheld hne hread hat hD hbefore

/-- The replica holds another value, and its checksums have come back. What is left is to compute
the delta, for which the errand has to rest. -/
theorem turned_other (hfeasible : e.Feasible) {base : ByteArray} (hheld : e.held? = some base)
    (hne : base ≠ e.value) (hat : e.At c (some base) []) {before : Nat} (hbefore : 2 < before) :
    Turned e f i D c before (c.converse i ((Exchange.afterInfo e.terms e.peer e.key e.value
      (.ok (.info .other e.terms.now
        (some (Wire.encodeSignature (.ofValue base e.blockSize)))))).andThen f)) := by
  have hread := (hfeasible.replayable base hheld hne).signatureRead
  let c' := c.jot i (.infoAnswered .other)
  have hmoves : c.Moves (Cluster.corner e.replica (· = e.key)) D (c'.beginWork (Effort.diffing
      ((Wire.decodeSignature (Wire.encodeSignature (.ofValue base e.blockSize))).toOption.getD
        []).length e.value.size e.terms.blockSize)).2 :=
    (c.moves_jot i _).trans (c'.moves_beginWork _)
  have hdiffing : Exchange.diffing e.terms e.peer e.key e.value
      (Wire.encodeSignature (.ofValue base e.blockSize)) = .compute (Effort.diffing
        ((Wire.decodeSignature (Wire.encodeSignature (.ofValue base e.blockSize))).toOption.getD
          []).length e.value.size e.terms.blockSize) (e.reading base) := by
    rw [Exchange.diffing, hread, reading]
    split <;> rfl
  rw [Exchange.afterInfo, hdiffing]
  exact .rests hmoves hbefore (.diffing hheld hne ⟨hat.held, hat.locks⟩)

section

variable {base : ByteArray} {task lock bytes due : Nat}

/-- The replica has computed the value and stores it. The lock that it has kept is given back, and
the errand is over. -/
theorem turned_applied (hopen : e.Open c)
    (hending : e.ending = (.ok (.synced (e.summary base) .applied), some e.value))
    (hat : e.At c (some base) [⟨task, e.key, lock, .holding⟩])
    (hpermits : c.permits (.work due) = true) (before : Nat) :
    Turned e f i D c before (c.resume i (.asking
      ⟨e.replica, task, .sync, bytes, .rebuilding e.key (.ok (some e.value))⟩ (.work due)
      fun reply =>
        (Exchange.afterSync (e.summary base) (e.payload base).size reply).andThen f)) := by
  obtain ⟨r, hturn, hmoves, hstored, hsound, hfree⟩ :=
    Replica.turn_rebuilding (hopen.sound e.replica) hat.locks (hopen.faultless _ _ _)
  obtain ⟨c', hresume, hmoves', hreplica⟩ := Cluster.resume_of_answered (D := D) i
    (fun reply => (Exchange.afterSync (e.summary base) (e.payload base).size reply).andThen f)
    (d := ⟨e.replica, task, .sync, bytes, .rebuilding e.key (.ok (some e.value))⟩) hpermits
    (.syncAck .applied) trivial hturn hmoves hsound
  rw [hresume, Exchange.afterSync]
  exact turned_note hending hmoves' ⟨hreplica ▸ hstored, hreplica ▸ hfree⟩

/-- The replica cannot make use of the delta and says why; the reason is short enough to come back
as it was written. -/
theorem turned_failed (hopen : e.Open c) {why : ExchangeError}
    (hending : e.ending = (.error (.protocol (.remote why.message)), some base))
    (hfits : (Response.failed why.message).Fits)
    (hat : e.At c (some base) [⟨task, e.key, lock, .holding⟩])
    (hpermits : c.permits (.work due) = true) (before : Nat) :
    Turned e f i D c before (c.resume i (.asking
      ⟨e.replica, task, .sync, bytes, .rebuilding e.key (.error why)⟩ (.work due)
      fun reply =>
        (Exchange.afterSync (e.summary base) (e.payload base).size reply).andThen f)) := by
  obtain ⟨r, hturn, hmoves, hstored, hsound, hfree⟩ :=
    Replica.turn_rebuilding_failed (hopen.sound e.replica) hat.locks why
  obtain ⟨c', hresume, hmoves', hreplica⟩ := Cluster.resume_of_answered (D := D) i
    (fun reply => (Exchange.afterSync (e.summary base) (e.payload base).size reply).andThen f)
    (d := ⟨e.replica, task, .sync, bytes, .rebuilding e.key (.error why)⟩) hpermits
    (.failed why.message) hfits hturn hmoves hsound
  rw [hresume, Exchange.afterSync, Exchange.failing]
  exact turned_note hending hmoves' ⟨hreplica ▸ hstored.trans hat.held, hreplica ▸ hfree⟩

/-- The replica has computed the value, or has refused the delta, and answers accordingly. -/
theorem turned_rebuilding (hopen : e.Open c) (hfeasible : e.Feasible)
    (hheld : e.held? = some base) (hne : base ≠ e.value) (hending : e.ending = e.synced base)
    (hat : e.At c (some base) [⟨task, e.key, lock, .holding⟩])
    (hpermits : c.permits (.work due) = true) (before : Nat) :
    Turned e f i D c before (c.resume i (.asking
      ⟨e.replica, task, .sync, bytes, .rebuilding e.key (e.verdict base)⟩ (.work due)
      fun reply =>
        (Exchange.afterSync (e.summary base) (e.payload base).size reply).andThen f)) := by
  by_cases hrefused : Wire.Refused (Wire.putDelta (e.delta base))
  · have hverdict : e.verdict base =
        .error (.codec (.oversizedPayload (Wire.putDelta (e.delta base)).size)) := if_pos hrefused
    have hlength := (hfeasible.replayable base hheld hne).delta hrefused.1
    rw [synced, hverdict] at hending
    rw [hverdict]
    exact turned_failed hopen hending (Response.fits_oversized hlength) hat hpermits before
  · have hverdict : e.verdict base = .ok (some e.value) := if_neg hrefused
    rw [synced, hverdict] at hending
    rw [hverdict]
    exact turned_applied hopen hending hat hpermits before

end

/-! ### Answers to INFO -/

section

variable (hopen : e.Open c)

include hopen

/-- The replica holds nothing under the key, and says so at once. The value follows in the same
turn. -/
theorem turned_info_nothing (hfeasible : e.Feasible) (hheld : e.held? = none)
    (hat : e.At c none []) (hD : D) (before : Nat) :
    Turned e f i D c before (c.converse i
      (.ask e.peer (.info e.key (.ofContent e.value) e.terms.now) fun reply =>
        (Exchange.afterInfo e.terms e.peer e.key e.value reply).andThen f)) := by
  obtain ⟨served, hturn⟩ := Replica.turn_info_nothing c.network.nextTask hat.held
    (.ofContent e.value) e.terms.now
  obtain ⟨c', hconverse, hmoves, hreplica⟩ :=
    Cluster.converse_of_answered (D := D) (K := (· = e.key)) i
      (fun reply => (Exchange.afterInfo e.terms e.peer e.key e.value reply).andThen f)
      (q := .info e.key (.ofContent e.value) e.terms.now) hopen.reaches trivial (fun _ => hD)
      (.info .nothing e.terms.now none) (fun _ h => nomatch h) hturn (.served _ _ _)
      ((hopen.sound e.replica).mono (Nat.le_succ c.network.nextTask))
  rw [hconverse]
  have hmoves' := hmoves.trans (c'.moves_jot i (.infoAnswered .nothing))
  have hat' : e.At c' none [] := ⟨hreplica ▸ hat.held, hreplica ▸ hat.locks⟩
  exact .after hmoves'
    (turned_copying (hopen.changes hmoves'.toChanges) hfeasible hheld (hat'.jot _) hD before)

/-- The replica holds the value and says so, and the errand is over after one request. -/
theorem turned_info_same (hheld : e.held? = some e.value) (hat : e.At c (some e.value) [])
    (before : Nat) :
    Turned e f i D c before (c.converse i
      (.ask e.peer (.info e.key (.ofContent e.value) e.terms.now) fun reply =>
        (Exchange.afterInfo e.terms e.peer e.key e.value reply).andThen f)) := by
  have hending : e.ending = (.ok .upToDate, some e.value) := by
    simp only [ending, hheld, if_true]
  obtain ⟨served, hturn⟩ := Replica.turn_info_same c.network.nextTask hat.held e.terms.now
  obtain ⟨c', hconverse, hmoves, hreplica⟩ :=
    Cluster.converse_of_answered (D := D) (K := (· = e.key)) i
      (fun reply => (Exchange.afterInfo e.terms e.peer e.key e.value reply).andThen f)
      (q := .info e.key (.ofContent e.value) e.terms.now) hopen.reaches trivial
      (fun h => absurd rfl h) (.info .same e.terms.now none) (fun _ h => nomatch h) hturn
      (.served _ _ _) ((hopen.sound e.replica).mono (Nat.le_succ c.network.nextTask))
  rw [hconverse, Exchange.afterInfo]
  exact turned_note hending hmoves ⟨hreplica ▸ hat.held, hreplica ▸ hat.locks⟩

/-- The replica holds another value, and computes the checksums of its blocks. -/
theorem turned_info_other {base : ByteArray} (hheld : e.held? = some base) (hne : base ≠ e.value)
    (hhash : Id.ofContent base ≠ Id.ofContent e.value) (hat : e.At c (some base) [])
    {before : Nat} (hbefore : 3 < before) :
    Turned e f i D c before (c.converse i
      (.ask e.peer (.info e.key (.ofContent e.value) e.terms.now) fun reply =>
        (Exchange.afterInfo e.terms e.peer e.key e.value reply).andThen f)) := by
  obtain ⟨served, hturn⟩ :=
    Replica.turn_info_other c.network.nextTask hat.held hhash e.terms.now
  obtain ⟨c', due, hconverse, hmoves, hreplica⟩ :=
    Cluster.converse_of_computing (D := D) (K := (· = e.key)) i
      (fun reply => (Exchange.afterInfo e.terms e.peer e.key e.value reply).andThen f)
      (q := .info e.key (.ofContent e.value) e.terms.now) hopen.reaches trivial
      (fun h => absurd rfl h) hturn (.served _ _ _)
      ((hopen.sound e.replica).mono (Nat.le_succ c.network.nextTask))
  rw [hconverse, hopen.blockSize]
  exact .rests hmoves hbefore (.signing hheld hne ⟨hreplica ▸ hat.held, hreplica ▸ hat.locks⟩)

end

/-! ### Every turn -/

/-- The first turn of an errand: INFO is asked, and what follows depends on what the replica holds.
-/
theorem turned_converse (hopen : e.Open c) (hfeasible : e.Feasible) (hat : e.At c e.held? [])
    (hD : e.held? ≠ some e.value → D) :
    Turned e f i D c 4 (c.converse i
      ((reconcileValue e.terms e.peer e.key e.value).run.andThen f)) := by
  rw [Exchange.run_reconcileValue, Exchange.andThen]
  cases hheld : e.held? with
  | none =>
    rw [hheld] at hat hD
    exact turned_info_nothing hopen hfeasible hheld hat (hD fun h => nomatch h) 4
  | some base =>
    rw [hheld] at hat
    by_cases hne : base = e.value
    · rw [hne] at hheld hat
      exact turned_info_same hopen hheld hat 4
    · have hhash := (hfeasible.replayable base hheld hne).hash
      exact turned_info_other hopen hheld hne hhash hat (by decide)

/-- A later turn of an errand, from wherever it rested: while the replica computed the checksums,
while the node computed the delta, or while the replica rebuilt the value. -/
theorem turned_resume (hopen : e.Open c) (hfeasible : e.Feasible) (hD : e.held? ≠ some e.value → D)
    {stops : Nat} {talk : Talk n α} (hstage : e.Stage f c stops talk)
    (hpermits : ∀ wait, talk.wait? = some wait → c.permits wait = true) :
    Turned e f i D c stops (c.resume i talk) := by
  cases hstage with
  | @signing base task bytes due hheld hne hat =>
    have hfits := (hfeasible.replayable base hheld hne).answerFits
    obtain ⟨c', hresume, hmoves, hreplica⟩ :=
      Cluster.resume_of_answered (D := D) (K := (· = e.key)) i
        (fun reply => (Exchange.afterInfo e.terms e.peer e.key e.value reply).andThen f)
        (d := ⟨e.replica, task, .info, bytes, .signing (.info .other e.terms.now
          (some (Wire.encodeSignature (.ofValue base e.blockSize))))⟩) (hpermits _ rfl)
        _ hfits rfl (.refl _ _) (hopen.sound e.replica)
    rw [hresume]
    refine .after hmoves (turned_other hfeasible hheld hne ?_ (by decide))
    exact ⟨hreplica ▸ hat.held, hreplica ▸ hat.locks⟩
  | @diffing base due hheld hne hat =>
    have hD' : D := hD fun h => hne (Option.some.inj (hheld.symm.trans h))
    rw [Cluster.resume, if_pos (hpermits _ rfl)]
    exact turned_reading hopen hfeasible hheld hne hat hD' (by decide)
  | @rebuilding base task lock bytes due hheld hne hending hat =>
    exact turned_rebuilding hopen hfeasible hheld hne hending hat (hpermits _ rfl) 1

end Errand

end DeltaMesh
