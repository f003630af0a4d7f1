import DeltaMesh.Proofs.Exchange.Sends
import DeltaMesh.Proofs.Message.Size
import DeltaMesh.Proofs.Replica.Sync

/-!
# Frames that outgrow the transport

A transport carries frames of at most `frameCap` bytes. What brings values of at most fifteen
mebibytes to a replica is carried, and so are the answers (`frames_carried`). A hand-over is carried
exactly if none of its rows is too long, of which the 68 bytes that a value has besides itself count
as well: a row of at most `maxBatch` value bytes may have so many values that its request is refused
(`handOver_outgrows_cap`).
-/

namespace DeltaMesh

open Exchange (rowsOf Covers)

/-- No frame may have more bytes than this. -/
def frameCap : Nat := 16 * 1024 * 1024

/-- The frame of the request is carried. -/
def Request.Carried (q : Request) : Prop := q.frame.size ≤ frameCap

/-- The frame of the response is carried. -/
def Response.Carried (m : Response) : Prop := m.frame.size ≤ frameCap

/-! ### Requests -/

section

variable {t : Terms} {key : Key} {value : ByteArray}

/-- With a limit of 15 MiB or less everything that a conversation about one value sends fits into a
frame: the fields around the value take less than a MiB. -/
theorem covers_carried (hlimit : t.limit ≤ 15 * 1024 * 1024) :
    Covers Request.Carried t key value where
  info := by
    rw [Request.Carried, Request.size_frame_info]
    decide
  copy hsize := by
    rw [Request.Carried, Request.size_frame_copy, Entries.size_single, Entries.totalBytes_single,
      frameCap]
    omega
  sync signature hsize := by
    rw [Request.Carried, Request.size_frame_sync, frameCap]
    omega

/-- Whether a batch fits into a frame depends on the bytes of its values and on their number: each
entry takes 68 bytes besides its value. -/
theorem carried_row_iff {row : List (Key × ByteArray)} (hnodup : (row.map Prod.fst).Nodup)
    (timestamp : Int64) : (Request.copy (.ofPairs row) timestamp).Carried ↔
      20 + 68 * row.length + Entries.bytesOf row ≤ frameCap := by
  rw [Request.Carried, Request.size_frame_copy, Entries.size_ofPairs hnodup,
    Entries.totalBytes_ofPairs hnodup]

/-- A hand-over is carried exactly if none of its rows is too long. -/
theorem carried_handOver_iff (owner : Peer) {values : List (Key × ByteArray)}
    (hnodup : (values.map Prod.fst).Nodup) (hsizes : ∀ p ∈ values, p.2.size ≤ t.limit) :
    (handOver t owner values).run.Sends Request.Carried ↔
      ∀ row ∈ rowsOf values, 20 + 68 * row.length + Entries.bytesOf row ≤ frameCap := by
  rw [Exchange.sends_handOver_iff t owner hsizes]
  refine forall₂_congr fun row hrow => carried_row_iff (hnodup.sublist ?_) t.now
  exact (Exchange.sublist_of_mem_rowsOf hrow).map Prod.fst

end

/-! ### Answers -/

namespace Replica

variable {r : Replica} {task : Nat}

/-- The checksums of a value of fifteen mebibytes are shorter than the value if blocks have at least
thirty-two bytes, as each takes twenty. So the answer to INFO fits into a frame whenever the value
does. -/
theorem carried_infoAnswer {stored? : Option ByteArray} {blockSize : Nat} (hash : Id)
    (timestamp : Int64) (hblock : 32 ≤ blockSize)
    (hsize : ∀ value, stored? = some value → value.size ≤ 15 * 1024 * 1024) :
    (infoAnswer stored? hash timestamp blockSize).Carried := by
  rcases stored? with - | value
  · rw [infoAnswer, Response.Carried, Response.size_frame_info_none]
    decide
  · rw [infoAnswer]
    split
    case isTrue =>
      rw [Response.Carried, Response.size_frame_info_none]
      decide
    case isFalse =>
      have hvalue := hsize value rfl
      have hblocks : 32 * blockCount value.size blockSize ≤ value.size + 32 :=
        mul_blockCount_le value.size hblock
      have hpayload : (Wire.encodeSignature (.ofValue value blockSize)).size ≤
          8 + 20 * blockCount value.size blockSize + 1 := by
        rw [← Wire.length_ofValue, ← Wire.size_putSignature]
        exact Wire.size_payload_le _
      rw [Response.Carried, Response.size_frame_info, frameCap]
      omega

/-- An answer to COPY is a number. -/
theorem carried_answerCopy {entries : Entries} {response : Response}
    (h : (r.answerCopy task entries).1 = .ok response) : response.Carried := by
  rw [answerCopy] at h
  generalize storeEntries task entries.toList r.countCopy = ended at h
  obtain ⟨⟨locations, failure⟩, r'⟩ := ended
  rcases failure with - | why
  · obtain rfl := Except.ok.inj h
    rw [Response.Carried, Response.size_frame_copyAck]
    decide
  · cases h

theorem carried_syncOutcome {r' : Replica} {key : Key} {hash : Id} {delta : ByteArray}
    {result : Except ExchangeError Response} {response : Response}
    (houtcome : SyncOutcome r key hash delta result r') (h : result = .ok response) :
    response.Carried := by
  cases houtcome with
  | applied | unchanged =>
    obtain rfl := Except.ok.inj h
    rw [Response.Carried, Response.size_frame_syncAck]
    decide
  | failed => cases h

/-- An answer to SYNC is one of two. -/
theorem carried_answerSync {key : Key} {hash : Id} {delta : ByteArray} {response : Response}
    (h : (r.answerSync task key hash delta).1 = .ok response) : response.Carried := by
  rw [answerSync, withLock] at h
  generalize (KeyLocks.acquire? (r.locks.fetch task key) task).getD (r.locks.fetch task key) =
    locks at h
  exact carried_syncOutcome (applySync_outcome { r with locks } key hash delta) h

/-- What is answered to a request that writes is carried if it says that the request was carried
out. -/
theorem carried_respond {result : Except ExchangeError Response} {r : Replica}
    (h : ∀ response, result = .ok response → response.Carried) :
    (∃ reason, (respond (result, r)).1 = .failed reason) ∨ (respond (result, r)).1.Carried := by
  rcases result with why | response
  · exact .inl ⟨why.message, rfl⟩
  · exact .inr (h response rfl)

/-- Whatever is asked, the answer is carried unless it reports a failure. -/
theorem carried_serve (q : Request) (hblock : 32 ≤ r.blockSize)
    (hsizes : ∀ (k : Key) (value : ByteArray), r.store.get? k = some value →
      value.size ≤ 15 * 1024 * 1024) :
    (∃ reason, (r.serve task q).1 = .failed reason) ∨ (r.serve task q).1.Carried := by
  rcases q with ⟨key, hash, timestamp⟩ | ⟨entries, timestamp⟩ | ⟨key, hash, timestamp, delta⟩
  · exact .inr (carried_infoAnswer hash timestamp hblock fun value => hsizes key value)
  · exact carried_respond fun response => carried_answerCopy
  · exact carried_respond fun response => carried_answerSync

end Replica

/-! ### All frames -/

section

variable {t : Terms} {location : Id}

/-- A row of few bytes fits into a frame as long as its values are not too many. -/
theorem carried_row {values row : List (Key × ByteArray)} (hmany : values.length ≤ 185042)
    (hsizes : ∀ p ∈ values, p.2.size ≤ 15 * 1024 * 1024) (hrow : row ∈ rowsOf values) :
    20 + 68 * row.length + Entries.bytesOf row ≤ frameCap := by
  have hsub := Exchange.sublist_of_mem_rowsOf hrow
  rcases (Exchange.sendable_of_mem_rowsOf row hrow).small with hbytes | hone
  · have hlength := hsub.length_le
    rw [maxBatch] at hbytes
    rw [frameCap]
    omega
  · obtain ⟨p, rfl⟩ := List.length_eq_one_iff.mp hone
    have hsize := hsizes p (hsub.subset (List.mem_singleton_self p))
    simp only [Entries.bytesOf, List.map_singleton, List.sum_singleton, List.length_singleton,
      frameCap]
    omega

/-- If no value is longer than fifteen mebibytes, then what brings the values of a location to a
replica is carried, whatever is answered, and a hand-over of the location exactly if its rows are
not too long, as they are not if there are at most 185042 values. -/
theorem frames_carried (e : Entries) (location : Id) (peer : Peer)
    (hlimit : t.limit ≤ 15 * 1024 * 1024)
    (hsizes : ∀ (k : Key) (value : ByteArray), e[k]? = some value → value.size ≤ t.limit) :
    (reconcileReplica t peer (e.under location)).Sends Request.Carried ∧
      ((handOver t peer (e.under location)).run.Sends Request.Carried ↔
        ∀ row ∈ rowsOf (e.under location),
          20 + 68 * row.length + Entries.bytesOf row ≤ frameCap) ∧
      ((e.under location).length ≤ 185042 →
        (handOver t peer (e.under location)).run.Sends Request.Carried) ∧
      ∀ (r : Replica) (task : Nat) (q : Request), r.store.entries = e → 32 ≤ r.blockSize →
        (∃ reason, (r.serve task q).1 = .failed reason) ∨ (r.serve task q).1.Carried := by
  have hunder : ∀ p ∈ e.under location, p.2.size ≤ t.limit :=
    fun p hp => hsizes p.1 p.2 (Entries.mem_under.mp hp).2
  have hrows := carried_handOver_iff peer (e.nodup_under location) hunder
  refine ⟨?_, hrows, ?_, ?_⟩
  · exact Exchange.sends_reconcileReplica t peer fun p _ => covers_carried hlimit
  · intro hmany
    exact hrows.mpr fun row hrow =>
      carried_row hmany (fun p hp => Nat.le_trans (hunder p hp) hlimit) hrow
  · rintro r task q rfl hblock
    exact r.carried_serve q hblock fun k value hvalue =>
      Nat.le_trans (hsizes k value hvalue) hlimit

end

/-- INFO is answered with what is held, never with a failure: nothing is written, and nothing that
the request carries has to be read. -/
theorem Replica.serve_info_ne_failed (r : Replica) (task : Nat) (key : Key) (hash : Id)
    (timestamp : Int64) (reason : String) :
    (r.serve task (.info key hash timestamp)).1 ≠ .failed reason := by
  show infoAnswer (r.store.get? key) hash timestamp r.blockSize ≠ .failed reason
  cases r.store.get? key with
  | none => exact nofun
  | some value =>
    rw [infoAnswer]
    split <;> exact nofun

/-- Three values, of fifteen mebibytes, of as many bytes as a row of several may have, and of one.
The first is as long as the limit lets it be, and an INFO about it is answered with its checksums.
-/
theorem frames_carried_near_limit :
    let key (n : Nat) : Key := ⟨.ofNat 1, .ofNat 2, .ofNat n⟩
    let values : List (Key × ByteArray) :=
      [(key 1, ⟨Array.replicate (15 * 1024 * 1024) 0⟩), (key 2, ⟨Array.replicate maxBatch 0⟩),
        (key 3, ⟨#[7]⟩)]
    let e : Entries := .ofPairs values
    let t : Terms := ⟨32, 15 * 1024 * 1024, 0⟩
    let r : Replica := .ofStore (.alone default) { Store.empty with entries := e } 32
    let q : Request := .info (key 1) (.ofContent ⟨#[8]⟩) 0
    (∀ (k : Key) (value : ByteArray), e[k]? = some value → value.size ≤ t.limit) ∧
      (reconcileReplica t default (e.under (.ofNat 1))).Sends Request.Carried ∧
      (handOver t default (e.under (.ofNat 1))).run.Sends Request.Carried ∧
      (∀ row ∈ rowsOf (e.under (.ofNat 1)),
        20 + 68 * row.length + Entries.bytesOf row ≤ frameCap) ∧
      (r.serve 0 q).1.Carried := by
  intro key values e t r q
  have hnodup : (values.map Prod.fst).Nodup := by
    show ([key 1, key 2, key 3] : List Key).Nodup
    decide
  have hlist : e.toList.Perm values := Entries.toList_ofPairs_perm hnodup
  have hsizes : ∀ (k : Key) (value : ByteArray), e[k]? = some value → value.size ≤ t.limit := by
    intro k value hvalue
    have hmem := hlist.mem_iff.mp (Std.ExtTreeMap.mem_toList_iff_getElem?_eq_some.mpr hvalue)
    simp only [values, List.mem_cons, List.not_mem_nil, or_false, Prod.mk.injEq] at hmem
    rcases hmem with ⟨-, rfl⟩ | ⟨-, rfl⟩ | ⟨-, rfl⟩
    · rw [ByteArray.size, Array.size_replicate]
    · rw [ByteArray.size, Array.size_replicate]
      decide
    · decide
  have hmany : (e.under (.ofNat 1)).length ≤ 185042 := by
    refine Nat.le_trans (e.length_under_le (.ofNat 1)) ?_
    rw [Entries.size_ofPairs hnodup]
    exact (by decide : 3 ≤ 185042)
  obtain ⟨hreplica, hrows, hfew, hserve⟩ :=
    frames_carried e (.ofNat 1) default (Nat.le_refl _ : t.limit ≤ 15 * 1024 * 1024) hsizes
  have hanswer : (r.serve 0 q).1.Carried := by
    obtain ⟨reason, hfailed⟩ | hcarried := hserve r 0 q rfl (Nat.le_refl 32)
    · exact absurd hfailed (r.serve_info_ne_failed 0 (key 1) (.ofContent ⟨#[8]⟩) 0 reason)
    · exact hcarried
  -- what is known of `e` is stated by now, and its bytes are not to be compared
  clear_value e
  have hsends := hfew hmany
  have hfit := hrows.mp hsends
  exact ⟨hsizes, hreplica, hsends, hfit, hanswer⟩

/-! ### Too many values -/

namespace Exchange

/-- What is small enough together goes out in a single batch; the number of values does not count.
-/
theorem rowsOnto_of_small {row values : List (Key × ByteArray)}
    (hbytes : Entries.bytesOf (row ++ values) ≤ maxBatch) (hne : row ++ values ≠ []) :
    rowsOnto row values = [row ++ values] := by
  induction values generalizing row with
  | nil =>
    rw [List.append_nil] at hne ⊢
    rw [rowsOnto, if_neg fun h => hne (List.isEmpty_iff.mp h)]
  | cons p rest ih =>
    obtain ⟨key, value⟩ := p
    rw [List.append_cons] at hbytes hne ⊢
    have hfirst : Entries.bytesOf row + value.size ≤ maxBatch := by
      rw [← Entries.bytesOf_concat row key value]
      exact Nat.le_trans (Entries.bytesOf_le_append ..) hbytes
    rw [rowsOnto, if_neg fun h => Nat.not_lt.mpr hfirst h.2]
    exact ih hbytes hne

/-- Values that have few bytes together go out as one row. -/
theorem rowsOf_of_small {values : List (Key × ByteArray)}
    (hbytes : Entries.bytesOf values ≤ maxBatch) (hne : values ≠ []) : rowsOf values = [values] :=
  rowsOnto_of_small hbytes hne

end Exchange

/-- `n` keys under one location. -/
def crowdKeys (n : Nat) : List Key := (List.range n).map fun i => ⟨.ofNat 1, .zero, .ofNat i⟩

/-- As many bytes as a row of several values may have, in the first of `n + 1` values. -/
def crowd (n : Nat) : List (Key × ByteArray) :=
  (crowdKeys (n + 1)).zip (⟨Array.replicate maxBatch 0⟩ :: List.replicate n .empty)

theorem length_crowdKeys (n : Nat) : (crowdKeys n).length = n := by
  rw [crowdKeys, List.length_map, List.length_range]

/-- As long as the numbers fit an id the keys are different. -/
theorem nodup_crowdKeys {n : Nat} (hn : n ≤ 2 ^ 160) : (crowdKeys n).Nodup := by
  refine List.Nodup.map_on (fun i hi j hj h => ?_) List.nodup_range
  have hi := Nat.lt_of_lt_of_le (List.mem_range.mp hi) hn
  have hj := Nat.lt_of_lt_of_le (List.mem_range.mp hj) hn
  have hvalue : BitVec.ofNat 160 i = BitVec.ofNat 160 j := congrArg (·.content.value) h
  have hnat := congrArg BitVec.toNat hvalue
  rwa [BitVec.toNat_ofNat, BitVec.toNat_ofNat, Nat.mod_eq_of_lt hi, Nat.mod_eq_of_lt hj] at hnat

section

variable (n : Nat)

theorem length_crowd : (crowd n).length = n + 1 := by
  rw [crowd, List.length_zip, length_crowdKeys, List.length_cons, List.length_replicate,
    Nat.min_self]

theorem map_fst_crowd : (crowd n).map Prod.fst = crowdKeys (n + 1) :=
  List.map_fst_zip (by simp [length_crowdKeys])

theorem map_snd_crowd :
    (crowd n).map Prod.snd = ⟨Array.replicate maxBatch 0⟩ :: List.replicate n .empty :=
  List.map_snd_zip (by simp [length_crowdKeys])

/-- All but one value of the crowd are empty, so that together they are just what a batch may hold.
-/
theorem bytesOf_crowd : Entries.bytesOf (crowd n) = maxBatch := by
  have hsizes : (crowd n).map (·.2.size) = ((crowd n).map Prod.snd).map ByteArray.size :=
    (List.map_map (g := ByteArray.size) (f := Prod.snd)).symm
  rw [Entries.bytesOf, hsizes, map_snd_crowd, List.map_cons, List.map_replicate, List.sum_cons,
    List.sum_replicate_nat]
  simp [ByteArray.size]

end

section

variable {n : Nat} {k : Key} {value : ByteArray}

/-- None of them is too large to be sent. -/
theorem size_le_of_mem_crowd (h : (k, value) ∈ crowd n) : value.size ≤ maxBatch := by
  have hvalue : value ∈ (crowd n).map Prod.snd := List.mem_map_of_mem h
  rw [map_snd_crowd] at hvalue
  rcases List.mem_cons.mp hvalue with rfl | hmem
  · simp [ByteArray.size]
  · rw [List.eq_of_mem_replicate hmem]
    exact Nat.zero_le _

theorem location_of_mem_crowd (h : (k, value) ∈ crowd n) : k.location = .ofNat 1 := by
  have hk : k ∈ crowdKeys (n + 1) := map_fst_crowd n ▸ List.mem_map_of_mem h
  obtain ⟨i, -, rfl⟩ := List.mem_map.mp hk
  rfl

theorem nodup_crowd (hn : n < 2 ^ 160) : ((crowd n).map Prod.fst).Nodup :=
  map_fst_crowd n ▸ nodup_crowdKeys hn

theorem size_le_of_getElem?_crowd (hn : n < 2 ^ 160)
    (h : (Entries.ofPairs (crowd n))[k]? = some value) : value.size ≤ maxBatch := by
  have hmem := Std.ExtTreeMap.mem_toList_iff_getElem?_eq_some.mpr h
  exact size_le_of_mem_crowd ((Entries.toList_ofPairs_perm (nodup_crowd hn)).mem_iff.mp hmem)

/-- All of them lie under one location, and are listed there in some order. -/
theorem under_crowd_perm (hn : n < 2 ^ 160) :
    ((Entries.ofPairs (crowd n)).under (.ofNat 1)).Perm (crowd n) := by
  rw [Entries.under_eq_filter]
  refine ((Entries.toList_ofPairs_perm (nodup_crowd hn)).filter _).trans (.of_eq ?_)
  exact List.filter_eq_self.mpr fun p hp => decide_eq_true (location_of_mem_crowd hp)

/-- A crowd is carried up to 185042 values. All its values go into one row, so that the next one
makes the frame too long. -/
theorem carried_crowd_iff (hn : n < 2 ^ 160) {t : Terms} (hlimit : maxBatch ≤ t.limit)
    (owner : Peer) :
    (handOver t owner ((Entries.ofPairs (crowd n)).under (.ofNat 1))).run.Sends Request.Carried ↔
      n < 185042 := by
  have hperm := under_crowd_perm hn
  have hlength := hperm.length_eq.trans (length_crowd n)
  have hbytes : Entries.bytesOf ((Entries.ofPairs (crowd n)).under (.ofNat 1)) = maxBatch :=
    (hperm.map _).sum_nat.trans (bytesOf_crowd n)
  have hsizes : ∀ p ∈ (Entries.ofPairs (crowd n)).under (.ofNat 1), p.2.size ≤ t.limit :=
    fun p hp => Nat.le_trans (size_le_of_mem_crowd (hperm.mem_iff.mp hp)) hlimit
  rw [carried_handOver_iff owner (Entries.nodup_under ..) hsizes,
    Exchange.rowsOf_of_small (Nat.le_of_eq hbytes) (List.ne_nil_of_length_eq_add_one hlength),
    List.forall_mem_singleton, hlength, hbytes, maxBatch, frameCap]
  omega

end

/-- A location whose values are all within the limit may be too crowded to be handed over. -/
theorem handOver_outgrows_cap :
    ¬ ∀ (t : Terms) (e : Entries) (location : Id) (owner : Peer), t.limit ≤ 15 * 1024 * 1024 →
      (∀ (k : Key) (value : ByteArray), e[k]? = some value → value.size ≤ t.limit) →
      (handOver t owner (e.under location)).run.Sends Request.Carried := by
  intro hall
  obtain ⟨n, hn⟩ : ∃ n, n = 185042 := ⟨_, rfl⟩
  have hfew : n < 2 ^ 160 := by omega
  have hbatch : maxBatch ≤ 15 * 1024 * 1024 := by decide
  have hcrowd := hall ⟨32, 15 * 1024 * 1024, 0⟩ (.ofPairs (crowd n)) (.ofNat 1) default
    (Nat.le_refl _) fun k value hvalue =>
      Nat.le_trans (size_le_of_getElem?_crowd hfew hvalue) hbatch
  rw [carried_crowd_iff hfew hbatch default, hn] at hcrowd
  exact absurd hcrowd (Nat.lt_irrefl 185042)

end DeltaMesh
