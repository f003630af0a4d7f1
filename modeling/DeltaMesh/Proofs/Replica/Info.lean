import DeltaMesh.Proofs.Replica.Traceless
import DeltaMesh.Proofs.Wire.Payload
import DeltaMesh.Proofs.Wire.Size

/-!
# INFO tells the truth and leaves no trace

The answer to INFO describes the value held when it is given (`infoAnswer_reports`), and all that an
INFO changes at a replica is how many of them it has counted. So a row of requests may have any
INFOs put in or left out anywhere, and no other answer changes and nothing else is found at the
replica in the end.

Main statement: `Replica.infos_truthful_traceless`.
-/

namespace DeltaMesh

/-- The answer to an INFO about the value `held?` and a content hash: what it says of the value is
so, and checksums come with another value than the one asked for, and never else. If the list is
short enough to be let through, then it is read as it was computed. -/
structure Holding.Reports (held? : Option ByteArray) (hash : Id) (blockSize : Nat)
    (holding : Holding) (checksums : Option ByteArray) : Prop where
  nothing : holding = .nothing ↔ held? = none
  same : holding = .same ↔ held?.map Id.ofContent = some hash
  other : holding = .other ↔ checksums.isSome
  checksums : ∀ value payload, held? = some value → checksums = some payload →
    (Wire.putSignature (.ofValue value blockSize)).size ≤ Wire.maxInflated →
      Wire.decodeSignature payload = .ok (.ofValue value blockSize)

theorem infoAnswer_reports (held? : Option ByteArray) (hash : Id) (timestamp : Int64)
    (blockSize : Nat) :
    ∃ (holding : Holding) (checksums : Option ByteArray),
      infoAnswer held? hash timestamp blockSize = .info holding timestamp checksums ∧
        holding.Reports held? hash blockSize checksums := by
  cases held? with
  | none =>
    refine ⟨.nothing, none, rfl, by simp, by simp, by simp, ?_⟩
    intro _ _ hvalue
    cases hvalue
  | some value =>
    rw [infoAnswer]
    split
    case isTrue hhash =>
      refine ⟨.same, none, rfl, by simp, by simp [hhash], by simp, ?_⟩
      intro _ _ _ hpayload
      cases hpayload
    case isFalse hhash =>
      refine ⟨.other, _, rfl, by simp, by simp [hhash], by simp, ?_⟩
      rintro _ _ ⟨rfl⟩ ⟨rfl⟩ hsize
      -- what is let through is short enough for its length to be told
      have hshort := Nat.lt_of_le_of_lt hsize (by decide : Wire.maxInflated < UInt32.size)
      exact (Wire.carried_signature _ hshort).ok hsize

namespace Replica

/-- The replicas differ at most in how many INFOs they have counted. -/
def EqualButInfos (r r' : Replica) : Prop :=
  ∃ infos, r' = { r with served := { r.served with infos } }

theorem conceals_info : Conceals (·.kind = .info) (fun _ _ => True) EqualButInfos where
  symm := by
    rintro r _ ⟨infos, rfl⟩
    exact ⟨r.served.infos, rfl⟩
  served := by
    rintro r _ task q ⟨infos, rfl⟩ -
    obtain ⟨locks, hserve, hlocks⟩ := r.serve_aside r.locks { r.served with infos } task q
    -- the locks are the same before and therefore after
    obtain rfl := hlocks rfl
    rw [hserve]
    refine ⟨rfl, infos + (ServedTally.ofAnswer q.kind (r.serve task q).1).infos, ?_⟩
    rw [served_serve]
    rfl
  silent := by
    rintro r _ task q ⟨infos, rfl⟩ hq
    cases q with
    | info key hash timestamp => exact ⟨infos + 1, rfl⟩
    | copy | sync => cases hq

theorem infos_serveAll (r : Replica) (qs : List (Nat × Request)) :
    (r.serveAll qs).2.served.infos = r.served.infos + qs.countP (·.2.kind = .info) := by
  induction qs generalizing r with
  | nil => rfl
  | cons q qs ih =>
    rw [serveAll_cons, ih, served_serve, ServedTally.infos_add, List.countP_cons, Nat.add_assoc,
      Nat.add_comm (qs.countP _)]
    simp [ServedTally.ofAnswer]

theorem blockSize_serveAll (r : Replica) (qs : List (Nat × Request)) :
    (r.serveAll qs).2.blockSize = r.blockSize := by
  induction qs generalizing r with
  | nil => rfl
  | cons q qs ih => rw [serveAll_cons, ih, blockSize_serve]

/-- Two rows of requests differ in INFOs only, which may have come in anywhere. All other requests
get the same answers, and in the end nothing differs but how many INFOs were counted. Each INFO is
answered, under its own timestamp, by what is held when its turn comes. -/
theorem infos_truthful_traceless (r : Replica) {keep : Nat × Request → Bool}
    {qs qs' : List (Nat × Request)}
    (hkeep : ∀ q ∈ qs ++ qs', keep q = false → q.2.kind = .info)
    (hsame : qs'.filter keep = qs.filter keep) :
    (r.exchanges qs').filter (fun e => keep e.1) = (r.exchanges qs).filter (fun e => keep e.1) ∧
      (r.serveAll qs').2 = { (r.serveAll qs).2 with
        served := { (r.serveAll qs).2.served with
          infos := r.served.infos + qs'.countP (·.2.kind = .info) } } ∧
      ∀ (front back : List (Nat × Request)) (task : Nat) (key : Key) (hash : Id)
        (timestamp : Int64), qs' = front ++ (task, .info key hash timestamp) :: back →
        ∃ holding checksums, (r.exchanges qs')[front.length]? =
            some ((task, .info key hash timestamp), .info holding timestamp checksums) ∧
          holding.Reports ((r.serveAll front).2.store.get? key) hash r.blockSize checksums := by
  obtain ⟨hqs, hqs'⟩ := List.forall_mem_append.mp hkeep
  obtain ⟨hexchanges, infos, hend⟩ := conceals_info.exchanges_eq
    (⟨r.served.infos, rfl⟩ : EqualButInfos r r) hqs hqs' hsame fun _ _ => trivial
  refine ⟨hexchanges, ?_, ?_⟩
  · -- the counts are those of the row itself
    have hcount := infos_serveAll r qs'
    rw [hend] at hcount
    rw [hend, ← hcount]
  · rintro front back task key hash timestamp rfl
    obtain ⟨holding, checksums, hanswer, hreports⟩ := infoAnswer_reports
      ((r.serveAll front).2.store.get? key) hash timestamp r.blockSize
    refine ⟨holding, checksums, ?_, hreports⟩
    rw [getElem?_exchanges, serve, answerInfo, blockSize_serveAll, hanswer]

/-- One INFO comes in before a COPY of the value that it asks for and one after it, and one more
asks for another value then and is answered with checksums. There was an INFO already. -/
theorem infos_truthful_traceless_around :
    let key := Key.firstUnder .zero
    let value : ByteArray := ⟨#[1, 2, 3]⟩
    let r := ofStore (.alone default) .empty 2
    let copy : Nat × Request := (0, .copy (.ofPairs [(key, value)]) 0)
    let info (task : Nat) (asked : ByteArray) (timestamp : Int64) : Nat × Request :=
      (task, .info key (.ofContent asked) timestamp)
    let qs := [copy, info 1 value 3]
    let qs' := [info 2 value 5, copy, info 3 value 7, info 4 ⟨#[4]⟩ 9, info 1 value 3]
    let keep (q : Nat × Request) : Bool := q.1 < 2
    (∀ q ∈ qs ++ qs', keep q = false → q.2.kind = .info) ∧
      qs'.filter keep = qs.filter keep ∧
      (r.exchanges qs').filter (fun e => keep e.1) = (r.exchanges qs).filter (fun e => keep e.1) ∧
      (r.exchanges qs')[0]? = some (info 2 value 5, .info .nothing 5 none) ∧
      (r.exchanges qs')[2]? = some (info 3 value 7, .info .same 7 none) ∧
      (∃ payload,
        (r.exchanges qs')[3]? = some (info 4 ⟨#[4]⟩ 9, .info .other 9 (some payload)) ∧
          Wire.decodeSignature payload = .ok (.ofValue value 2)) ∧
      (r.serveAll qs').2.served.infos = 4 := by
  intro key value r copy info qs qs' keep
  have hkeep : ∀ q ∈ qs ++ qs', keep q = false → q.2.kind = .info := by
    simp [qs, qs', copy, info, keep, Request.kind]
  have hsame : qs'.filter keep = qs.filter keep := rfl
  obtain ⟨hexchanges, hend, htold⟩ := infos_truthful_traceless r hkeep hsame
  have hheld : (r.serveAll [info 2 value 5, copy]).2.store.get? key = some value := by
    decide +kernel
  have hstill : (r.serveAll [info 2 value 5, copy, info 3 value 7]).2.store.get? key =
      some value := by
    decide +kernel
  refine ⟨hkeep, hsame, hexchanges, ?_, ?_, ?_, ?_⟩
  · obtain ⟨holding, checksums, hanswer, hreports⟩ := htold [] _ 2 key _ 5 rfl
    obtain rfl := hreports.nothing.mpr rfl
    have hnone : checksums = none := by simpa using hreports.other
    exact hnone ▸ hanswer
  · obtain ⟨holding, checksums, hanswer, hreports⟩ := htold [info 2 value 5, copy] _ 3 key _ 7 rfl
    rw [hheld] at hreports
    obtain rfl := hreports.same.mpr rfl
    have hnone : checksums = none := by simpa using hreports.other
    exact hnone ▸ hanswer
  · obtain ⟨holding, checksums, hanswer, hreports⟩ :=
      htold [info 2 value 5, copy, info 3 value 7] _ 4 key _ 9 rfl
    rw [hstill] at hreports
    -- a value is held, and it is not the one asked for
    have hother : Id.ofContent value ≠ .ofContent ⟨#[4]⟩ := by decide +kernel
    obtain rfl : holding = .other := by
      cases holding with
      | nothing => cases hreports.nothing.mp rfl
      | same => exact absurd (Option.some.inj (hreports.same.mp rfl)) hother
      | other => rfl
    obtain ⟨payload, rfl⟩ := Option.isSome_iff_exists.mp (hreports.other.mp rfl)
    have hsize : (Wire.putSignature (.ofValue value 2)).size ≤ Wire.maxInflated := by
      rw [Wire.size_putSignature, Wire.length_ofValue]
      decide
    exact ⟨payload, hanswer, hreports.checksums value payload rfl rfl hsize⟩
  · rw [hend]
    rfl

end Replica

end DeltaMesh
