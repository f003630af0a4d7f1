import DeltaMesh.Proofs.Delta.PlainScan
import DeltaMesh.Proofs.Exchange.Sends
import DeltaMesh.Proofs.Wire.Size

/-!
# What a delta costs over the value

The node makes its delta against whatever checksums the replica has answered. A reference never
stands alone for less than it costs, except for the short blocks that the value has room for and for
one suffix at the end, so that the payload of a SYNC is hardly longer than the value, however the
checksums were made up.

Main statement: what a delta adds to the value on the wire is bounded, and with blocks of at least
twenty bytes it is at most 28 bytes in any SYNC of a conversation (`overhead_le`).
-/

namespace DeltaMesh

open Exchange (Covers)

/-- A SYNC is about one of the values, and its payload has at most `overhead` bytes more. -/
def Request.Outgrows (overhead : Nat) (values : List (Key × ByteArray)) : Request → Prop
  | .sync key hash _ payload => ∃ value, (key, value) ∈ values ∧ hash = .ofContent value ∧
      payload.size ≤ value.size + overhead
  | .info .. | .copy .. => True

theorem covers_outgrows {t : Terms} {values : List (Key × ByteArray)} (hblock : 20 ≤ t.blockSize)
    {key : Key} {value : ByteArray} (hmem : (key, value) ∈ values) :
    Covers (Request.Outgrows 28 values) t key value where
  info := trivial
  copy _ := trivial
  sync signature _ := ⟨value, hmem, rfl, Wire.size_encodeDelta_diff_le signature value hblock⟩

/-- A delta against any signature is at most 28 bytes longer on the wire than the value, and in
addition, for each block that the value has room for, by as much as the block is shorter than twenty
bytes. With longer blocks no SYNC that brings values to a replica outgrows its value by more than 28
bytes, whatever the replica answers. -/
theorem overhead_le :
    (∀ (s : Signature) (value : ByteArray) (blockSize : Nat),
      (Wire.encodeDelta (diff s value blockSize)).size ≤
        value.size + 28 + (20 - blockSize) * (value.size / blockSize)) ∧
    ∀ (t : Terms) (peer : Peer) (values : List (Key × ByteArray)), 20 ≤ t.blockSize →
      (reconcileReplica t peer values).Sends (Request.Outgrows 28 values) := by
  refine ⟨Wire.size_encodeDelta_diff_le_add, fun t peer values hblock => ?_⟩
  exact Exchange.sends_reconcileReplica t peer fun p hmem => covers_outgrows hblock hmem

/-- The replica holds a block of twenty bytes and a short one, and in the new value a byte has been
put in front of either of them. The delta has a literal for each of the new bytes and a reference
behind each literal, and on the wire it is longer than the value. -/
theorem overhead_le_mixed :
    let key : Key := ⟨.ofNat 1, .ofNat 2, .ofNat 3⟩
    let t : Terms := ⟨20, 1024, 0⟩
    let base : ByteArray := ⟨#[1, 2, 3, 4, 5, 6, 7, 8, 9, 10, 11, 12, 13, 14, 15, 16, 17, 18, 19,
      20, 21, 22]⟩
    let value : ByteArray := ⟨#[31, 1, 2, 3, 4, 5, 6, 7, 8, 9, 10, 11, 12, 13, 14, 15, 16, 17, 18,
      19, 20, 32, 21, 22]⟩
    let delta := diff (.ofValue base t.blockSize) value t.blockSize
    delta = [.literal ⟨#[31]⟩, .reference 0, .literal ⟨#[32]⟩, .reference 1] ∧
      value.size < (Wire.encodeDelta delta).size ∧
      (Wire.encodeDelta delta).size ≤ value.size + 28 ∧
      20 ≤ t.blockSize ∧
      (reconcileReplica t default [(key, value)]).Sends (Request.Outgrows 28 [(key, value)]) := by
  intro key t base value delta
  have hsums : Signature.ofValue base 20 ≠ [] := by
    decide +kernel
  have hblockFound :
      Plain.place? (.ofValue base 20) (value.extract (0 + 1) (0 + 1 + 20)) = some 0 := by
    decide +kernel
  have hshortFound :
      Plain.place? (.ofValue base 20) (value.extract (24 - (1 + 1)) 24) = some 1 := by
    decide +kernel
  have hfront : value.extract 0 (0 + 1) = ⟨#[31]⟩ := by
    decide +kernel
  have hback : value.extract 21 (value.size - (1 + 1)) = ⟨#[32]⟩ := by
    decide +kernel
  have hdelta : delta = [.literal ⟨#[31]⟩, .reference 0, .literal ⟨#[32]⟩, .reference 1] := by
    show diff (.ofValue base 20) value 20 = _
    rw [diff_eq_scan (by decide) hsums (by decide),
      Plain.scan_of_none (by decide) (by decide +kernel),
      Plain.scan_of_some (by decide) hblockFound, Plain.scan_of_short (by decide)]
    -- the last three bytes are no block together, and the last two are
    show _ ++ _ :: Plain.finish (.ofValue base 20) value 21 (2 + 1) = _
    rw [Plain.finish_of_none (by decide +kernel), Plain.finish_of_some hshortFound, hfront, hback]
    rfl
  have hblock : 20 ≤ t.blockSize := Nat.le_refl 20
  obtain ⟨hsize, hsends⟩ := overhead_le
  have hle : (Wire.encodeDelta delta).size ≤ value.size + 28 := by
    have hadd := hsize (.ofValue base 20) value 20
    rwa [Nat.sub_self, Nat.zero_mul, Nat.add_zero] at hadd
  have hlonger : value.size < (Wire.encodeDelta delta).size := by
    rw [hdelta]
    decide +kernel
  exact ⟨hdelta, hlonger, hle, hblock, hsends t default [(key, value)] hblock⟩

end DeltaMesh
