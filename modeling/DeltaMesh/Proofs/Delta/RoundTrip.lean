import DeltaMesh.Delta.Rebuild
import DeltaMesh.Proofs.Bytes.Cursor
import DeltaMesh.Proofs.Delta.Tiling

/-!
# A delta rebuilds the new value

A delta is made against the signature of an old value, which says nothing about the old value but
the sums of its blocks. Rebuilding works as long as the strong hash separates the windows of the
new value from the blocks of the old one (`Separates`); the block size that the new value is
searched with need not be the one that the signature was made with.

Main statement: on top of the old value, the delta rebuilds the new one (`rebuild_diff`).
-/

namespace DeltaMesh

/-- A window of `value` that has the strong hash of a block of `base` has the bytes of that
block. -/
def Separates (value base : ByteArray) (blockSize : Nat) : Prop :=
  ∀ stop, stop ≤ value.size → ∀ start, start < stop →
    ∀ index, index < blockCount base.size blockSize →
      strongHash (value.extract start stop) = strongHash (blockAt base blockSize index) →
        value.extract start stop = blockAt base blockSize index

instance (value base : ByteArray) (blockSize : Nat) :
    Decidable (Separates value base blockSize) :=
  inferInstanceAs (Decidable (∀ stop, stop ≤ _ → ∀ start, start < stop → ∀ index, index < _ →
    strongHash _ = strongHash _ → (_ : ByteArray) = _))

/-! ### Replaying a delta -/

/-- Every block that the delta names is a block of `base`. -/
def Delta.InRange (base : ByteArray) (blockSize : Nat) (delta : Delta) : Prop :=
  ∀ index, .reference index ∈ delta → index.toNat < blockCount base.size blockSize

theorem Delta.inRange_cons {base : ByteArray} {blockSize : Nat} {i : Instruction} {delta : Delta} :
    InRange base blockSize (i :: delta) ↔
      (∀ index, .reference index = i → index.toNat < blockCount base.size blockSize) ∧
        delta.InRange base blockSize := by
  simp only [InRange, List.mem_cons, or_imp, forall_and]

/-- The bytes that a delta adds behind `out`. -/
def Delta.replay (base : ByteArray) (blockSize : Nat) (delta : Delta) (out : ByteArray) :
    ByteArray :=
  delta.foldl (fun out i => out ++ i.bytesFrom base blockSize) out

section

variable {base : ByteArray} {blockSize : Nat} {delta : Delta}

theorem blockRange_of_lt {length : Nat} {index : UInt32}
    (h : index.toNat < blockCount length blockSize) : blockRange length blockSize index =
      .ok (blockStart blockSize index.toNat, blockStop length blockSize index.toNat) :=
  if_pos h

/-- An instruction is counted with as many bytes as it adds: a block that the value has is as long
as its bounds say. -/
theorem Instruction.measure_eq_ok {i : Instruction}
    (h : ∀ index, .reference index = i → index.toNat < blockCount base.size blockSize) :
    i.measure base blockSize = .ok (i.bytesFrom base blockSize).size := by
  cases i with
  | literal bytes => rfl
  | reference index =>
    have hsize : (blockAt base blockSize index.toNat).size =
        blockStop base.size blockSize index.toNat - blockStart blockSize index.toNat := by
      rw [blockAt, ByteArray.size_extract, blockStop, Nat.min_eq_left (Nat.min_le_right _ _)]
    rw [measure, blockRange_of_lt (h index rfl), bytesFrom, hsize]
    rfl

theorem Delta.check_eq_ok (h : delta.InRange base blockSize) :
    delta.check base blockSize = .ok () := by
  induction delta with
  | nil => rfl
  | cons i delta ih =>
    obtain ⟨hi, hrest⟩ := inRange_cons.mp h
    have htail := ih hrest
    rw [check] at htail ⊢
    rw [List.forM_cons, Instruction.measure_eq_ok hi]
    exact htail

theorem rebuild_of_inRange (h : delta.InRange base blockSize) :
    rebuild base delta blockSize = .ok (delta.replay base blockSize .empty) := by
  rw [rebuild, Delta.check_eq_ok h]
  rfl

end

/-! ### Segments against the value they were found in -/

section

variable {base value : ByteArray} {blockSize : Nat}

/-- A block of the old value that a window hits has the bytes of the window. -/
theorem blockAt_of_hit (hsep : Separates value base blockSize) {block start stop : Nat}
    (hlt : start < stop) (hstop : stop ≤ value.size)
    (hit : Hit (.ofValue base blockSize) value block start stop) :
    block < blockCount base.size blockSize ∧
      blockAt base blockSize block = value.extract start stop := by
  obtain ⟨hblock, hstrong⟩ := strongHash_eq_of_idxOf? hit
  exact ⟨hblock, (hsep stop hstop start hlt block hblock hstrong).symm⟩

/-- The instructions of a tiling name blocks of the old value only, and replaying them goes on
from the beginning of the tiled stretch to its end. -/
theorem replay_of_tiles (hbase : blockCount base.size blockSize ≤ UInt32.size)
    (hsep : Separates value base blockSize) {start stop : Nat} {l : List Segment}
    (hstop : stop ≤ value.size) (h : Tiles (.ofValue base blockSize) value start stop l) :
    Delta.InRange base blockSize (l.map (Segment.instruction value)) ∧
      Delta.replay base blockSize (l.map (Segment.instruction value)) (value.extract 0 start) =
        value.extract 0 stop := by
  induction h with
  | nil pos => exact ⟨fun _ hmem => absurd hmem List.not_mem_nil, rfl⟩
  | @literal start mid stop rest hlt tail ih =>
    obtain ⟨hrange, hreplay⟩ := ih hstop
    refine ⟨Delta.inRange_cons.mpr ⟨fun index heq => ?_, hrange⟩, ?_⟩
    · cases heq
    · rw [← hreplay, ← extract_zero_append value (Nat.le_of_lt hlt)]
      rfl
  | @reference block start mid stop rest hlt hit tail ih =>
    obtain ⟨hrange, hreplay⟩ := ih hstop
    -- the block that was hit has the bytes of the window, which come next in the value
    obtain ⟨hblock, hbytes⟩ := blockAt_of_hit hsep hlt (Nat.le_trans tail.le hstop) hit
    have hindex := toNat_toUInt32_of_lt hbase hblock
    refine ⟨Delta.inRange_cons.mpr ⟨fun index heq => ?_, hrange⟩, ?_⟩
    · cases heq
      rwa [hindex]
    · have hstep : value.extract 0 start ++ blockAt base blockSize block.toUInt32.toNat =
          value.extract 0 mid := by
        rw [hindex, hbytes, extract_zero_append value (Nat.le_of_lt hlt)]
      rw [← hreplay, ← hstep]
      rfl

end

/-- A delta against a value of up to 2³² blocks. -/
theorem rebuild_diff_of_blockCount {base value : ByteArray} {blockSize : Nat} (windowSize : Nat)
    (hbase : blockCount base.size blockSize ≤ UInt32.size)
    (hsep : Separates value base blockSize) :
    rebuild base (diff (.ofValue base blockSize) value windowSize) blockSize = .ok value := by
  have htiles := segments_tile (.ofValue base blockSize) value windowSize
  obtain ⟨hrange, hreplay⟩ := replay_of_tiles hbase hsep (Nat.le_refl _) htiles
  have hstart : value.extract 0 0 = .empty := ByteArray.extract_same
  rw [hstart, ByteArray.extract_zero_size] at hreplay
  rw [diff, rebuild_of_inRange hrange, hreplay]

/-- On top of the old value, a delta against its signature rebuilds the new value, whatever the two
block sizes are. The only assumption about the strong hash is that it separates the stretches of the
two values that the scan compares; that weak checksums collide does no harm. -/
theorem rebuild_diff (base value : ByteArray) (blockSize windowSize : Nat)
    (hbase : base.size < UInt32.size) (hsep : Separates value base blockSize) :
    rebuild base (diff (.ofValue base blockSize) value windowSize) blockSize = .ok value := by
  have hcount : blockCount base.size blockSize ≤ UInt32.size :=
    Nat.le_trans (blockCount_le base.size blockSize) (Nat.le_of_lt hbase)
  exact rebuild_diff_of_blockCount windowSize hcount hsep

/-- A block that has moved to the end is found although the windows are longer than the blocks. -/
theorem rebuild_diff_moved_block :
    Separates ⟨#[3, 7, 1, 2]⟩ ⟨#[1, 2, 5]⟩ 2 ∧
      rebuild ⟨#[1, 2, 5]⟩ (diff (.ofValue ⟨#[1, 2, 5]⟩ 2) ⟨#[3, 7, 1, 2]⟩ 3) 2 =
        .ok ⟨#[3, 7, 1, 2]⟩ :=
  have hsep : Separates ⟨#[3, 7, 1, 2]⟩ ⟨#[1, 2, 5]⟩ 2 := by decide +kernel
  ⟨hsep, rebuild_diff ⟨#[1, 2, 5]⟩ ⟨#[3, 7, 1, 2]⟩ 2 3 (by decide) hsep⟩

end DeltaMesh
