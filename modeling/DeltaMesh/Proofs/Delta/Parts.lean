import DeltaMesh.Proofs.Bytes.Cursor
import DeltaMesh.Proofs.Delta.Tiling
import Mathlib.Data.List.Chain
import Mathlib.Data.List.Forall2

/-!
# The parts of the new value

Every instruction of a delta stands for a part of the new value. The signature may come from
anywhere, and the blocks that it was made of play no part: a reference is made for a part because
the sums of the part stand in the signature (`Instruction.Makes`), and its length is one that was
looked up. `Parts` says how the parts and their instructions lie: the parts are not empty and make
up the value, references stand for whole blocks but for one at the end, and between two literals
there is a reference.

The last two hold of what the scan has found at any time, as long as it found full windows
(`Scan.Steady`): a literal is only made where a reference or the end of the value follows at once.

Main statement: a delta has such parts, whatever the signature (`diff_parts`).
-/

namespace DeltaMesh

/-- A literal carries the bytes of its part; a reference names the lowest block of the signature
that has both checksums of its part. -/
inductive Instruction.Makes (s : Signature) : Instruction → ByteArray → Prop
  | literal (part : ByteArray) : Makes s (.literal part) part
  | reference {block : UInt32} {part : ByteArray}
      (sums : s[block.toNat]? = some (.ofBlock part))
      (lowest : ∀ i < block.toNat, s[i]? ≠ some (.ofBlock part)) :
      Makes s (.reference block) part

def Instruction.IsLiteral : Instruction → Prop
  | .literal _ => True
  | .reference _ => False

/-- The parts of `value`, one for each instruction of `delta`. -/
structure Parts (s : Signature) (value : ByteArray) (blockSize : Nat) (delta : Delta)
    (parts : List ByteArray) : Prop where
  whole : parts.foldl (· ++ ·) .empty = value
  made : List.Forall₂ (Instruction.Makes s) delta parts
  nonempty : ∀ part ∈ parts, 0 < part.size
  /-- Only the last instruction may stand for less than a block. -/
  lengths : ∀ k block part, delta[k]? = some (.reference block) → parts[k]? = some part →
    part.size = blockSize ∨ k + 1 = delta.length ∧ part.size < blockSize
  apart : delta.IsChain fun i j => ¬(i.IsLiteral ∧ j.IsLiteral)

namespace Segment

def IsLiteral : Segment → Prop
  | .literal _ _ => True
  | .reference _ _ _ => False

def length : Segment → Nat
  | .literal start stop | .reference _ start stop => stop - start

/-- The bytes of the value that a segment covers. -/
def bytes (value : ByteArray) : Segment → ByteArray
  | .literal start stop | .reference _ start stop => value.extract start stop

theorem isLiteral_instruction (value : ByteArray) (segment : Segment) :
    (segment.instruction value).IsLiteral ↔ segment.IsLiteral := by
  cases segment <;> exact Iff.rfl

end Segment

/-- No two literals are next to each other. -/
abbrev Apart (l : List Segment) : Prop := l.IsChain fun a b => ¬(a.IsLiteral ∧ b.IsLiteral)

namespace Scan

variable {ix : Index} {value : ByteArray} {blockSize : Nat}

/-- Literals lie apart, and references are as long as a block. -/
structure Steady (blockSize : Nat) (l : List Segment) : Prop where
  apart : Apart l
  full : ∀ segment ∈ l, ¬segment.IsLiteral → segment.length = blockSize

/-- A segment may be added unless it is a literal behind a literal. -/
theorem apart_concat {l : List Segment} {segment : Segment} (h : Apart l)
    (hlast : ∀ last ∈ l.getLast?, ¬(last.IsLiteral ∧ segment.IsLiteral)) :
    Apart (l ++ [segment]) := by
  refine h.append (List.isChain_singleton _) fun last hmem next hnext => ?_
  rw [List.head?_cons, Option.mem_some_iff] at hnext
  exact hnext ▸ hlast last hmem

/-- A literal may be added if there is none at the end yet. -/
theorem steady_pushLiteral {done : Array Segment} (start stop : Nat)
    (h : Steady blockSize done.toList) (hlast : ∀ last ∈ done.toList.getLast?, ¬last.IsLiteral) :
    Steady blockSize (pushLiteral done start stop).toList := by
  rw [pushLiteral]
  split
  case isTrue =>
    rw [Array.toList_push]
    refine ⟨apart_concat h.apart fun last hmem hboth => hlast last hmem hboth.1, ?_⟩
    refine fun segment hmem hreference => ?_
    rcases List.mem_append.mp hmem with hmem | hmem
    · exact h.full segment hmem hreference
    · exact absurd (List.mem_singleton.mp hmem ▸ trivial) hreference
  case isFalse => exact h

/-- A reference may follow anything. -/
theorem apart_pushReference {l : List Segment} (h : Apart l) (block start stop : Nat) :
    Apart (l ++ [.reference block start stop]) :=
  apart_concat h fun _ _ hboth => hboth.2

/-- A reference to a full block may always be added. -/
theorem steady_pushReference {l : List Segment} (h : Steady blockSize l) (block : Nat)
    {start stop : Nat} (hlength : stop - start = blockSize) :
    Steady blockSize (l ++ [.reference block start stop]) := by
  refine ⟨apart_pushReference h.apart .., fun segment hmem hreference => ?_⟩
  rcases List.mem_append.mp hmem with hmem | hmem
  · exact h.full segment hmem hreference
  · exact List.mem_singleton.mp hmem ▸ hlength

/-- After full windows the last segment is a reference, if it was before: a literal is only written
in front of one. -/
theorem steady_fullBlocks (hpos : 0 < blockSize) {pos : Nat} {done : Array Segment}
    (h : Steady blockSize done.toList) (hlast : ∀ last ∈ done.toList.getLast?, ¬last.IsLiteral) :
    Steady blockSize (fullBlocks ix value blockSize hpos pos done).1.toList ∧
      ∀ last ∈ (fullBlocks ix value blockSize hpos pos done).1.toList.getLast?,
        ¬last.IsLiteral := by
  induction pos, done using fullBlocks.induct ix value blockSize hpos with
  | case1 pos done hnone =>
    rw [fullBlocks]
    split
    case h_1 => exact ⟨h, hlast⟩
    case h_2 hsome => rw [hnone] at hsome; cases hsome
  | case2 pos done off block hmatch _ ih =>
    rw [fullBlocks]
    split
    case h_1 hnone => rw [hmatch] at hnone; cases hnone
    case h_2 hsome =>
      obtain ⟨rfl, rfl⟩ := Prod.mk.inj (Option.some.inj (hmatch.symm.trans hsome))
      have hsteady := steady_pushReference (steady_pushLiteral pos off h hlast) block
        (Nat.add_sub_cancel_left off blockSize)
      rw [← Array.toList_push] at hsteady
      refine ih hsteady fun last hmem => ?_
      rw [Array.toList_push, List.getLast?_concat, Option.mem_some_iff] at hmem
      exact hmem ▸ id

end Scan

/-- Literals lie apart, and only the last reference may be shorter than a block. -/
structure Tidy (blockSize : Nat) (l : List Segment) : Prop where
  apart : Apart l
  lengths : ∀ k segment, l[k]? = some segment → ¬segment.IsLiteral →
    segment.length = blockSize ∨ k + 1 = l.length ∧ segment.length < blockSize

namespace Scan

variable {ix : Index} {value : ByteArray} {blockSize : Nat}

theorem Steady.tidy {l : List Segment} (h : Steady blockSize l) : Tidy blockSize l :=
  ⟨h.apart, fun _ segment hk hreference =>
    .inl (h.full segment (List.mem_of_getElem? hk) hreference)⟩

/-- A short reference may be added as the last segment. -/
theorem tidy_pushReference {l : List Segment} (h : Steady blockSize l) (block : Nat)
    {start stop : Nat} (hlength : stop - start < blockSize) :
    Tidy blockSize (l ++ [.reference block start stop]) := by
  refine ⟨apart_pushReference h.apart .., fun k segment hk hreference => ?_⟩
  rw [List.length_append, List.length_singleton]
  rcases Nat.lt_or_ge k l.length with hlt | hge
  · rw [List.getElem?_append_left hlt] at hk
    exact .inl (h.full segment (List.mem_of_getElem? hk) hreference)
  · rw [List.getElem?_append_right hge, List.getElem?_singleton] at hk
    split at hk
    case isTrue hzero =>
      exact .inr ⟨by omega, Option.some.inj hk ▸ hlength⟩
    case isFalse => cases hk

/-- The end of the scan adds at most a literal and a short reference, in this order. -/
theorem tidy_finish {s : Signature} {pos : Nat} {done : Array Segment} (hpos : 0 < blockSize)
    (h : Steady blockSize done.toList) (hlast : ∀ last ∈ done.toList.getLast?, ¬last.IsLiteral) :
    Tidy blockSize (finish (.ofSignature s) value blockSize pos done).toList := by
  rw [finish]
  split
  case h_1 start block hmatch =>
    obtain ⟨hstart, hlt, -⟩ := hit_of_suffixMatch (Nat.sub_le ..) hmatch
    rw [Array.toList_push]
    exact tidy_pushReference (steady_pushLiteral pos start h hlast) block (by omega)
  case h_2 => exact (steady_pushLiteral pos value.size h hlast).tidy

end Scan

/-- The scan never leaves two literals side by side: one is only written when a reference follows,
or at the very end. -/
theorem segments_tidy (s : Signature) (value : ByteArray) (blockSize : Nat) :
    Tidy blockSize (segments s value blockSize) := by
  have hnil : Scan.Steady blockSize [] := ⟨.nil, fun _ hmem => absurd hmem List.not_mem_nil⟩
  rw [segments]
  split
  case isTrue => exact hnil.tidy
  case isFalse =>
    split
    case isTrue h =>
      obtain ⟨hsteady, hlast⟩ :=
        @Scan.steady_fullBlocks (.ofSignature s) value blockSize h.1 0 #[] hnil (by rintro _ ⟨⟩)
      exact Scan.tidy_finish h.1 hsteady hlast
    case isFalse =>
      refine Scan.Steady.tidy ⟨List.isChain_singleton _, fun segment hmem hreference => ?_⟩
      exact absurd (List.mem_singleton.mp hmem ▸ trivial) hreference

/-! ### The parts that the segments cover -/

section

variable {s : Signature} {value : ByteArray} {start stop : Nat} {l : List Segment}

/-- A reference stands for the stretch whose checksums it was found by. -/
theorem Instruction.Makes.of_hit {block mid : Nat} (hs : s.length ≤ UInt32.size)
    (hit : Hit s value block start mid) :
    Makes s (.reference block.toUInt32) (value.extract start mid) := by
  rw [Hit, List.idxOf?, List.findIdx?_eq_some_iff_getElem] at hit
  obtain ⟨hlt, hsum, hlowest⟩ := hit
  have hindex := toNat_toUInt32_of_lt hs hlt
  refine .reference ?_ fun i hi hsame => ?_
  · rw [hindex, List.getElem?_eq_getElem hlt]
    exact congrArg some (beq_iff_eq.mp hsum)
  · rw [hindex] at hi
    rw [List.getElem?_eq_getElem (Nat.lt_trans hi hlt)] at hsame
    exact hlowest i hi (beq_iff_eq.mpr (Option.some.inj hsame))

/-- Every segment of a tiling makes its stretch of the new value. -/
theorem Tiles.made (hs : s.length ≤ UInt32.size) (h : Tiles s value start stop l) :
    List.Forall₂ (Instruction.Makes s) (l.map (Segment.instruction value))
      (l.map (Segment.bytes value)) := by
  induction h with
  | nil => exact .nil
  | literal _ _ ih => exact .cons (.literal _) ih
  | reference _ hit _ ih => exact .cons (.of_hit hs hit) ih

/-- The bytes of the segments follow those before the first one; put together from the beginning
they are the value. -/
theorem Tiles.whole (h : Tiles s value start stop l) :
    (l.map (Segment.bytes value)).foldl (· ++ ·) (value.extract 0 start) =
      value.extract 0 stop := by
  induction h with
  | nil => rfl
  | literal hlt _ ih | reference hlt _ _ ih =>
    rw [← ih, ← extract_zero_append value (Nat.le_of_lt hlt)]
    rfl

/-- Segments are not empty, and lie inside the value. -/
theorem Tiles.size_bytes (h : Tiles s value start stop l) (hstop : stop ≤ value.size) :
    ∀ segment ∈ l, (segment.bytes value).size = segment.length ∧ 0 < segment.length := by
  induction h with
  | nil => exact fun _ hmem => absurd hmem List.not_mem_nil
  | literal hlt tail ih | reference hlt _ tail ih =>
    have hle := Nat.le_trans tail.le hstop
    refine List.forall_mem_cons.mpr ⟨⟨?_, Nat.sub_pos_of_lt hlt⟩, ih hstop⟩
    rw [Segment.bytes, ByteArray.size_extract, Nat.min_eq_left hle, Segment.length]

end

/-- A delta has parts that make up the new value, whatever signature it was made against: nothing is
assumed about either hash. References are to full blocks, but for a last one to a short block; each
names the first block with the checksums of its part; and no two literals stand side by side. -/
theorem diff_parts (s : Signature) (value : ByteArray) (blockSize : Nat)
    (hs : s.length ≤ UInt32.size) :
    ∃ parts, Parts s value blockSize (diff s value blockSize) parts := by
  have htiles := segments_tile s value blockSize
  have htidy := segments_tidy s value blockSize
  have hsize := htiles.size_bytes (Nat.le_refl _)
  refine ⟨(segments s value blockSize).map (Segment.bytes value), ?_, htiles.made hs, ?_, ?_, ?_⟩
  case refine_1 =>
    have hwhole := htiles.whole
    rwa [ByteArray.extract_same, ByteArray.extract_zero_size] at hwhole
  case refine_2 =>
    refine List.forall_mem_map.mpr fun segment hmem => ?_
    obtain ⟨heq, hpos⟩ := hsize segment hmem
    rwa [heq]
  case refine_3 =>
    intro k block part hk hpart
    rw [diff, List.getElem?_map, Option.map_eq_some_iff] at hk
    obtain ⟨segment, hk, hinstruction⟩ := hk
    rw [List.getElem?_map, hk] at hpart
    have hreference : ¬segment.IsLiteral := by
      rw [← segment.isLiteral_instruction value, hinstruction]
      exact id
    obtain ⟨heq, -⟩ := hsize segment (List.mem_of_getElem? hk)
    rw [← Option.some.inj hpart, heq, diff, List.length_map]
    exact htidy.lengths k segment hk hreference
  case refine_4 =>
    rw [diff, List.isChain_map]
    refine htidy.apart.imp fun a b happart hboth => happart ?_
    exact hboth.imp (a.isLiteral_instruction value).mp (b.isLiteral_instruction value).mp

/-- The block that is shorter comes first in the signature, and the other one twice. -/
theorem diff_parts_short_first :
    ([.ofBlock ⟨#[5]⟩, .ofBlock ⟨#[1, 2]⟩, .ofBlock ⟨#[1, 2]⟩] : Signature).length ≤
        UInt32.size ∧
      ∃ parts, Parts [.ofBlock ⟨#[5]⟩, .ofBlock ⟨#[1, 2]⟩, .ofBlock ⟨#[1, 2]⟩]
        ⟨#[7, 1, 2, 5]⟩ 2
        (diff [.ofBlock ⟨#[5]⟩, .ofBlock ⟨#[1, 2]⟩, .ofBlock ⟨#[1, 2]⟩] ⟨#[7, 1, 2, 5]⟩ 2)
        parts :=
  ⟨by decide, diff_parts _ _ _ (by decide)⟩

end DeltaMesh
