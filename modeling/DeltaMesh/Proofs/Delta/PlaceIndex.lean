import DeltaMesh.Proofs.Delta.Lookup
import Mathlib.Data.Set.Basic
import Mathlib.Order.Bounds.Defs

/-!
# An index of places

An index need not copy the strong hashes. It can hold places only, thirty-two bits for each block,
grouped by weak checksum, and read the strong hashes in the signature (`PlaceIndex`). The blocks are
entered from the first to the last, each behind its group. Reading checks the bounds, so that a
place at which the signature has no block would show (`NoBlock`).

Entering keeps the groups complete and in order: the group of a weak checksum lists the places of
exactly the blocks that have it, from the lowest to the highest (`group_ofSignature`). The first
place of the group with the strong hash of the window is then the first of the whole signature with
both checksums.

Main statement: in a signature of at most `2 ^ 32` blocks, this index and the one that keeps the
strong hashes find a window at the least place that has the weak checksum asked for and the strong
hash of the window (`find_exact`).
-/

namespace DeltaMesh

/-- The places at which a block with these two checksums stands. -/
def Signature.places (s : Signature) (weak : UInt32) (strong : StrongHash) : Set Nat :=
  {place | s[place]? = some ⟨weak, strong⟩}

/-- A signature of `blocks` blocks has none at `place`. -/
structure NoBlock where
  place : UInt32
  blocks : Nat
  deriving DecidableEq

/-- A signature and the places of its blocks, grouped by weak checksum. -/
structure PlaceIndex where
  blocks : Signature
  byWeak : Std.HashMap UInt32 (Array UInt32)

namespace PlaceIndex

/-- Puts `place`, at which the block `b` stands, behind its group. -/
def enter (b : BlockSum) (place : Nat) (byWeak : Std.HashMap UInt32 (Array UInt32)) :
    Std.HashMap UInt32 (Array UInt32) :=
  byWeak.alter b.weak fun group => some ((group.getD #[]).push place.toUInt32)

/-- Enters the blocks of a signature from first to last. -/
def ofSignature (s : Signature) : PlaceIndex :=
  ⟨s, s.zipIdx.foldl (fun byWeak (b, place) => enter b place byWeak) ∅⟩

/-- Reads the blocks at the places of a group one after the other, up to the first that has the
strong hash `strong`. -/
def search (s : Signature) (strong : StrongHash) :
    List UInt32 → Except NoBlock (Option UInt32)
  | [] => .ok none
  | place :: group =>
    match s[place.toNat]? with
    | none => .error ⟨place, s.length⟩
    | some b => if b.strong = strong then .ok (some place) else search s strong group

/-- The lowest place with the weak checksum `weak` and the strong hash of `window`. The hash is
computed only if some block has the weak checksum. -/
def find (ix : PlaceIndex) (weak : UInt32) (window : ByteArray) :
    Except NoBlock (Option UInt32) :=
  match ix.byWeak[weak]? with
  | none => .ok none
  | some group => search ix.blocks (strongHash window) group.toList

/-! ### The groups -/

/-- The places that are grouped under `weak`, in the order in which they were entered. -/
def group (byWeak : Std.HashMap UInt32 (Array UInt32)) (weak : UInt32) : List UInt32 :=
  (byWeak[weak]?.getD #[]).toList

variable {s : Signature} {weak : UInt32} {strong : StrongHash}

theorem group_enter (b : BlockSum) (place : Nat) (byWeak : Std.HashMap UInt32 (Array UInt32)) :
    group (enter b place byWeak) weak =
      if b.weak = weak then group byWeak weak ++ [place.toUInt32] else group byWeak weak := by
  simp only [group, enter, Std.HashMap.getElem?_alter, beq_iff_eq]
  split
  case isTrue h => rw [h, Option.getD_some, Array.toList_push]
  case isFalse h => rfl

/-- What entering a row of blocks adds to a group: the places of those with its weak checksum, in
their order. -/
theorem group_foldl (row : List (BlockSum × Nat))
    (byWeak : Std.HashMap UInt32 (Array UInt32)) :
    group (row.foldl (fun byWeak (b, place) => enter b place byWeak) byWeak) weak =
      group byWeak weak ++
        (row.filter fun entry => entry.1.weak = weak).map fun entry => entry.2.toUInt32 := by
  induction row generalizing byWeak with
  | nil => rw [List.foldl_nil, List.filter_nil, List.map_nil, List.append_nil]
  | cons entry row ih =>
    rw [List.foldl_cons, ih, group_enter]
    by_cases h : entry.1.weak = weak
    · rw [if_pos h, List.filter_cons_of_pos (by simpa using h), List.map_cons, List.append_assoc]
      rfl
    · rw [if_neg h, List.filter_cons_of_neg (by simpa using h)]

/-- A group lists the places of the blocks with its weak checksum, from the lowest to the
highest. -/
theorem group_ofSignature (s : Signature) (weak : UInt32) :
    group (ofSignature s).byWeak weak =
      (s.zipIdx.filter fun entry => entry.1.weak = weak).map fun entry => entry.2.toUInt32 := by
  rw [ofSignature, group_foldl, group, Std.HashMap.getElem?_empty]
  rfl

/-- A place of thirty-two bits still names its block. -/
theorem getElem?_of_mem_zipIdx (h : s.length ≤ UInt32.size) {entry : BlockSum × Nat}
    (hmem : entry ∈ s.zipIdx) : s[entry.2.toUInt32.toNat]? = some entry.1 := by
  have hentry := List.mem_zipIdx_iff_getElem?.mp hmem
  obtain ⟨hlt, -⟩ := List.getElem?_eq_some_iff.mp hentry
  rw [toNat_toUInt32_of_lt h hlt, hentry]

theorem lt_length_of_mem_group (h : s.length ≤ UInt32.size) {place : UInt32}
    (hmem : place ∈ group (ofSignature s).byWeak weak) : place.toNat < s.length := by
  rw [group_ofSignature] at hmem
  obtain ⟨entry, hentry, rfl⟩ := List.mem_map.mp hmem
  have hread := getElem?_of_mem_zipIdx h (List.mem_filter.mp hentry).1
  exact (List.getElem?_eq_some_iff.mp hread).1

/-! ### Searching a group -/

theorem find_eq (ix : PlaceIndex) (weak : UInt32) (window : ByteArray) :
    ix.find weak window = search ix.blocks (strongHash window) (group ix.byWeak weak) := by
  rw [find, group]
  cases ix.byWeak[weak]? <;> rfl

/-- Where every place names its block, a search does not run out of the signature. -/
theorem search_map {row : List (BlockSum × Nat)}
    (h : ∀ entry ∈ row, s[entry.2.toUInt32.toNat]? = some entry.1) :
    search s strong (row.map fun entry => entry.2.toUInt32) =
      .ok ((row.find? fun entry => entry.1.strong = strong).map fun entry => entry.2.toUInt32) := by
  induction row with
  | nil => rfl
  | cons entry row ih =>
    obtain ⟨hentry, hrow⟩ := List.forall_mem_cons.mp h
    rw [List.map_cons, search, hentry]
    by_cases hstrong : entry.1.strong = strong
    · rw [List.find?_cons_of_pos (by simpa using hstrong)]
      exact if_pos hstrong
    · rw [List.find?_cons_of_neg (by simpa using hstrong), ← ih hrow]
      exact if_neg hstrong

/-- The first of the blocks with the weak checksum that has the strong hash is the first block
with both. -/
theorem find?_filter_weak (row : List (BlockSum × Nat)) :
    ((row.filter fun entry => entry.1.weak = weak).find? fun entry => entry.1.strong = strong) =
      row.find? fun entry => entry.1 == ⟨weak, strong⟩ := by
  rw [List.find?_filter]
  refine congrArg (List.find? · row) (funext fun entry => ?_)
  obtain ⟨⟨weak', strong'⟩, place⟩ := entry
  rw [Bool.eq_iff_iff, beq_iff_eq, BlockSum.mk.injEq]
  simp only [decide_eq_true_iff]

/-- Looking up the weak checksum among the groups and the strong hash in its group is looking up
the pair in the signature. -/
theorem find_ofSignature (h : s.length ≤ UInt32.size) (weak : UInt32) (window : ByteArray) :
    (ofSignature s).find weak window =
      .ok ((s.idxOf? ⟨weak, strongHash window⟩).map Nat.toUInt32) := by
  have hrow : ∀ entry ∈ s.zipIdx.filter fun entry => entry.1.weak = weak,
      s[entry.2.toUInt32.toNat]? = some entry.1 :=
    fun entry hmem => getElem?_of_mem_zipIdx h (List.mem_filter.mp hmem).1
  rw [find_eq, group_ofSignature]
  refine (search_map hrow).trans (congrArg Except.ok ?_)
  rw [find?_filter_weak, List.idxOf?, List.findIdx?_eq_fst_find?_zipIdx, Option.map_map]
  rfl

theorem find_eq_some_iff (h : s.length ≤ UInt32.size) {window : ByteArray} {place : UInt32} :
    (ofSignature s).find weak window = .ok (some place) ↔
      s.idxOf? ⟨weak, strongHash window⟩ = some place.toNat := by
  rw [find_ofSignature h, Except.ok.injEq, Option.map_eq_some_iff]
  constructor
  · rintro ⟨i, hi, rfl⟩
    obtain ⟨hlt, -⟩ := List.findIdx?_eq_some_iff_getElem.mp hi
    rw [toNat_toUInt32_of_lt h hlt, hi]
  · exact fun hi => ⟨place.toNat, hi, UInt32.ofNat_toNat⟩

end PlaceIndex

/-! ### The least place -/

namespace Signature

variable {s : Signature} {weak : UInt32} {strong : StrongHash}

theorem idxOf?_eq_some_iff_isLeast {place : Nat} :
    s.idxOf? ⟨weak, strong⟩ = some place ↔ IsLeast (s.places weak strong) place := by
  rw [List.idxOf?, List.findIdx?_eq_some_iff_getElem]
  constructor
  · rintro ⟨hlt, hsum, hfirst⟩
    refine ⟨List.getElem?_eq_some_iff.mpr ⟨hlt, beq_iff_eq.mp hsum⟩, fun other hother => ?_⟩
    obtain ⟨_, hsame⟩ := List.getElem?_eq_some_iff.mp hother
    exact Nat.le_of_not_lt fun hbefore => hfirst other hbefore (beq_iff_eq.mpr hsame)
  · rintro ⟨hmem, hleast⟩
    obtain ⟨hlt, hsum⟩ := List.getElem?_eq_some_iff.mp hmem
    refine ⟨hlt, beq_iff_eq.mpr hsum, fun other hbefore hsame => ?_⟩
    have hother := hleast (List.getElem?_eq_some_iff.mpr ⟨_, beq_iff_eq.mp hsame⟩)
    exact Nat.not_lt.mpr hother hbefore

theorem idxOf?_eq_none_iff_places :
    s.idxOf? ⟨weak, strong⟩ = none ↔ s.places weak strong = ∅ := by
  rw [List.idxOf?_eq_none_iff, Set.eq_empty_iff_forall_notMem, List.mem_iff_getElem?, not_exists]
  rfl

end Signature

namespace PlaceIndex

/-- In a signature of at most `2 ^ 32` blocks, a window is found at the least place that has the
weak checksum asked for and the strong hash of the window, and not found if there is none. This
holds of the index that keeps the strong hashes and of the one that keeps places only, where all
places are places of the signature and no read goes astray. -/
theorem find_exact (s : Signature) (h : s.length ≤ UInt32.size) (weak : UInt32)
    (window : ByteArray) :
    (∀ place : Nat, (Index.ofSignature s).find weak window = some place ↔
      IsLeast (s.places weak (strongHash window)) place) ∧
    ((Index.ofSignature s).find weak window = none ↔
      s.places weak (strongHash window) = ∅) ∧
    (∀ place : UInt32, (ofSignature s).find weak window = .ok (some place) ↔
      IsLeast (s.places weak (strongHash window)) place.toNat) ∧
    (ofSignature s).find weak window =
      .ok (((Index.ofSignature s).find weak window).map Nat.toUInt32) ∧
    ∀ place ∈ group (ofSignature s).byWeak weak, place.toNat < s.length := by
  refine ⟨fun place => ?_, ?_, fun place => ?_, ?_, fun place => lt_length_of_mem_group h⟩
  · rw [Index.find_eq_idxOf?, Signature.idxOf?_eq_some_iff_isLeast]
  · rw [Index.find_eq_idxOf?, Signature.idxOf?_eq_none_iff_places]
  · rw [find_eq_some_iff h, Signature.idxOf?_eq_some_iff_isLeast]
  · rw [find_ofSignature h, Index.find_eq_idxOf?]

/-- Three blocks have the weak checksum that is asked for, which is not the window's. The first has
another strong hash, and the other two are equal. -/
theorem find_exact_equal_blocks :
    (ofSignature [⟨7, 0⟩, ⟨9, strongHash ⟨#[1, 2]⟩⟩, ⟨7, strongHash ⟨#[1, 2]⟩⟩,
        ⟨7, strongHash ⟨#[1, 2]⟩⟩]).find 7 ⟨#[1, 2]⟩ = .ok (some 2) ∧
      (Index.ofSignature [⟨7, 0⟩, ⟨9, strongHash ⟨#[1, 2]⟩⟩]).find 7 ⟨#[1, 2]⟩ = none := by
  obtain ⟨-, -, hplace, -⟩ := find_exact [⟨7, 0⟩, ⟨9, strongHash ⟨#[1, 2]⟩⟩,
    ⟨7, strongHash ⟨#[1, 2]⟩⟩, ⟨7, strongHash ⟨#[1, 2]⟩⟩] (by decide) 7 ⟨#[1, 2]⟩
  obtain ⟨-, hnone, -⟩ := find_exact [⟨7, 0⟩, ⟨9, strongHash ⟨#[1, 2]⟩⟩] (by decide) 7 ⟨#[1, 2]⟩
  constructor
  · exact (hplace 2).mpr (Signature.idxOf?_eq_some_iff_isLeast.mp (by decide +kernel))
  · exact hnone.mpr (Signature.idxOf?_eq_none_iff_places.mp (by decide +kernel))

end PlaceIndex

end DeltaMesh
