import DeltaMesh.Proofs.Lz4.Block

/-!
# Runs take few bytes

A row that is one byte over and over behind its first byte (`Run`) is what compression does best on.
The search tries the first place of the run in vain, finds it again from the second one on, and the
match goes on to the last bytes, so that the plan has a single sequence (`Run.plan_eq`).

Main statement: the block of a run has one byte for every 255 of the run and at most thirteen more
(`Run.size_compress_le`).
-/

namespace DeltaMesh.Lz4

/-- One byte, and then one other byte over and over. -/
structure Run (x : ByteArray) : Prop where
  first : byteAt x 0 ≠ byteAt x 1
  same : ∀ i, 1 ≤ i → i < x.size → byteAt x i = byteAt x 1

/-! ### What a run looks like -/

/-- The byte at a place as an entry of the row of bytes; both are zero behind the end. -/
theorem byteAt_eq_getD (x : ByteArray) (i : Nat) : byteAt x i = x.data.toList.getD i 0 := by
  rw [byteAt, List.getD_eq_getElem?_getD]
  split
  case isTrue hlt =>
    rw [List.getElem?_eq_getElem (by rwa [length_toList]), Option.getD_some, Array.getElem_toList]
    rfl
  case isFalse hge =>
    rw [List.getElem?_eq_none (by rw [length_toList]; omega), Option.getD_none]

/-- A row that is written out as a run is one. -/
theorem run_of_toList {x : ByteArray} {a b : UInt8} {n : Nat} (hne : a ≠ b) (hpos : 0 < n)
    (h : x.data.toList = a :: List.replicate n b) : Run x := by
  have hsize : x.size = n + 1 := by
    rw [← length_toList, h, List.length_cons, List.length_replicate]
  have hsame : ∀ i, i < n → byteAt x (i + 1) = b := fun i hi => by
    rw [byteAt_eq_getD, h, List.getD_cons_succ, List.getD_eq_getElem?_getD,
      List.getElem?_replicate, if_pos hi, Option.getD_some]
  refine ⟨?_, fun i hi hlt => ?_⟩
  · rw [hsame 0 hpos, byteAt_eq_getD, h]
    exact hne
  · obtain ⟨i, rfl⟩ := Nat.exists_eq_add_of_le' hi
    rw [hsame i (by omega), hsame 0 hpos]

/-! ### Finding the match -/

/-- Every word has a place in the table. -/
theorem slot_lt {x : ByteArray} {i : Nat} (h : x.size < wideFrom) : slot x i < tableSize := by
  rw [slot, if_pos h, UInt32.toNat_shiftRight, UInt32.toNat_shiftRight, Nat.shiftRight_eq_div_pow,
    Nat.shiftRight_eq_div_pow, tableSize]
  have hword := (word32 x i * 2654435761).toNat_lt
  show _ / 2 ^ 16 / 2 ^ 4 < 4096
  omega

/-- All words of a run are equal but the first. -/
theorem Run.word32_eq {x : ByteArray} (h : Run x) {i : Nat} (hi : 1 ≤ i)
    (hfit : i + minMatch ≤ x.size) : word32 x i = word32 x 1 := by
  have hmin : minMatch = 4 := rfl
  have hbyte : ∀ j < minMatch, byteAt x (i + j) = byteAt x (1 + j) := fun j hj => by
    rw [h.same (i + j) (by omega) (by omega), h.same (1 + j) (by omega) (by omega)]
  rw [word32, word32, h.same i hi (by omega), hbyte 1 (by decide), hbyte 2 (by decide),
    hbyte 3 (by decide)]

/-- A match inside a run goes on to the bytes that no match may reach into. -/
theorem Run.forward_eq {x : ByteArray} (h : Run x) {cur candidate : Nat}
    (hcandidate : 1 ≤ candidate) (hlt : candidate < cur) (hle : cur + tailMargin ≤ x.size) :
    forward x cur candidate = x.size - tailMargin := by
  have hmargin : 0 < tailMargin := by decide
  induction cur, candidate using forward.induct x with
  | case1 cur candidate hmore ih =>
    rw [forward, if_pos hmore]
    exact ih (by omega) (by omega) (by omega)
  | case2 cur candidate hend =>
    have hbytes : byteAt x cur = byteAt x candidate := by
      rw [h.same cur (by omega) (by omega), h.same candidate hcandidate (by omega)]
    have hlast : ¬cur + tailMargin < x.size := fun hroom => hend ⟨hroom, hbytes⟩
    rw [forward, if_neg hend]
    omega

/-- What was put into the table last is what it remembers. -/
theorem Table.at_put_self {t : Table} {s i : Nat} (h : s < t.size) : (t.put s i).at s = i := by
  rw [Table.at, Table.put, Array.getD_eq_getD_getElem?, Array.getElem?_setIfInBounds_self_of_lt h]
  rfl

theorem Table.size_put (t : Table) (s i : Nat) : (t.put s i).size = t.size :=
  Array.size_setIfInBounds

/-- The search tries the first place of the run in vain, because the table remembers none with its
bytes; at the second place it finds the first. -/
theorem Run.probe_eq {x : ByteArray} (h : Run x) (hwide : x.size < wideFrom)
    (hlong : 2 + matchMargin ≤ x.size) :
    ∃ table, probe x (Table.empty.put (slot x 0) 0) 1 0 = (table, some (2, 1)) := by
  have hmargin : minMatch ≤ matchMargin := by decide
  have hzero : (Table.empty.put (slot x 0) 0).at (slot x 1) = 0 := by
    have hbelow := Table.below_empty.put (s := slot x 0) (Nat.le_refl 1) Nat.one_pos
    exact Nat.lt_one_iff.mp (hbelow (slot x 1))
  have hmiss : word32 x 0 ≠ word32 x 1 := fun heq =>
    h.first (byteAt_eq_of_word32_eq heq (j := 0) (by decide))
  have hword : word32 x 1 = word32 x 2 := (h.word32_eq (by omega) (by omega)).symm
  have hslot : slot x 2 = slot x 1 := by
    rw [slot, slot, if_pos hwide, if_pos hwide, hword]
  have hone : ((Table.empty.put (slot x 0) 0).put (slot x 1) 1).at (slot x 1) = 1 := by
    refine Table.at_put_self ?_
    rw [Table.size_put, Table.empty, Array.size_replicate]
    exact slot_lt hwide
  refine ⟨((Table.empty.put (slot x 0) 0).put (slot x 1) 1).put (slot x 1) 2, ?_⟩
  rw [probe, if_pos (by omega)]
  dsimp only
  rw [hzero, if_neg fun hmatch => hmiss hmatch.2, probe, if_pos hlong]
  dsimp only
  rw [hslot, hone, if_pos ⟨by decide, hword⟩]

/-- No match begins in the last bytes, so that the plan ends there. -/
theorem planFrom_of_end {x : ByteArray} {cur : Nat} (h : x.size < cur + matchMargin) (table : Table)
    (literalStart : Nat) (done : Array Sequence) :
    planFrom x table literalStart cur done = ⟨done, literalStart⟩ := by
  rw [planFrom]
  split
  case h_1 => rfl
  case h_2 hprobe =>
    have hbounds := probe_bounds hprobe
    omega

/-- The plan of a run is one match, which begins behind the first two bytes, repeats the byte before
it, and is stretched up to the margin at the end. -/
theorem Run.plan_eq {x : ByteArray} (h : Run x) (hwide : x.size < wideFrom)
    (hlong : 2 + matchMargin ≤ x.size) :
    plan x = ⟨#[⟨0, 2, x.size - tailMargin, 1⟩], x.size - tailMargin⟩ := by
  obtain ⟨table, hprobe⟩ := h.probe_eq hwide hlong
  have hmargins : tailMargin < matchMargin ∧ minMatch + tailMargin ≤ matchMargin := by decide
  have hback : backward x 0 2 1 = 0 := if_neg fun hmore => h.first hmore.2.symm
  have hforward : forward x (2 + minMatch) (1 + minMatch) = x.size - tailMargin :=
    h.forward_eq (by omega) (by omega) (by omega)
  rw [plan, if_neg (by omega), planFrom]
  split
  case h_1 hnone => cases hnone.symm.trans hprobe
  case h_2 hsome =>
    cases hsome.symm.trans hprobe
    dsimp only
    rw [planFrom_of_end, hback, hforward]
    · rfl
    · rw [hforward]
      omega

/-! ### How long the block of a run is -/

theorem length_tailBytes (n : Nat) : (tailBytes n).length = n / 255 + 1 := by
  induction n using tailBytes.induct with
  | case1 n h => rw [tailBytes, if_pos h, Nat.div_eq_of_lt h]; rfl
  | case2 n h ih =>
    rw [tailBytes, if_neg h, List.length_cons, ih, ← Nat.div_eq_sub_div (by decide) (by omega)]

theorem length_lengthBytes_le (n : Nat) : (lengthBytes n).length ≤ n / 255 + 1 := by
  rw [lengthBytes]
  split
  case isTrue => exact Nat.zero_le _
  case isFalse =>
    rw [length_tailBytes]
    have hle : (n - 15) / 255 ≤ n / 255 := Nat.div_le_div_right (Nat.sub_le n 15)
    omega

/-- A run takes one byte for every 255 that it is long, and no more than thirteen besides. -/
theorem Run.size_compress_le {x : ByteArray} (h : Run x) (hwide : x.size < wideFrom)
    (hlong : 2 + matchMargin ≤ x.size) : (compress x).size ≤ x.size / 255 + 13 := by
  have hmargins : tailMargin = 6 ∧ matchMargin = 12 := ⟨rfl, rfl⟩
  have hshort : lengthBytes (2 - 0) = [] ∧ lengthBytes tailMargin = [] := ⟨rfl, rfl⟩
  have hextra := length_lengthBytes_le (Sequence.extra ⟨0, 2, x.size - tailMargin, 1⟩)
  have hless : Sequence.extra ⟨0, 2, x.size - tailMargin, 1⟩ ≤ x.size := by
    simp only [Sequence.extra]
    omega
  have hquot := Nat.div_le_div_right (c := 255) hless
  have hend : x.size - (x.size - tailMargin) = tailMargin := by omega
  have hwritten := congrArg List.length (toList_write (plan x) x)
  rw [h.plan_eq hwide hlong] at hwritten
  simp only [List.flatMap_cons, List.flatMap_nil, List.append_nil, Sequence.bytes, literalBytes,
    matchBytes, List.length_append, List.length_cons, hend, hshort, length_toList,
    ByteArray.size_extract, List.length_nil] at hwritten
  rw [compress, h.plan_eq hwide hlong]
  omega

end DeltaMesh.Lz4
