import DeltaMesh.Proofs.Cluster.Errand

/-!
# When a value arrives

An errand brings its value unless the lists that go back and forth are too large (`Errand.Passes`).
They are not if blocks are no shorter than the twenty bytes that a block takes in a list, and
values are short enough for the limits (`Errand.Small`).
-/

namespace DeltaMesh

namespace Errand

variable {n : Nat} (e : Errand n)

/-- The replica holds nothing or the value itself, or the lists that go back and forth are not too
large for the node's limit and for whoever unpacks them. -/
def Passes : Prop :=
  ∀ base, e.held? = some base → base ≠ e.value → ¬Wire.Refused (e.checksums base) ∧
    (e.payload base).size ≤ e.terms.limit ∧ ¬Wire.Refused (Wire.putDelta (e.delta base))

variable {e}

/-- A replica that holds another value is brought the new one by a delta. -/
theorem ending_of_synced (h : e.Passes) {base : ByteArray} (hheld : e.held? = some base)
    (hne : base ≠ e.value) :
    e.ending = (.ok (.synced (e.summary base) .applied), some e.value) := by
  obtain ⟨hread, hsize, htaken⟩ := h base hheld hne
  simp only [ending, hheld, if_neg hne, if_neg hread, if_neg (Nat.not_lt.mpr hsize), synced,
    verdict, if_neg htaken]

/-- An errand that passes brings the value, whether it was in place, is copied, or is rebuilt from a
delta. -/
theorem ending_of_passes (hvalue : e.value.size ≤ e.terms.limit) (h : e.Passes) :
    (∃ outcome, e.result = .ok outcome) ∧ e.left? = some e.value := by
  rw [result, left?]
  cases hheld : e.held? with
  | none =>
    simp only [ending, hheld, if_neg (Nat.not_lt.mpr hvalue)]
    exact ⟨⟨_, rfl⟩, trivial⟩
  | some base =>
    by_cases hne : base = e.value
    · simp only [ending, hheld, if_pos hne]
      exact ⟨⟨_, rfl⟩, congrArg some hne⟩
    · rw [ending_of_synced h hheld hne]
      exact ⟨⟨_, rfl⟩, rfl⟩

/-- An errand that does not pass fails and leaves what the replica held. This is one half of all or
nothing; `ending_of_passes` is the other one. -/
theorem ending_of_not_passes (h : ¬e.Passes) :
    (∃ why, e.result = .error why) ∧ e.left? = e.held? := by
  simp only [Passes, not_forall] at h
  obtain ⟨base, hheld, hne, hlarge⟩ := h
  rw [result, left?, ending, hheld]
  simp only [if_neg hne]
  by_cases hread : Wire.Refused (e.checksums base)
  · simp only [if_pos hread]
    exact ⟨⟨_, rfl⟩, trivial⟩
  · by_cases hsize : e.terms.limit < (e.payload base).size
    · simp only [if_neg hread, if_pos hsize]
      exact ⟨⟨_, rfl⟩, trivial⟩
    · have htaken : Wire.Refused (Wire.putDelta (e.delta base)) := by
        by_contra htaken
        exact hlarge ⟨hread, Nat.le_of_not_lt hsize, htaken⟩
      simp only [if_neg hread, if_neg hsize, synced, verdict, if_pos htaken]
      exact ⟨⟨_, rfl⟩, trivial⟩

/-- A delta whose payload is too large is not sent. -/
theorem ending_of_large (base : ByteArray) (hheld : e.held? = some base) (hne : base ≠ e.value)
    (hread : ¬Wire.Refused (e.checksums base)) (hlarge : e.terms.limit < (e.payload base).size) :
    e.result = .error (.tooLarge e.key (e.payload base).size e.terms.limit) ∧
      e.left? = some base := by
  rw [result, left?, ending, hheld]
  simp only [if_neg hne, if_neg hread, if_pos hlarge, and_self]

/-- A value that the replica holds already is not sent. -/
theorem result_of_same (h : e.held? = some e.value) : e.result = .ok .upToDate := by
  rw [result, ending, h]
  exact congrArg Prod.fst (if_pos rfl)

/-! ### Small values -/

variable (e)

/-- Blocks are long enough and values short enough, and hashes tell them apart. -/
structure Small : Prop where
  block : 20 ≤ e.blockSize
  window : 20 ≤ e.terms.blockSize
  limit : e.terms.limit ≤ 15 * 1024 * 1024
  value : e.value.size + 28 ≤ e.terms.limit
  held : ∀ base, e.held? = some base → base.size + 28 ≤ e.terms.limit
  apart : ∀ base, e.held? = some base → base ≠ e.value →
    Id.ofContent base ≠ Id.ofContent e.value ∧ Separates e.value base e.blockSize

variable {e}

theorem Small.size_checksums_le (h : e.Small) {base : ByteArray} (hheld : e.held? = some base) :
    (e.checksums base).size ≤ Wire.maxInflated := by
  have hbase := h.held base hheld
  have hlimit := h.limit
  have hblocks : 20 * blockCount base.size e.blockSize ≤ base.size + 20 :=
    mul_blockCount_le base.size h.block
  rw [Errand.checksums, Wire.size_putSignature, Wire.length_ofValue, Wire.maxInflated]
  omega

theorem Small.size_delta_le (h : e.Small) (base : ByteArray) :
    (Wire.putDelta (e.delta base)).size ≤ Wire.maxInflated := by
  have hdelta := Wire.size_putDelta_diff_le (.ofValue base e.blockSize) e.value h.window
  have hvalue := h.value
  have hlimit := h.limit
  rw [delta, Wire.maxInflated]
  omega

theorem Small.feasible (h : e.Small) : e.Feasible := by
  have hvalue := h.value
  have hlimit := h.limit
  have hbound : 15 * 1024 * 1024 < Wire.lengthBound := by decide
  refine ⟨by omega, by omega, fun base hheld hne => ?_⟩
  have hbase := h.held base hheld
  have hblocks := blockCount_le base.size e.blockSize
  have hword : 15 * 1024 * 1024 ≤ UInt32.size := by decide
  exact {
    hash := (h.apart base hheld hne).1
    separates := (h.apart base hheld hne).2
    blocks := by omega
    checksums := Wire.lengthTold_of_size (h.size_checksums_le hheld)
    delta := Wire.lengthTold_of_size (h.size_delta_le base) }

theorem Small.passes (h : e.Small) : e.Passes := fun base hheld _ =>
  ⟨Wire.not_refused_of_size (h.size_checksums_le hheld),
    Nat.le_trans (Wire.size_encodeDelta_diff_le (.ofValue base e.blockSize) e.value h.window)
      h.value,
    Wire.not_refused_of_size (h.size_delta_le base)⟩

/-- A small value always arrives. -/
theorem Small.arrives (h : e.Small) :
    (∃ outcome, e.result = .ok outcome) ∧ e.left? = some e.value :=
  ending_of_passes (Nat.le_trans (Nat.le_add_right _ 28) h.value) h.passes

end Errand

end DeltaMesh
