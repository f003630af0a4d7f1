import DeltaMesh.Lz4.Block

/-!
# Expanding any block

A block may have been made by anyone. Every sequence of it takes a byte, so that expanding comes to
an end, and none is copied before there is room for it.

Main statements: `expand` reads one sequence after the other until the last one or the first fault,
and the bound on their number plays no part (`expands_iff`); whatever the sequences announce, no
more bytes come out than there is room for (`Expands.size_le`).
-/

namespace DeltaMesh.Lz4

/-- The output so far. -/
def Next.out : Next → ByteArray
  | .finished out => out
  | .more _ out => out

/-- Reading sequences from `pos` on, behind the output `out`, ends with `r`. -/
inductive Expands (block : ByteArray) (room : Nat) :
    (pos : Nat) → (out : ByteArray) → (r : Except Fault ByteArray) → Prop
  | fault {pos : Nat} {out : ByteArray} {why : Fault}
      (h : readSequence block room pos out = .error why) : Expands block room pos out (.error why)
  | last {pos : Nat} {out raw : ByteArray}
      (h : readSequence block room pos out = .ok (.finished raw)) :
      Expands block room pos out (.ok raw)
  | more {pos pos' : Nat} {out out' : ByteArray} {r : Except Fault ByteArray}
      (h : readSequence block room pos out = .ok (.more pos' out'))
      (tail : Expands block room pos' out' r) : Expands block room pos out r

section

variable {block out : ByteArray} {room pos : Nat}

/-! ### One sequence -/

theorem readTail_le {total n pos' : Nat} (h : readTail block pos total = .ok (n, pos')) :
    pos ≤ pos' := by
  fun_induction readTail block pos total with
  | case1 pos total hlt hfull ih =>
    have hnext := ih h
    omega
  | case2 pos total hlt hlast =>
    obtain ⟨rfl, rfl⟩ := Prod.mk.inj (Except.ok.inj h)
    exact Nat.le_succ pos
  | case3 => cases h

theorem readLength_le {nibble n pos' : Nat} (h : readLength block nibble pos = .ok (n, pos')) :
    pos ≤ pos' := by
  rw [readLength] at h
  split at h
  · exact readTail_le h
  · obtain ⟨rfl, rfl⟩ := Prod.mk.inj (Except.ok.inj h)
    exact Nat.le_refl pos

theorem size_copyBack (offset n : Nat) (out : ByteArray) :
    (copyBack offset n out).size = out.size + n := by
  induction n generalizing out with
  | zero => rfl
  | succ n ih =>
    rw [copyBack, ih, ByteArray.size_push]
    omega

/-- A match goes forward in the block and ends inside the room, whatever the block says. Nothing is
copied before its length has been checked against the room. -/
theorem readMatch_spec {nibble : Nat} {next : Next}
    (h : readMatch block room nibble pos out = .ok next) :
    ∃ pos' out', next = .more pos' out' ∧ pos < pos' ∧ out'.size ≤ room := by
  simp only [readMatch] at h
  split at h
  · cases h
  split at h
  · cases h
  cases hlength : readLength block nibble (pos + 2) with
  | error why =>
    rw [hlength] at h
    cases h
  | ok r =>
    obtain ⟨extra, pos'⟩ := r
    rw [hlength] at h
    simp only [bind, Except.bind] at h
    -- nothing is copied before the room and the distance have been checked
    split at h
    · cases h
    split at h
    · cases h
    have hpos := readLength_le hlength
    obtain rfl := Except.ok.inj h
    refine ⟨_, _, rfl, by omega, ?_⟩
    rw [size_copyBack]
    omega

/-- A sequence ends inside the room, and the next token lies behind its own. The first bounds what
is written, the second makes the expansion end. -/
theorem readSequence_spec {next : Next} (h : readSequence block room pos out = .ok next) :
    next.out.size ≤ room ∧ ∀ pos' out', next = .more pos' out' → pos < pos' := by
  simp only [readSequence] at h
  split at h
  · cases h
  cases hlength : readLength block ((byteAt block pos).toNat / 16) (pos + 1) with
  | error why =>
    rw [hlength] at h
    cases h
  | ok r =>
    obtain ⟨length, start⟩ := r
    rw [hlength] at h
    simp only [bind, Except.bind] at h
    split at h
    · cases h
    split at h
    · cases h
    have hstart := readLength_le hlength
    split at h
    case isTrue hend =>
      -- the literal ends the block
      obtain rfl := Except.ok.inj h
      refine ⟨?_, fun pos' out' hmore => nomatch hmore⟩
      rw [Next.out, ByteArray.size_append, ByteArray.size_extract]
      omega
    case isFalse hgo =>
      obtain ⟨pos', out', rfl, hlt, hroom⟩ := readMatch_spec h
      refine ⟨hroom, fun pos₂ out₂ hmore => ?_⟩
      obtain ⟨rfl, rfl⟩ := Next.more.inj hmore
      omega

theorem readSequence_of_le (h : block.size ≤ pos) :
    readSequence block room pos out = .error .missingByte := by
  rw [readSequence, if_pos h]
  rfl

/-! ### All sequences -/

theorem Expands.unique {r r' : Except Fault ByteArray} (h : Expands block room pos out r)
    (h' : Expands block room pos out r') : r = r' := by
  induction h with
  | fault hfault => cases h' <;> simp_all
  | last hlast => cases h' <;> simp_all
  | more hmore _ ih =>
    cases h' with
    | fault hfault | last hlast => simp_all
    | more hmore' tail =>
      rw [hmore] at hmore'
      obtain ⟨rfl, rfl⟩ := Next.more.inj (Except.ok.inj hmore')
      exact ih tail

/-- There are enough sequences to read as long as there is one for every byte that is left. -/
theorem expands_expandFrom {fuel : Nat} (hfuel : block.size < pos + fuel) :
    Expands block room pos out (expandFrom block room fuel pos out) := by
  induction fuel generalizing pos out with
  | zero =>
    -- the block has ended
    rw [Nat.add_zero] at hfuel
    exact .fault (readSequence_of_le (Nat.le_of_lt hfuel))
  | succ fuel ih =>
    cases hread : readSequence block room pos out with
    | error why =>
      rw [expandFrom, hread]
      exact .fault hread
    | ok next =>
      rw [expandFrom, hread]
      cases next with
      | finished raw => exact .last hread
      | more pos' out' =>
        -- the next token lies further on, so that one sequence less is enough
        have hlt := (readSequence_spec hread).2 pos' out' rfl
        exact .more hread (ih (by omega))

theorem expands_iff {r : Except Fault ByteArray} :
    Expands block room 0 .empty r ↔ expand block room = r := by
  have hexpand : Expands block room 0 .empty (expand block room) :=
    expands_expandFrom (by omega)
  constructor
  · exact hexpand.unique
  · rintro rfl
    exact hexpand

theorem Expands.size_le {r : Except Fault ByteArray} (h : Expands block room pos out r)
    {raw : ByteArray} (hr : r = .ok raw) : raw.size ≤ room := by
  induction h with
  | fault => cases hr
  | last hlast =>
    obtain rfl := Except.ok.inj hr
    exact (readSequence_spec hlast).1
  | more _ _ ih => exact ih hr

end

end DeltaMesh.Lz4
