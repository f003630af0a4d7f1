import DeltaMesh.Lz4.Plan

/-!
# The greedy plan is sound

A plan is sound for an input if its sequences follow each other without a gap, the last literal
begins where they end, and every match repeats bytes that lie before it, near enough for a block
to say how far (`Sequence.Sound`, `Plan.Sound`). How the matches are found does not matter to a
reader of the block; here only what a found match guarantees is used.

Main statement: the greedy plan is sound (`plan_sound`).
-/

namespace DeltaMesh.Lz4

/-! ### Words of four bytes -/

theorem toNat_shiftLeft_byte (b : UInt8) {s : UInt32} {k : Nat} (hs : s.toNat = k)
    (hk : k ≤ 24) : (b.toUInt32 <<< s).toNat = b.toNat <<< k := by
  have hb := b.toNat_lt
  have hpow : 2 ^ k ≤ 2 ^ 24 := Nat.pow_le_pow_right (by decide) hk
  have hlt : 2 ^ k * b.toNat < 2 ^ 32 :=
    calc 2 ^ k * b.toNat ≤ 2 ^ 24 * 255 := Nat.mul_le_mul hpow (by omega)
      _ < 2 ^ 32 := by decide
  rw [UInt32.toNat_shiftLeft, UInt8.toNat_toUInt32, hs, Nat.mod_eq_of_lt (by omega : k < 32),
    Nat.shiftLeft_eq, Nat.mul_comm, Nat.mod_eq_of_lt hlt]

theorem toNat_word32 (x : ByteArray) (i : Nat) :
    (word32 x i).toNat = (byteAt x i).toNat + 256 * (byteAt x (i + 1)).toNat +
      65536 * (byteAt x (i + 2)).toNat + 16777216 * (byteAt x (i + 3)).toNat := by
  have h₀ := (byteAt x i).toNat_lt
  have h₁ := (byteAt x (i + 1)).toNat_lt
  have h₂ := (byteAt x (i + 2)).toNat_lt
  rw [word32, UInt32.toNat_or, UInt32.toNat_or, UInt32.toNat_or, UInt8.toNat_toUInt32,
    toNat_shiftLeft_byte _ (k := 8) rfl (by decide),
    toNat_shiftLeft_byte _ (k := 16) rfl (by decide),
    toNat_shiftLeft_byte _ (k := 24) rfl (by decide)]
  -- the bytes do not overlap, so that the disjunctions are sums
  rw [Nat.or_comm (byteAt x i).toNat, ← Nat.shiftLeft_add_eq_or_of_lt (i := 8) (by omega),
    Nat.or_comm _ ((byteAt x (i + 2)).toNat <<< 16),
    ← Nat.shiftLeft_add_eq_or_of_lt (i := 16) (by omega),
    Nat.or_comm _ ((byteAt x (i + 3)).toNat <<< 24),
    ← Nat.shiftLeft_add_eq_or_of_lt (i := 24) (by omega)]
  omega

/-- Equal words are made of equal bytes, so comparing words is enough to find matches of four. -/
theorem byteAt_eq_of_word32_eq {x : ByteArray} {i k j : Nat} (h : word32 x i = word32 x k)
    (hj : j < minMatch) : byteAt x (i + j) = byteAt x (k + j) := by
  have hnat := congrArg UInt32.toNat h
  rw [toNat_word32, toNat_word32] at hnat
  have hi := fun m => (byteAt x (i + m)).toNat_lt
  have hk := fun m => (byteAt x (k + m)).toNat_lt
  have hi₀ := hi 0; have hi₁ := hi 1; have hi₂ := hi 2; have hi₃ := hi 3
  have hk₀ := hk 0; have hk₁ := hk 1; have hk₂ := hk 2; have hk₃ := hk 3
  rw [Nat.add_zero] at hi₀ hk₀
  apply UInt8.toNat_inj.mp
  match j, hj with
  | 0, _ => rw [Nat.add_zero, Nat.add_zero]; omega
  | 1, _ | 2, _ | 3, _ => omega

/-! ### Sound plans -/

/-- The bytes `[start, stop)` of `x` are those `offset` places before. -/
def Repeats (x : ByteArray) (start stop offset : Nat) : Prop :=
  ∀ i, start ≤ i → i < stop → byteAt x i = byteAt x (i - offset)

theorem Repeats.append {x : ByteArray} {start mid stop offset : Nat}
    (h : Repeats x start mid offset) (h' : Repeats x mid stop offset) :
    Repeats x start stop offset := by
  intro i hstart hstop
  rcases Nat.lt_or_ge i mid with hlt | hge
  · exact h i hstart hlt
  · exact h' i hge hstop

/-- A sequence whose literal begins at `start`, and whose match repeats bytes before it. -/
structure Sequence.Sound (x : ByteArray) (start : Nat) (s : Sequence) : Prop where
  literalStart_eq : s.literalStart = start
  start_le : start ≤ s.matchStart
  match_le : s.matchStart + minMatch ≤ s.matchStop
  stop_le : s.matchStop ≤ x.size
  offset_pos : 0 < s.offset
  offset_le : s.offset ≤ maxOffset
  offset_inside : s.offset ≤ s.matchStart
  repeats : Repeats x s.matchStart s.matchStop s.offset

/-- The sequences cover the bytes from `start` to `stop` one after the other. -/
inductive Chain (x : ByteArray) : (start : Nat) → List Sequence → (stop : Nat) → Prop
  | nil (pos : Nat) : Chain x pos [] pos
  | cons {start stop : Nat} {s : Sequence} {rest : List Sequence} (h : s.Sound x start)
      (tail : Chain x s.matchStop rest stop) : Chain x start (s :: rest) stop

theorem Chain.snoc {x : ByteArray} {start mid : Nat} {l : List Sequence} {s : Sequence}
    (h : Chain x start l mid) (hs : s.Sound x mid) : Chain x start (l ++ [s]) s.matchStop := by
  induction h with
  | nil => exact .cons hs (.nil _)
  | cons head _ ih => exact .cons head (ih hs)

/-- The sequences cover the input up to the last literal. -/
structure Plan.Sound (x : ByteArray) (p : Plan) : Prop where
  chain : Chain x 0 p.sequences.toList p.lastLiteral
  last_le : p.lastLiteral ≤ x.size

/-! ### Finding a match -/

/-- All places that the table remembers lie before `n`. -/
def Table.Below (t : Table) (n : Nat) : Prop := ∀ s, t.at s < n

theorem Table.Below.put {t : Table} {m n i s : Nat} (h : t.Below m) (hm : m ≤ n) (hi : i < n) :
    (t.put s i).Below n := by
  intro s'
  have hs' := h s'
  simp only [Table.at, Table.put, Array.getD_eq_getD_getElem?, Array.getElem?_setIfInBounds] at *
  split
  · split <;> simp <;> omega
  · omega

theorem Table.below_empty : Table.Below .empty 1 := by
  intro s
  simp only [Table.at, Table.empty, Array.getD_eq_getD_getElem?, Array.getElem?_replicate]
  split <;> simp

/-- What a successful search promises: an earlier place, near enough, with the same four bytes. -/
theorem probe_spec {x : ByteArray} {table table' : Table} {cur misses i c : Nat}
    (hbelow : table.Below cur) (h : probe x table cur misses = (table', some (i, c))) :
    c < i ∧ i - c ≤ maxOffset ∧ word32 x c = word32 x i ∧ table'.Below (i + 1) := by
  fun_induction probe x table cur misses with
  | case1 table cur misses hfit s candidate table₁ hmatch =>
    obtain ⟨htable, hfound⟩ := Prod.mk.inj h
    obtain ⟨rfl, rfl⟩ : cur = i ∧ candidate = c := by simpa using hfound
    exact ⟨hbelow s, hmatch.1, hmatch.2,
      htable ▸ hbelow.put (Nat.le_succ cur) (Nat.lt_succ_self cur)⟩
  | case2 table cur misses hfit s candidate table₁ hmiss ih =>
    have hstep : cur < cur + (32 + misses) / 32 := by omega
    exact ih (hbelow.put (Nat.le_of_lt hstep) hstep) h
  | case3 => simp at h

/-- The bytes that `backward` counts repeat the ones before the candidate, and neither of the two
stretches begins before it may. -/
theorem backward_spec {x : ByteArray} {literalStart cur candidate : Nat}
    (hle : literalStart ≤ cur) (hlt : candidate < cur) :
    backward x literalStart cur candidate ≤ candidate ∧
      literalStart ≤ cur - backward x literalStart cur candidate ∧
        Repeats x (cur - backward x literalStart cur candidate) cur (cur - candidate) := by
  induction candidate generalizing cur with
  | zero => exact ⟨Nat.le_refl _, hle, fun i hge hlt => by rw [backward] at hge; omega⟩
  | succ candidate ih =>
    rw [backward]
    split
    case isTrue h =>
      obtain ⟨hroom, hbyte⟩ := h
      have hle' : literalStart ≤ cur - 1 := by omega
      have hlt' : candidate < cur - 1 := by omega
      obtain ⟨hcount, hstart, hrep⟩ := ih hle' hlt'
      have hoffset : cur - 1 - candidate = cur - (candidate + 1) := by omega
      have hbegin : cur - (backward x literalStart (cur - 1) candidate + 1) =
          cur - 1 - backward x literalStart (cur - 1) candidate := by omega
      rw [hbegin, ← hoffset]
      refine ⟨by omega, hstart, hrep.append fun i hge hi => ?_⟩
      obtain rfl : i = cur - 1 := by omega
      rw [hbyte]
      congr 1
      omega
    case isFalse => exact ⟨Nat.zero_le _, hle, fun i hge hi => by omega⟩

/-- The bytes up to the end that `forward` finds repeat those from the candidate on. -/
theorem forward_spec {x : ByteArray} {cur candidate : Nat} (hlt : candidate < cur)
    (hfit : cur ≤ x.size) :
    forward x cur candidate ≤ x.size ∧
      Repeats x cur (forward x cur candidate) (cur - candidate) := by
  induction cur, candidate using forward.induct x with
  | case1 cur candidate h ih =>
    obtain ⟨hend, hrep⟩ := ih (by omega) (by omega)
    rw [forward, if_pos h]
    rw [show cur + 1 - (candidate + 1) = cur - candidate by omega] at hrep
    have hfirst : Repeats x cur (cur + 1) (cur - candidate) := fun i hge hi => by
      obtain rfl : i = cur := by omega
      rw [h.2]
      congr 1
      omega
    exact ⟨hend, hfirst.append hrep⟩
  | case2 cur candidate h =>
    rw [forward, if_neg h]
    exact ⟨hfit, fun i hge hi => by omega⟩

/-- A match that was found, stretched to both sides, makes a sound sequence: four bytes are equal,
those before and behind were compared one by one, and the distance is small enough to be written. -/
theorem sound_of_match {x : ByteArray} {literalStart i c : Nat} (hle : literalStart ≤ i)
    (hlt : c < i) (hnear : i - c ≤ maxOffset) (hwords : word32 x c = word32 x i)
    (hfit : i + matchMargin ≤ x.size) :
    Sequence.Sound x literalStart
      ⟨literalStart, i - backward x literalStart i c, forward x (i + minMatch) (c + minMatch),
        i - c⟩ := by
  obtain ⟨hcount, hstart, hback⟩ := backward_spec (x := x) hle hlt
  have hend := le_forward x (i + minMatch) (c + minMatch)
  have hlt' : c + minMatch < i + minMatch := Nat.add_lt_add_right hlt minMatch
  have hfit' : i + minMatch ≤ x.size := by
    simp only [matchMargin, minMatch] at *
    omega
  obtain ⟨hstop, hforth⟩ := forward_spec hlt' hfit'
  rw [Nat.add_sub_add_right] at hforth
  -- the four bytes that were compared lie between the two stretches
  have hmid : Repeats x i (i + minMatch) (i - c) := fun k hge hk => by
    have hbyte := byteAt_eq_of_word32_eq hwords (j := k - i) (by omega)
    rw [show i + (k - i) = k by omega] at hbyte
    rw [← hbyte]
    congr 1
    omega
  exact
    { literalStart_eq := rfl
      start_le := hstart
      match_le := by dsimp only; omega
      stop_le := hstop
      offset_pos := by dsimp only; omega
      offset_le := hnear
      offset_inside := by dsimp only; omega
      repeats := hback.append (hmid.append hforth) }

/-! ### The plan -/

/-- The search goes on from a chain that covers all bytes before `literalStart`, and adds to it. The
places in the table lie before the current one, so that every match points back. -/
theorem planFrom_sound {x : ByteArray} {table : Table} {literalStart cur : Nat}
    {done : Array Sequence} (hchain : Chain x 0 done.toList literalStart)
    (hbelow : table.Below cur) (hle : literalStart ≤ cur) (hfit : literalStart ≤ x.size) :
    (planFrom x table literalStart cur done).Sound x := by
  -- the table only remembers places before `cur`, so that every candidate lies before its match
  induction hn : x.size - cur using Nat.strongRecOn
    generalizing table literalStart cur done with
  | _ n ih =>
    rw [planFrom]
    split
    case h_1 => exact ⟨hchain, hfit⟩
    case h_2 table' i c hprobe =>
      obtain ⟨hcur, hmargin⟩ := probe_bounds hprobe
      obtain ⟨hlt, hnear, hwords, hbelow'⟩ := probe_spec hbelow hprobe
      have hsound := sound_of_match (Nat.le_trans hle hcur) hlt hnear hwords hmargin
      have hend := le_forward x (i + minMatch) (c + minMatch)
      refine ih _ ?_ ?_ (hbelow'.put ?_ ?_) (Nat.le_refl _) hsound.stop_le rfl
      · simp only [matchMargin, minMatch] at *
        omega
      · rw [Array.toList_push]
        exact hchain.snoc hsound
      · simp only [minMatch] at *
        omega
      · simp only [minMatch] at *
        omega

/-- The greedy plan is sound for its input. This is all that is needed of the search; how good its
matches are does not matter for expanding. -/
theorem plan_sound (x : ByteArray) : (plan x).Sound x := by
  rw [plan]
  split
  case isTrue => exact ⟨.nil 0, Nat.zero_le _⟩
  case isFalse =>
    exact planFrom_sound (.nil 0) (Table.below_empty.put (Nat.le_refl 1) Nat.one_pos)
      (Nat.zero_le 1) (Nat.zero_le _)

end DeltaMesh.Lz4
