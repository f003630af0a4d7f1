import DeltaMesh.Proofs.Bytes.Cursor
import DeltaMesh.Wire.Field

/-!
# What a reader accepts

A `Spelling` says which rows of bytes spell a value. A reader reads a spelling (`Reader.Reads`) if
it succeeds exactly where a row of the spelling lies before the cursor, gives the value spelled,
and moves behind the row. Spellings are put together as readers are (`Reads.bind`), so that each
reader of the wire format has its spelling. Most are canonical: the only row that spells a value
is the one that is written for it (`written`).

Main statements: `Reads.bind`, what reading from the beginning of a row then means
(`Reads.decode_iff`), and that no value is read from a row that is cut off (`Reads.decode_cut`).
-/

namespace DeltaMesh.Wire

/-- The rows of bytes that spell a value. -/
abbrev Spelling (α : Type) := α → List UInt8 → Prop

/-- The row that `put` writes spells a value, provided that the value fits its field. -/
def written {α : Type} (put : α → ByteArray) (fits : α → Prop) : Spelling α :=
  fun a w => (put a).data.toList = w ∧ fits a

/-- What is written behind a first row. -/
theorem written_behind {α : Type} (first : ByteArray) (put : α → ByteArray) (fits : α → Prop)
    (a : α) (w : List UInt8) :
    (∃ v, written put fits a v ∧ first.data.toList ++ v = w) ↔
      (first ++ put a).data.toList = w ∧ fits a := by
  constructor
  · rintro ⟨_, ⟨rfl, hfits⟩, rfl⟩
    exact ⟨ByteArray.toList_data_append, hfits⟩
  · rintro ⟨rfl, hfits⟩
    exact ⟨_, ⟨rfl, hfits⟩, ByteArray.toList_data_append.symm⟩

namespace Reader

variable {α β : Type}

/-- The reader gives a value exactly where a row that spells it lies before the cursor. -/
def Reads (r : Reader α) (S : Spelling α) : Prop :=
  ∀ c : Cursor, c.pos ≤ c.bytes.size → ∀ a c',
    r c = .ok (a, c') ↔ ∃ w t, S a w ∧ c.rest = w ++ t ∧ c' = c.ahead w.length

theorem Reads.congr {r : Reader α} {S T : Spelling α} (h : r.Reads S)
    (hST : ∀ a w, S a w ↔ T a w) : r.Reads T := by
  obtain rfl : S = T := funext fun a => funext fun w => propext (hST a w)
  exact h

theorem reads_pure (a : α) : Reads (pure a) fun b w => a = b ∧ [] = w := by
  intro c _ b c'
  constructor
  · intro h
    obtain ⟨rfl, rfl⟩ := Prod.mk.inj (Except.ok.inj h)
    exact ⟨[], c.rest, ⟨rfl, rfl⟩, rfl, rfl⟩
  · rintro ⟨w, t, ⟨rfl, rfl⟩, -, rfl⟩
    rfl

theorem reads_throw (why : Fault) : Reads (throw why : Reader α) fun _ _ => False := by
  intro c _ a c'
  constructor
  · intro h
    cases h
  · rintro ⟨w, t, hS, -⟩
    exact hS.elim

theorem bind_run (r : Reader α) (k : α → Reader β) (c : Cursor) :
    (r >>= k) c = match r c with
      | .ok (a, c') => k a c'
      | .error why => .error why := by
  show (r c).bind (fun p => k p.1 p.2) = _
  cases r c <;> rfl

/-- One reader after the other reads one row behind the other. What the second reader expects may
depend on what the first one gave, as the fields of a message depend on its variant. -/
theorem Reads.bind {r : Reader α} {S : Spelling α} {k : α → Reader β} {T : α → Spelling β}
    (hr : r.Reads S) (hk : ∀ a u, S a u → (k a).Reads (T a)) :
    (r >>= k).Reads fun b w => ∃ a u v, S a u ∧ T a b v ∧ u ++ v = w := by
  intro c hc b c'
  rw [bind_run]
  constructor
  · intro h
    split at h
    case h_1 a c₁ hrun =>
      obtain ⟨u, t, hS, hrest, rfl⟩ := (hr c hc a c₁).mp hrun
      obtain ⟨v, t', hT, hrest', rfl⟩ :=
        (hk a u hS (c.ahead u.length) (Cursor.ahead_le hc hrest) b c').mp h
      -- the second row lies where the first one ends
      rw [Cursor.rest_ahead hrest] at hrest'
      refine ⟨u ++ v, t', ⟨a, u, v, hS, hT, rfl⟩, ?_, ?_⟩
      · rw [hrest, hrest', List.append_assoc]
      · rw [Cursor.ahead_ahead, List.length_append]
    case h_2 => cases h
  · rintro ⟨w, t, ⟨a, u, v, hS, hT, rfl⟩, hrest, rfl⟩
    rw [List.append_assoc] at hrest
    rw [(hr c hc a (c.ahead u.length)).mpr ⟨u, v ++ t, hS, hrest, rfl⟩]
    refine (hk a u hS _ (Cursor.ahead_le hc hrest) b _).mpr ⟨v, t, hT, ?_, ?_⟩
    · exact Cursor.rest_ahead hrest
    · rw [Cursor.ahead_ahead, List.length_append]

/-- A reader that turns what it read into something else reads the same rows. -/
theorem Reads.map {r : Reader α} {S : Spelling α} (hr : r.Reads S) (g : α → β) :
    (r >>= fun a => pure (g a)).Reads fun b w => ∃ a, S a w ∧ g a = b := by
  refine (hr.bind fun a _ _ => reads_pure (g a)).congr ?_
  intro b w
  constructor
  · rintro ⟨a, u, v, hS, ⟨rfl, rfl⟩, rfl⟩
    exact ⟨a, (List.append_nil u).symm ▸ hS, rfl⟩
  · rintro ⟨a, hS, rfl⟩
    exact ⟨a, w, [], hS, ⟨rfl, rfl⟩, List.append_nil w⟩

/-- If `g` and `f` turn what fits a field into other values and back, then the field holds these
values, all of which fit. -/
theorem Reads.recode {r : Reader α} {put : α → ByteArray} {fits : α → Prop}
    (hr : r.Reads (written put fits)) {g : α → β} {f : β → α}
    (hf : ∀ b, fits (f b) ∧ g (f b) = b) (hg : ∀ a, fits a → f (g a) = a) :
    (r >>= fun a => pure (g a)).Reads (written (fun b => put (f b)) fun _ => True) := by
  refine (hr.map g).congr ?_
  intro b w
  constructor
  · rintro ⟨a, ⟨rfl, hfits⟩, rfl⟩
    exact ⟨by simp only [hg a hfits], trivial⟩
  · rintro ⟨rfl, -⟩
    exact ⟨f b, ⟨rfl, (hf b).1⟩, (hf b).2⟩

/-- Reading from the beginning of a row gives the value that the row begins with. Both directions
are needed: what is spelled is read, and what is read was spelled. -/
theorem Reads.decode_iff {r : Reader α} {S : Spelling α} (h : r.Reads S) (bytes : ByteArray)
    (a : α) : r.decode bytes = .ok a ↔ ∃ w, S a w ∧ w <+: bytes.data.toList := by
  have hstart := h (.start bytes) (Nat.zero_le _)
  have hrest : (Cursor.start bytes).rest = bytes.data.toList := rfl
  rw [decode]
  constructor
  · intro hdec
    cases hrun : r.run (.start bytes) with
    | error why =>
      rw [hrun] at hdec
      cases hdec
    | ok p =>
      rw [hrun] at hdec
      obtain rfl := Except.ok.inj hdec
      obtain ⟨w, t, hS, hw, -⟩ := (hstart p.1 p.2).mp hrun
      exact ⟨w, hS, t, hw.symm⟩
  · rintro ⟨w, hS, t, hw⟩
    have hrun : r.run (.start bytes) = .ok (a, (Cursor.start bytes).ahead w.length) :=
      (hstart a _).mpr ⟨w, t, hS, hw.symm, rfl⟩
    rw [hrun]
    rfl

/-- A row begins with only one row that spells a value; no spelling is the beginning of another one.
-/
theorem Reads.unique {r : Reader α} {S : Spelling α} (h : r.Reads S) {a b : α}
    {u v l : List UInt8} (hu : S a u) (hul : u <+: l) (hv : S b v) (hvl : v <+: l) :
    a = b ∧ u = v := by
  obtain ⟨t, rfl⟩ := hul
  obtain ⟨t', ht'⟩ := hvl
  -- both rows lie before one cursor, and the reader moves it only one way
  let c : Cursor := .start (u ++ t).toByteArray
  have hrest : c.rest = u ++ t := by
    show (u ++ t).toByteArray.data.toList.drop 0 = u ++ t
    rw [List.drop_zero, List.data_toByteArray]
  have hrun : r c = .ok (a, c.ahead u.length) :=
    (h c (Nat.zero_le _) a _).mpr ⟨u, t, hu, hrest, rfl⟩
  have hrun' : r c = .ok (b, c.ahead v.length) :=
    (h c (Nat.zero_le _) b _).mpr ⟨v, t', hv, hrest.trans ht'.symm, rfl⟩
  obtain ⟨hab, hpos⟩ := Prod.mk.inj (Except.ok.inj (hrun.symm.trans hrun'))
  have hlen : u.length = v.length := by
    simpa [Cursor.ahead] using congrArg Cursor.pos hpos
  exact ⟨hab, (List.append_inj ht'.symm hlen).1⟩

/-- No value is read from a row that is cut off: otherwise a spelling would begin with another one.
-/
theorem Reads.decode_cut {r : Reader α} {S : Spelling α} (h : r.Reads S) {a : α} {w : List UInt8}
    (hw : S a w) {bytes : ByteArray} (hcut : bytes.data.toList <+: w)
    (hlt : bytes.size < w.length) : ∃ why, r.decode bytes = .error why := by
  cases hdec : r.decode bytes with
  | error why => exact ⟨why, rfl⟩
  | ok b =>
    obtain ⟨v, hv, hvp⟩ := (h.decode_iff bytes b).mp hdec
    obtain ⟨-, rfl⟩ := h.unique hw List.prefix_rfl hv (hvp.trans hcut)
    have hle : w.length ≤ bytes.size := hvp.length_le
    omega

end Reader

end DeltaMesh.Wire
