import DeltaMesh.Bytes.Cursor

/-!
# Rows of bytes, and what lies before a cursor

Rows of bytes are compared as lists, `b.data.toList`. Readers are described by the bytes that lie
before their cursor, `Cursor.rest`. When these begin with a row `l`, taking as many bytes gives
`l`, and what follows `l` lies before the cursor then (`take?_of_rest`, `rest_ahead`).
-/

namespace DeltaMesh

/-! ### Rows as lists -/

theorem length_toList (b : ByteArray) : b.data.toList.length = b.size := by
  rw [Array.length_toList, ByteArray.size_data]

@[simp] theorem toList_data_push (b : ByteArray) (byte : UInt8) :
    (b.push byte).data.toList = b.data.toList ++ [byte] := by
  rw [ByteArray.data_push, Array.toList_push]

theorem toList_data_extract (b : ByteArray) (i j : Nat) :
    (b.extract i j).data.toList = (b.data.toList.drop i).take (j - i) := by
  rw [ByteArray.data_extract, Array.toList_extract, List.extract_eq_take_drop]

theorem toByteArray_toList (b : ByteArray) : b.data.toList.toByteArray = b := by
  apply ByteArray.ext
  rw [List.data_toByteArray, Array.toArray_toList]

/-- Rows of bytes are equal if their lists are; most arguments about bytes go over lists for that
reason. -/
theorem toList_inj {a b : ByteArray} : a.data.toList = b.data.toList ↔ a = b := by
  rw [Array.toList_inj, ← ByteArray.ext_iff]

/-- The beginning of a row, made longer by the bytes that follow it. -/
theorem extract_zero_append (b : ByteArray) {i j : Nat} (h : i ≤ j) :
    b.extract 0 i ++ b.extract i j = b.extract 0 j := by
  rw [ByteArray.extract_append_extract, Nat.zero_min, Nat.max_eq_right h]

theorem size_extract_zero {b : ByteArray} {n : Nat} (h : n ≤ b.size) :
    (b.extract 0 n).size = n := by
  rw [ByteArray.size_extract]
  omega

/-- What a loop writes that adds one row for each item. -/
theorem toList_foldl {α : Type} {f : ByteArray → α → ByteArray} {g : α → List UInt8}
    (h : ∀ out a, (f out a).data.toList = out.data.toList ++ g a) (l : List α)
    (out : ByteArray) : (l.foldl f out).data.toList = out.data.toList ++ l.flatMap g := by
  induction l generalizing out with
  | nil => rw [List.foldl_nil, List.flatMap_nil, List.append_nil]
  | cons a l ih => rw [List.foldl_cons, ih, h, List.append_assoc, List.flatMap_cons]

/-- Rows one behind the other, the first of them split off. -/
theorem foldl_append_cons (a : ByteArray) (l : List ByteArray) :
    (a :: l).foldl (· ++ ·) .empty = a ++ l.foldl (· ++ ·) .empty := by
  suffices hbehind : ∀ out, l.foldl (· ++ ·) out = out ++ l.foldl (· ++ ·) .empty by
    rw [List.foldl_cons, ByteArray.empty_append, hbehind]
  induction l with
  | nil => exact fun out => ByteArray.append_empty.symm
  | cons b l ih =>
    intro out
    rw [List.foldl_cons, ih, List.foldl_cons, ih (.empty ++ b), ByteArray.empty_append,
      ByteArray.append_assoc]

/-- Rows that are not empty are at most as many as their bytes, so the length of a list fits its
field if the bytes of its items do. -/
theorem length_le_flatMap {α : Type} {f : α → List UInt8} (h : ∀ a, 1 ≤ (f a).length)
    (l : List α) : l.length ≤ (l.flatMap f).length := by
  induction l with
  | nil => exact Nat.le_refl _
  | cons a l ih =>
    have ha := h a
    rw [List.flatMap_cons, List.length_append, List.length_cons]
    omega

theorem length_le_length_flatMap {α : Type} {f : α → List UInt8} {a : α} {l : List α}
    (h : a ∈ l) : (f a).length ≤ (l.flatMap f).length := by
  rw [List.flatMap_def]
  exact (List.sublist_flatten_of_mem (List.mem_map_of_mem h)).length_le

/-! ### Cursors -/

namespace Cursor

/-- The place `n` bytes ahead. -/
def ahead (c : Cursor) (n : Nat) : Cursor := ⟨c.bytes, c.pos + n⟩

variable {c : Cursor} {l r : List UInt8}

theorem ahead_ahead (c : Cursor) (m n : Nat) : (c.ahead m).ahead n = c.ahead (m + n) := by
  rw [ahead, ahead, ahead, Nat.add_assoc]

theorem rest_ahead (h : c.rest = l ++ r) : (c.ahead l.length).rest = r := by
  simp only [rest, ahead] at *
  rw [← List.drop_drop, h, List.drop_left]

/-- A cursor inside its bytes stays inside when it moves over what lies before it. -/
theorem ahead_le (hc : c.pos ≤ c.bytes.size) (h : c.rest = l ++ r) :
    c.pos + l.length ≤ c.bytes.size := by
  have hlen := congrArg List.length h
  rw [length_rest, List.length_append, room] at hlen
  omega

theorem extract_of_rest (h : c.rest = l ++ r) :
    c.bytes.extract c.pos (c.pos + l.length) = l.toByteArray := by
  rw [← toList_inj, toList_data_extract, Nat.add_sub_cancel_left]
  simp only [rest] at h
  rw [h, List.take_left, List.data_toByteArray]

/-- Taking what lies ahead succeeds. -/
theorem take?_of_rest (hc : c.pos ≤ c.bytes.size) (h : c.rest = l ++ r) :
    c.take? l.length = some (l.toByteArray, c.ahead l.length) := by
  rw [take?, if_pos (ahead_le hc h), extract_of_rest h]
  rfl

/-- What a take gives lay ahead of the cursor, and what lies ahead after it follows there. Readers
are shown to be right from this alone. -/
theorem rest_of_take? {n : Nat} {b : ByteArray} {c' : Cursor} (h : c.take? n = some (b, c')) :
    b.size = n ∧ c' = c.ahead n ∧ c.rest = b.data.toList ++ c'.rest := by
  rw [take?] at h
  split at h
  case isTrue hle =>
    obtain ⟨rfl, rfl⟩ := Prod.mk.inj (Option.some.inj h)
    refine ⟨by rw [ByteArray.size_extract]; omega, rfl, ?_⟩
    rw [toList_data_extract, Nat.add_sub_cancel_left]
    simp only [rest]
    rw [← List.drop_drop, List.take_append_drop]
  case isFalse => cases h

/-- A take succeeds if and only if there are enough bytes, and gives just those. -/
theorem take?_iff (hc : c.pos ≤ c.bytes.size) {n : Nat} {b : ByteArray} {c' : Cursor} :
    c.take? n = some (b, c') ↔
      b.size = n ∧ (∃ t, c.rest = b.data.toList ++ t) ∧ c' = c.ahead n := by
  constructor
  · intro h
    obtain ⟨hsize, hmove, hrest⟩ := rest_of_take? h
    exact ⟨hsize, ⟨_, hrest⟩, hmove⟩
  · rintro ⟨rfl, ⟨t, hrest⟩, rfl⟩
    have htake := take?_of_rest hc hrest
    rwa [length_toList, toByteArray_toList] at htake

/-- Behind the first of two rows lies the second. -/
theorem rest_append (a b : ByteArray) {n : Nat} (hn : a.size = n) :
    (Cursor.mk (a ++ b) n).rest = b.data.toList := by
  have hlen : a.data.toList.length = n := (length_toList a).trans hn
  rw [rest, ByteArray.toList_data_append, List.drop_left' hlen]

end Cursor

end DeltaMesh
