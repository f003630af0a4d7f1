import DeltaMesh.Proofs.Wire.Reading

/-!
# The fields of the wire format

Every field is read canonically: the reader accepts exactly the rows that are written for some
value, and only values that fit. Numbers have to fit their width, and whatever stands behind its
length has to be shorter than `lengthBound`.

Main statements: `reads_number`, `reads_key`, `reads_bytes`, `reads_text`, `reads_optional` and
`reads_items`.
-/

namespace DeltaMesh.Wire

/-- The first length that the eight bytes in front of a row cannot tell. -/
def lengthBound : Nat := UInt64.size

namespace Reader

variable {α : Type}

/-! ### Numbers -/

/-- Taking `n` bytes gives back any row of `n` bytes, and looks no further. -/
theorem reads_take (n : Nat) : (take n).Reads (written (fun b => b) (·.size = n)) := by
  intro c hc b c'
  have hrun : take n c = .ok (b, c') ↔ c.take? n = some (b, c') := by
    rw [take]
    cases c.take? n <;> simp
  rw [hrun, Cursor.take?_iff hc]
  constructor
  · rintro ⟨rfl, ⟨t, hrest⟩, rfl⟩
    refine ⟨_, t, ⟨rfl, rfl⟩, hrest, ?_⟩
    rw [length_toList]
  · rintro ⟨w, t, ⟨rfl, rfl⟩, hrest, rfl⟩
    refine ⟨rfl, ⟨t, hrest⟩, ?_⟩
    rw [length_toList]

theorem size_putNumber (width n : Nat) : (putNumber width n).size = width := by
  rw [putNumber, List.size_toByteArray, length_leDigits]

/-- A number is read back if it fits its width; one that does not would come back reduced. -/
theorem reads_number (width : Nat) :
    (number width).Reads (written (putNumber width) (· < Nat.pow 256 width)) := by
  refine ((reads_take width).map fun b => ofLE b.data.toList).congr ?_
  intro n w
  constructor
  · rintro ⟨b, ⟨rfl, hsize⟩, rfl⟩
    have hlen : b.data.toList.length = width := by
      rw [length_toList, hsize]
    refine ⟨?_, hlen ▸ ofLE_lt b.data.toList⟩
    rw [← hlen, putNumber, leDigits_ofLE, toByteArray_toList]
  · rintro ⟨rfl, hlt⟩
    refine ⟨putNumber width n, ⟨rfl, size_putNumber width n⟩, ?_⟩
    rw [putNumber, List.data_toByteArray, ofLE_leDigits, Nat.mod_eq_of_lt hlt]

theorem reads_byte : byte.Reads (written putByte fun _ => True) :=
  (reads_number 1).recode (fun b => ⟨b.toNat_lt, UInt8.ofNat_toNat⟩)
    fun _ hn => UInt8.toNat_ofNat_of_lt' hn

theorem reads_u32 : u32.Reads (written putU32 fun _ => True) :=
  (reads_number 4).recode (fun n => ⟨n.toNat_lt, UInt32.ofNat_toNat⟩)
    fun _ hn => UInt32.toNat_ofNat_of_lt' hn

theorem reads_u64 : u64.Reads (written putU64 (· < lengthBound)) := reads_number 8

theorem reads_i64 : i64.Reads (written putI64 fun _ => True) := by
  refine (reads_number 8).recode (fun n => ⟨n.toUInt64.toNat_lt, ?_⟩) fun n hn => ?_
  · rw [Nat.toUInt64, UInt64.ofNat_toNat, Int64.toInt64_toUInt64]
  · rw [UInt64.toUInt64_toInt64]
    exact UInt64.toNat_ofNat_of_lt' hn

/-- Variant numbers are checked against the number of variants, so that an unknown one is a fault.
-/
theorem reads_variant {count : Nat} (hcount : count ≤ Nat.pow 256 4) :
    (variant count).Reads (written putVariant (· < count)) := by
  refine ((reads_number 4).bind (T := fun n m w => n < count ∧ n = m ∧ [] = w) ?_).congr ?_
  · intro n _ _
    split
    case isTrue hlt => exact (reads_pure n).congr fun m w => (and_iff_right hlt).symm
    case isFalse hge => exact (reads_throw _).congr fun m w => iff_of_false not_false (hge ·.1)
  · intro n w
    constructor
    · rintro ⟨_, u, v, ⟨rfl, -⟩, ⟨hlt, rfl, rfl⟩, rfl⟩
      exact ⟨(List.append_nil _).symm, hlt⟩
    · rintro ⟨rfl, hlt⟩
      exact ⟨n, _, [], ⟨rfl, Nat.lt_of_lt_of_le hlt hcount⟩, ⟨hlt, rfl, rfl⟩, List.append_nil _⟩

/-- A value of `count` kinds behind the number of its kind. The reader that goes on after a number
reads the values of that kind. -/
theorem reads_kinds {count : Nat} (hcount : count ≤ Nat.pow 256 4) (number : α → Nat)
    (body : Spelling α) (hnumber : ∀ a, number a < count) {k : Nat → Reader α}
    (hk : ∀ n < count, (k n).Reads fun a w => number a = n ∧ body a w) :
    (variant count >>= k).Reads fun a w =>
      ∃ v, body a v ∧ (putVariant (number a)).data.toList ++ v = w := by
  refine ((reads_variant hcount).bind fun n _ hn => hk n hn.2).congr ?_
  intro a w
  constructor
  · rintro ⟨_, _, v, ⟨rfl, -⟩, ⟨rfl, hbody⟩, rfl⟩
    exact ⟨v, hbody, rfl⟩
  · rintro ⟨v, hbody, rfl⟩
    exact ⟨number a, _, v, ⟨rfl, hnumber a⟩, ⟨rfl, hbody⟩, rfl⟩

/-- A value that is told by a number alone is read back if different values have different numbers.
-/
theorem reads_enum {count : Nat} (hcount : count ≤ Nat.pow 256 4) (number : α → Nat)
    (hnumber : ∀ a, number a < count) (hinj : ∀ a b, number a = number b → a = b)
    {k : Nat → Reader α} (hk : ∀ n < count, ∃ a, number a = n ∧ k n = pure a) :
    (variant count >>= k).Reads (written (fun a => putVariant (number a)) fun _ => True) := by
  refine (reads_kinds hcount number (fun _ w => [] = w) hnumber fun n hn => ?_).congr fun a w => ?_
  · obtain ⟨a, rfl, hpure⟩ := hk n hn
    rw [hpure]
    refine (reads_pure a).congr fun b w => and_congr_left fun _ => ?_
    exact ⟨fun h => h ▸ rfl, fun h => (hinj b a h).symm⟩
  · constructor
    · rintro ⟨v, rfl, rfl⟩
      exact ⟨(List.append_nil _).symm, trivial⟩
    · rintro ⟨rfl, -⟩
      exact ⟨[], rfl, List.append_nil _⟩

/-! ### Ids and keys -/

/-- An id is a row of twenty bytes without a length before it. -/
theorem reads_id : Reader.id.Reads (written putId fun _ => True) := by
  refine (reads_take Id.width).recode (g := fun b => Id.ofBytes b.data.toList)
    (f := fun i => i.toBytes.toByteArray) ?_ ?_
  · intro i
    refine ⟨?_, ?_⟩
    · rw [List.size_toByteArray, Id.length_toBytes]
    · rw [List.data_toByteArray, Id.ofBytes_toBytes]
  · intro b hb
    have hlen : b.data.toList.length = Id.width := by
      rw [length_toList, hb]
    rw [Id.toBytes_ofBytes hlen, toByteArray_toList]

theorem reads_key : key.Reads (written putKey fun _ => True) := by
  refine (reads_id.bind fun a _ _ => reads_id.bind fun b _ _ => reads_id.map (Key.mk a b)).congr ?_
  intro k w
  constructor
  · rintro ⟨a, _, _, ⟨rfl, -⟩, ⟨b, _, _, ⟨rfl, -⟩, ⟨c, ⟨rfl, -⟩, rfl⟩, rfl⟩, rfl⟩
    refine ⟨?_, trivial⟩
    rw [putKey, ByteArray.toList_data_append, ByteArray.toList_data_append, List.append_assoc]
  · rintro ⟨rfl, -⟩
    refine ⟨k.location, _, _, ⟨rfl, trivial⟩, ⟨k.domain, _, _, ⟨rfl, trivial⟩,
      ⟨k.content, ⟨rfl, trivial⟩, rfl⟩, rfl⟩, ?_⟩
    rw [putKey, ByteArray.toList_data_append, ByteArray.toList_data_append, List.append_assoc]

/-! ### Behind a length -/

/-- A row of bytes is read back if its length fits the eight bytes before it. -/
theorem reads_bytes : bytes.Reads (written putBytes (·.size < lengthBound)) := by
  refine (reads_u64.bind fun n _ _ => reads_take n).congr ?_
  intro b w
  constructor
  · rintro ⟨_, _, _, ⟨rfl, hlt⟩, ⟨rfl, rfl⟩, rfl⟩
    exact ⟨ByteArray.toList_data_append, hlt⟩
  · rintro ⟨rfl, hlt⟩
    exact ⟨b.size, _, _, ⟨rfl, hlt⟩, ⟨rfl, rfl⟩, ByteArray.toList_data_append.symm⟩

/-- The bytes of a text are a text, and no others are; so reading a text is undone by writing it. -/
theorem fromUTF8?_eq_some (b : ByteArray) (s : String) :
    String.fromUTF8? b = some s ↔ b = s.toUTF8 := by
  rw [String.fromUTF8?]
  constructor
  · intro h
    split at h
    case isTrue hvalid => exact congrArg String.toUTF8 (Option.some.inj h)
    case isFalse => cases h
  · rintro rfl
    exact dif_pos s.isValidUTF8

/-- A text is read back from its bytes, since what was written is well-formed UTF-8. -/
theorem reads_text : text.Reads (written putText (·.toUTF8.size < lengthBound)) := by
  refine (reads_u64.bind (T := fun n s w => s.toUTF8.size = n ∧ s.toUTF8.data.toList = w)
    fun n _ _ => ?_).congr ?_
  · intro c hc s c'
    constructor
    · intro h
      dsimp only at h
      split at h
      case h_1 => cases h
      case h_2 raw c₁ htake =>
        split at h
        case h_1 s' hs' =>
          obtain ⟨rfl, rfl⟩ := Prod.mk.inj (Except.ok.inj h)
          obtain rfl := (fromUTF8?_eq_some raw s').mp hs'
          obtain ⟨rfl, ⟨t, hrest⟩, rfl⟩ := (Cursor.take?_iff hc).mp htake
          refine ⟨_, t, ⟨rfl, rfl⟩, hrest, ?_⟩
          rw [length_toList]
        case h_2 => cases h
    · rintro ⟨w, t, ⟨rfl, rfl⟩, hrest, rfl⟩
      have htake : c.take? s.toUTF8.size = some (s.toUTF8, c.ahead s.toUTF8.size) :=
        (Cursor.take?_iff hc).mpr ⟨rfl, ⟨t, hrest⟩, rfl⟩
      simp only [htake, (fromUTF8?_eq_some _ s).mpr rfl, length_toList]
  · intro s w
    constructor
    · rintro ⟨_, _, _, ⟨rfl, hlt⟩, ⟨rfl, rfl⟩, rfl⟩
      exact ⟨ByteArray.toList_data_append, hlt⟩
    · rintro ⟨rfl, hlt⟩
      exact ⟨_, _, _, ⟨rfl, hlt⟩, ⟨rfl, rfl⟩, ByteArray.toList_data_append.symm⟩

/-! ### Optional and repeated fields -/

variable {item : Reader α} {put : α → ByteArray} {fits : α → Prop}

/-- A reader for an item gives one for an item that may be missing. -/
theorem reads_optional (h : item.Reads (written put fits)) :
    (optional item).Reads (written (putOptional put) fun o => ∀ a, o = some a → fits a) := by
  refine (reads_byte.bind (T := fun tag o w => (tag = 0 ∧ o = none ∧ [] = w) ∨
    (tag = 1 ∧ ∃ a, written put fits a w ∧ some a = o)) fun tag _ _ => ?_).congr ?_
  · split
    case h_1 => exact (reads_pure none).congr fun o w => by simp [eq_comm]
    case h_2 => exact (h.map some).congr fun o w => by simp
    case h_3 => exact (reads_throw _).congr fun o w => by simp_all
  · intro o w
    constructor
    · rintro ⟨tag, _, v, ⟨rfl, -⟩, ⟨rfl, rfl, rfl⟩ | ⟨rfl, a, ⟨rfl, hfits⟩, rfl⟩, rfl⟩
      · exact ⟨(List.append_nil _).symm, fun a ha => nomatch ha⟩
      · exact ⟨ByteArray.toList_data_append, fun b hb => Option.some.inj hb ▸ hfits⟩
    · rintro ⟨rfl, hfits⟩
      cases o with
      | none => exact ⟨0, _, [], ⟨rfl, trivial⟩, .inl ⟨rfl, rfl, rfl⟩, List.append_nil _⟩
      | some a =>
        exact ⟨1, _, _, ⟨rfl, trivial⟩, .inr ⟨rfl, a, ⟨rfl, hfits a rfl⟩, rfl⟩,
          ByteArray.toList_data_append.symm⟩

theorem toList_putItems (put : α → ByteArray) (l : List α) : (putItems put l).data.toList =
    (putU64 l.length).data.toList ++ l.flatMap fun a => (put a).data.toList :=
  toList_foldl (f := fun out a => out ++ put a) (fun _ _ => ByteArray.toList_data_append) l _

/-- A list takes eight bytes and the bytes of its items. -/
theorem size_putItems (put : α → ByteArray) (l : List α) :
    (putItems put l).size = 8 + (l.flatMap fun a => (put a).data.toList).length := by
  have h := congrArg List.length (toList_putItems put l)
  rwa [length_toList, List.length_append, length_toList, putU64, size_putNumber] at h

/-- The loop over the items, with those read so far in front. The count was read before, so the
items are as many as it says. -/
theorem reads_itemsInto (h : item.Reads (written put fits)) (n : Nat) (done : Array α) :
    (itemsInto item n done).Reads fun all w => ∃ l : List α, l.length = n ∧ (∀ a ∈ l, fits a) ∧
      all = done ++ l.toArray ∧ (l.flatMap fun a => (put a).data.toList) = w := by
  -- the items read so far stay in front of the `n` items to come
  induction n generalizing done with
  | zero =>
    refine (reads_pure done).congr fun all w => ?_
    constructor
    · rintro ⟨rfl, rfl⟩
      exact ⟨[], rfl, by simp, by simp, rfl⟩
    · rintro ⟨l, hl, -, rfl, rfl⟩
      obtain rfl := List.eq_nil_of_length_eq_zero hl
      simp
  | succ n ih =>
    refine (h.bind fun a _ _ => ih (done.push a)).congr fun all w => ?_
    constructor
    · rintro ⟨a, _, _, ⟨rfl, ha⟩, ⟨l, rfl, hl, rfl, rfl⟩, rfl⟩
      exact ⟨a :: l, rfl, List.forall_mem_cons.mpr ⟨ha, hl⟩, by simp, rfl⟩
    · rintro ⟨_ | ⟨a, l⟩, hlen, hfits, rfl, rfl⟩
      · cases hlen
      · obtain ⟨ha, hl⟩ := List.forall_mem_cons.mp hfits
        exact ⟨a, _, _, ⟨rfl, ha⟩, ⟨l, Nat.succ.inj hlen, hl, by simp, rfl⟩, rfl⟩

/-- A reader for an item gives one for lists of items. -/
theorem reads_items (h : item.Reads (written put fits)) : (items item).Reads
    (written (putItems put) fun l => l.length < lengthBound ∧ ∀ a ∈ l, fits a) := by
  refine (reads_u64.bind fun n _ _ => (reads_itemsInto h n #[]).map Array.toList).congr ?_
  intro l w
  constructor
  · rintro ⟨_, _, _, ⟨rfl, hlt⟩, ⟨_, ⟨l, rfl, hfits, rfl, rfl⟩, rfl⟩, rfl⟩
    rw [Array.empty_append, List.toList_toArray]
    exact ⟨toList_putItems put l, hlt, hfits⟩
  · rintro ⟨rfl, hlt, hfits⟩
    refine ⟨l.length, _, _, ⟨rfl, hlt⟩, ⟨_, ⟨l, rfl, hfits, rfl, rfl⟩, ?_⟩, ?_⟩
    · rw [Array.empty_append, List.toList_toArray]
    · rw [toList_putItems]

/-- Items that are short enough together fit one by one, and so does their number, as none is empty.
-/
theorem items_fit (put : α → ByteArray) (fits : α → Prop) (hput : ∀ a, 1 ≤ (put a).size)
    (hfits : ∀ a, (put a).size < lengthBound → fits a) {l : List α}
    (hsize : (putItems put l).size < lengthBound) :
    l.length < lengthBound ∧ ∀ a ∈ l, fits a := by
  rw [size_putItems] at hsize
  constructor
  · have hlen := length_le_flatMap (f := fun a => (put a).data.toList) hput l
    omega
  · intro a ha
    have hle := length_le_length_flatMap (f := fun a => (put a).data.toList) ha
    rw [length_toList] at hle
    exact hfits a (by omega)

end Reader

end DeltaMesh.Wire
