import DeltaMesh.Store.Persistent
import DeltaMesh.Proofs.Wire.Field

/-!
# Files of a store

Every key has a file of its own in the directory of a store (`entryName_inj`), which is told from
a temporary file by its name (`extension?_entryName`, `extension?_temporaryName`), and from what is
written to it the key and the value are read back (`readEntryFile_fileContent`).
-/

namespace DeltaMesh

open Wire

/-! ### Hexadecimal names -/

namespace Hex

/-- Two rows of bytes with the same digits are equal: two digits belong to each byte. -/
theorem encodeBytes_inj {a b : List UInt8} (h : encodeBytes a = encodeBytes b) : a = b := by
  have := decodePairs_encodeBytes a 0
  rw [h, decodePairs_encodeBytes] at this
  exact (Except.ok.inj this).symm

theorem ofNat_toNat_inj {a b : UInt8} (h : Char.ofNat a.toNat = Char.ofNat b.toNat) : a = b := by
  have hchar : ∀ n : Fin 256, (Char.ofNat n).toNat = n := by decide +kernel
  have hnat := congrArg Char.toNat h
  rw [hchar ⟨a.toNat, a.toNat_lt⟩, hchar ⟨b.toNat, b.toNat_lt⟩] at hnat
  exact UInt8.toNat_inj.mp hnat

theorem encode_inj {a b : List UInt8} (h : encode a = encode b) : a = b := by
  have htext := congrArg String.toList h
  rw [encode, encode, asciiText, asciiText, String.toList_ofList, String.toList_ofList] at htext
  exact encodeBytes_inj ((List.map_inj_right fun _ _ => ofNat_toNat_inj).mp htext)

/-- The sixteen digits. -/
def digits : List Char := "0123456789abcdef".toList

/-- Only lower-case digits are written; neither a point nor a slash is among them. -/
theorem mem_digits {bytes : List UInt8} {c : Char} (h : c ∈ (encode bytes).toList) :
    c ∈ digits := by
  have hdigit : ∀ n : Fin 256, Char.ofNat (digit (UInt8.ofNat n >>> 4)).toNat ∈ digits ∧
      Char.ofNat (digit (UInt8.ofNat n &&& 15)).toNat ∈ digits := by decide +kernel
  rw [encode, asciiText, String.toList_ofList, List.mem_map] at h
  obtain ⟨d, hd, rfl⟩ := h
  obtain ⟨b, -, hb⟩ := List.mem_flatMap.mp hd
  have hb' := hdigit ⟨b.toNat, b.toNat_lt⟩
  simp only [UInt8.ofNat_toNat] at hb'
  simp only [List.mem_cons, List.not_mem_nil, or_false] at hb
  rcases hb with rfl | rfl
  · exact hb'.1
  · exact hb'.2

end Hex

theorem Id.toHex_inj {a b : Id} (h : a.toHex = b.toHex) : a = b := by
  have := Hex.encode_inj h
  rw [← ofBytes_toBytes a, this, ofBytes_toBytes]

theorem Id.length_toHex (i : Id) : i.toHex.toList.length = 2 * width := by
  rw [toHex, Hex.encode, Hex.asciiText, String.toList_ofList, List.length_map,
    Hex.length_encodeBytes, length_toBytes]

/-! ### Names -/

theorem Disk.extension?_of_toList (front ending : List Char) {name : String}
    (h : name.toList = front ++ '.' :: ending) (hfront : front ≠ []) (hending : '.' ∉ ending) :
    Disk.extension? name = some (String.ofList ending) := by
  have hall : ∀ c ∈ ending.reverse, decide (c ≠ '.') = true := fun c hc =>
    decide_eq_true fun heq => hending (heq ▸ List.mem_reverse.mp hc)
  have hrev : name.toList.reverse = ending.reverse ++ '.' :: front.reverse := by
    rw [h, List.reverse_append, List.reverse_cons, List.append_assoc, List.singleton_append]
  have hdrop : name.toList.reverse.dropWhile (· ≠ '.') = '.' :: front.reverse := by
    rw [hrev, List.dropWhile_append_of_pos hall, List.dropWhile_cons_of_neg (by simp)]
  have htake : name.toList.reverse.takeWhile (· ≠ '.') = ending.reverse := by
    rw [hrev, List.takeWhile_append_of_pos hall, List.takeWhile_cons_of_neg (by simp),
      List.append_nil]
  obtain ⟨c, rest, hrest⟩ := List.exists_cons_of_ne_nil (List.reverse_ne_nil_iff.mpr hfront)
  rw [Disk.extension?, hdrop, hrest, htake, List.reverse_reverse]

/-- The name of a file with an extension is not empty. -/
theorem Disk.isEmpty_of_extension? {name ending : String} (h : extension? name = some ending) :
    name.isEmpty = false := by
  refine Bool.eq_false_iff.mpr fun hempty => ?_
  rw [String.isEmpty_iff] at hempty
  subst hempty
  cases h

namespace PersistentStore

/-- The name of an entry file spells out the three parts of its key. -/
theorem toList_entryName (k : Key) : (entryName k).toList =
    k.location.toHex.toList ++ ('-' :: (k.domain.toHex.toList ++ ('-' ::
      (k.content.toHex.toList ++ ".entry".toList)))) := by
  simp [entryName]

/-- Different keys have different files. The three ids have fixed lengths, so the name can be cut up
again. -/
theorem entryName_inj {a b : Key} (h : entryName a = entryName b) : a = b := by
  have htext := congrArg String.toList h
  have hlen : ∀ i j : Id, i.toHex.toList.length = j.toHex.toList.length := fun i j => by
    rw [Id.length_toHex, Id.length_toHex]
  rw [toList_entryName, toList_entryName] at htext
  obtain ⟨hlocation, hrest⟩ := List.append_inj htext (hlen _ _)
  obtain ⟨hdomain, hrest⟩ := List.append_inj (List.cons.inj hrest).2 (hlen _ _)
  obtain ⟨hcontent, -⟩ := List.append_inj (List.cons.inj hrest).2 (hlen _ _)
  have hid : ∀ {i j : Id}, i.toHex.toList = j.toHex.toList → i = j := fun h =>
    Id.toHex_inj (String.toList_inj.mp h)
  cases a; cases b
  rw [Key.mk.injEq]
  exact ⟨hid hlocation, hid hdomain, hid hcontent⟩

/-- The ending of an entry file tells it from all others. -/
theorem extension?_entryName (k : Key) : Disk.extension? (entryName k) = some "entry" := by
  refine Disk.extension?_of_toList
    (k.location.toHex.toList ++ ('-' :: (k.domain.toHex.toList ++ ('-' :: k.content.toHex.toList))))
    "entry".toList ?_ (by simp) (by decide)
  simp [toList_entryName]

/-- The ending of a temporary file is another one. -/
theorem extension?_temporaryName (k : Key) (n : Nat) :
    Disk.extension? (temporaryName k n) = some "tmp" := by
  refine Disk.extension?_of_toList (k.content.toHex.toList ++ ('.' :: (toString n).toList))
    "tmp".toList ?_ (by simp) (by decide)
  simp [temporaryName]

/-- No temporary file has the name of an entry. -/
theorem entryName_ne_temporaryName (k k' : Key) (n : Nat) : entryName k ≠ temporaryName k' n := by
  intro h
  have hextension := congrArg Disk.extension? h
  rw [extension?_entryName, extension?_temporaryName] at hextension
  exact absurd (Option.some.inj hextension) (by decide)

/-- The name does not lead out of the directory. -/
theorem slash_not_mem_entryName (k : Key) : '/' ∉ (entryName k).toList := by
  have hhex : ∀ i : Id, '/' ∉ i.toHex.toList := fun i h =>
    absurd (Hex.mem_digits h) (by decide)
  simp [toList_entryName, hhex]

/-- An entry file gives back its key and its value. -/
theorem readEntryFile_fileContent (k : Key) {value : ByteArray} (h : value.size < lengthBound) :
    readEntryFile (fileContent k value) = .ok (k, value) := by
  refine
    ((Reader.reads_key.bind fun k _ _ => Reader.reads_bytes.map (Prod.mk k)).decode_iff _ _).mpr ?_
  refine ⟨_, ⟨k, _, _, ⟨rfl, trivial⟩, ⟨value, ⟨rfl, h⟩, rfl⟩, rfl⟩, ?_⟩
  have hcontent : (fileContent k value).data.toList =
      (putKey k).data.toList ++ (putBytes value).data.toList := ByteArray.toList_data_append
  exact hcontent ▸ List.prefix_rfl

end PersistentStore

end DeltaMesh
