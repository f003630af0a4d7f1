import DeltaMesh.Store.Entries
import Mathlib.Algebra.GroupWithZero.Nat
import Mathlib.Data.List.Nodup
import Mathlib.Data.List.Perm.Subperm

/-!
# Entering and listing values

What `Entries.ofPairs` makes of a row of pairs: a key leads to the value of its last pair
(`getElem?_ofPairs`), the pairs that a map lists give the map back (`ofPairs_toList`), and a map
lists the pairs that it was made of if their keys are different (`toList_ofPairs_perm`). The
values under a location are those that are stored there (`mem_under`), each once (`nodup_under`),
and the locations of a map are those of its keys (`mem_locations`), each once (`nodup_locations`).
-/

namespace DeltaMesh.Entries

/-- Entering the pairs one after the other, as a frame is read, is the map that the library builds
from the list. -/
theorem ofPairs_eq_ofList (pairs : List (Key × ByteArray)) :
    ofPairs pairs = .ofList pairs compare := by
  rw [Std.ExtTreeMap.ofList_eq_foldl]
  rfl

/-- Of several values under one key the last one stays. -/
theorem getElem?_ofPairs (pairs : List (Key × ByteArray)) (key : Key) :
    (ofPairs pairs)[key]? =
      pairs.findSomeRev? fun p => if p.1 = key then some p.2 else none := by
  rw [ofPairs_eq_ofList, Std.ExtTreeMap.ofList_eq_insertMany_empty,
    Std.ExtTreeMap.getElem?_insertMany_list, Std.ExtTreeMap.getElem?_empty, Option.or_none]
  simp only [Std.LawfulEqOrd.compare_eq_iff_eq]

/-- A map is made again from its pairs; so an entry map loses nothing when it is listed in a COPY.
-/
theorem ofPairs_toList (e : Entries) : ofPairs e.toList = e := by
  rw [ofPairs_eq_ofList]
  apply Std.ExtTreeMap.ext_getElem?
  intro key
  cases hkey : e[key]? with
  | some value =>
    exact Std.ExtTreeMap.getElem?_ofList_of_mem Std.ReflOrd.compare_self
      Std.ExtTreeMap.distinct_keys_toList (Std.ExtTreeMap.mem_toList_iff_getElem?_eq_some.mpr hkey)
  | none =>
    refine Std.ExtTreeMap.getElem?_ofList_of_contains_eq_false ?_
    have hnot : key ∉ e := by rw [Std.ExtTreeMap.mem_iff_isSome_getElem?, hkey]; simp
    rw [Std.ExtTreeMap.map_fst_toList_eq_keys]
    simp [hnot]

theorem mem_of_mem_toList {e : Entries} {key : Key} {value : ByteArray}
    (h : (key, value) ∈ e.toList) : key ∈ e := by
  rw [Std.ExtTreeMap.mem_iff_isSome_getElem?,
    Std.ExtTreeMap.mem_toList_iff_getElem?_eq_some.mp h]
  rfl

theorem toList_ofPairs_single (key : Key) (value : ByteArray) :
    (ofPairs [(key, value)]).toList = [(key, value)] := by
  have hlen : (ofPairs [(key, value)]).toList.length = 1 := by
    rw [Std.ExtTreeMap.length_toList, ofPairs, List.foldl_cons, List.foldl_nil,
      Std.ExtTreeMap.size_insert]
    simp
  have hmem : (key, value) ∈ (ofPairs [(key, value)]).toList := by
    rw [Std.ExtTreeMap.mem_toList_iff_getElem?_eq_some, getElem?_ofPairs]
    simp
  obtain ⟨entry, hentry⟩ := List.length_eq_one_iff.mp hlen
  rw [hentry] at hmem ⊢
  rw [List.mem_singleton.mp hmem]

section

variable (pairs : List (Key × ByteArray))

theorem ofPairs_concat (key : Key) (value : ByteArray) :
    ofPairs (pairs ++ [(key, value)]) = (ofPairs pairs).insert key value :=
  List.foldl_append

variable {pairs} in
/-- Every key of the list is in the map, also one that occurs twice. -/
theorem mem_ofPairs {key : Key} : key ∈ ofPairs pairs ↔ key ∈ pairs.map Prod.fst := by
  rw [ofPairs_eq_ofList, Std.ExtTreeMap.mem_ofList, List.contains_iff_mem]

theorem isEmpty_ofPairs : (ofPairs pairs).isEmpty = pairs.isEmpty := by
  rw [ofPairs_eq_ofList, Std.ExtTreeMap.ofList_eq_insertMany_empty,
    Std.ExtTreeMap.isEmpty_insertMany_list, Std.ExtTreeMap.isEmpty_empty, Bool.true_and]

end

/-- Different keys stay different as keys of a map. -/
theorem pairwise_compare_of_nodup {pairs : List (Key × ByteArray)}
    (hnodup : (pairs.map Prod.fst).Nodup) : pairs.Pairwise fun a b => ¬compare a.1 b.1 = .eq :=
  (List.pairwise_map.mp hnodup).imp fun hne heq => hne (Std.LawfulEqOrd.eq_of_compare heq)

/-- Where no key occurs twice the map lists the same pairs again, though in key order. -/
theorem toList_ofPairs_perm {pairs : List (Key × ByteArray)}
    (hnodup : (pairs.map Prod.fst).Nodup) : (ofPairs pairs).toList.Perm pairs := by
  have hdistinct := pairwise_compare_of_nodup hnodup
  have hsubset : pairs ⊆ (ofPairs pairs).toList := by
    rintro ⟨key, value⟩ hmem
    rw [ofPairs_eq_ofList, Std.ExtTreeMap.mem_toList_iff_getElem?_eq_some]
    exact Std.ExtTreeMap.getElem?_ofList_of_mem Std.ReflOrd.compare_self hdistinct hmem
  have hlength : (ofPairs pairs).toList.length = pairs.length := by
    rw [Std.ExtTreeMap.length_toList, ofPairs_eq_ofList, Std.ExtTreeMap.size_ofList hdistinct]
  exact (((List.Nodup.of_map _ hnodup).subperm hsubset).perm_of_length_le
    (Nat.le_of_eq hlength)).symm

/-- Pairs in key order are listed as they are. -/
theorem toList_ofPairs_of_pairwise {pairs : List (Key × ByteArray)}
    (h : pairs.Pairwise fun a b => compare a.1 b.1 = .lt) : (ofPairs pairs).toList = pairs := by
  have hnodup : (pairs.map Prod.fst).Nodup := List.pairwise_map.mpr <| h.imp fun hlt heq => by
    rw [heq, Std.ReflOrd.compare_self] at hlt
    cases hlt
  refine (toList_ofPairs_perm hnodup).eq_of_pairwise (fun a b _ _ hab hba => ?_)
    Std.ExtTreeMap.ordered_keys_toList h
  have hswap : compare a.1 b.1 = (compare b.1 a.1).swap := Std.OrientedCmp.eq_swap
  rw [hab, hba] at hswap
  cases hswap

/-! ### How many bytes the values have -/

/-- The total length of the values of a row. -/
def bytesOf (row : List (Key × ByteArray)) : Nat := (row.map (·.2.size)).sum

theorem bytesOf_concat (row : List (Key × ByteArray)) (key : Key) (value : ByteArray) :
    bytesOf (row ++ [(key, value)]) = bytesOf row + value.size := by
  simp [bytesOf]

theorem bytesOf_le_append (row rest : List (Key × ByteArray)) :
    bytesOf row ≤ bytesOf (row ++ rest) := by
  simp [bytesOf]

/-- The bytes of a map are counted pair by pair; no value counts twice. -/
theorem totalBytes_eq (e : Entries) : e.totalBytes = bytesOf e.toList := by
  rw [totalBytes, Std.ExtTreeMap.foldl_eq_foldl_toList, bytesOf, List.sum_eq_foldl, List.foldl_map]

/-- Without a repeated key no pair is overwritten, so the bytes of all of them count. -/
theorem totalBytes_ofPairs {pairs : List (Key × ByteArray)}
    (hnodup : (pairs.map Prod.fst).Nodup) : (ofPairs pairs).totalBytes = bytesOf pairs := by
  rw [totalBytes_eq]
  exact ((toList_ofPairs_perm hnodup).map _).sum_nat

/-- Without a repeated key every pair has an entry of its own. -/
theorem size_ofPairs {pairs : List (Key × ByteArray)} (hnodup : (pairs.map Prod.fst).Nodup) :
    (ofPairs pairs).size = pairs.length := by
  rw [← Std.ExtTreeMap.length_toList]
  exact (toList_ofPairs_perm hnodup).length_eq

/-! ### The values under a location -/

variable (e : Entries) (location : Id)

/-- The range from `firstUnder` to `lastUnder` holds exactly the pairs whose key lies under the
location, in key order: keys are ordered by location first. -/
theorem under_eq_filter : e.under location = e.toList.filter fun p => p.1.location = location := by
  rw [under, Std.ExtTreeMap.foldr_eq_foldr_toList]
  induction e.toList with
  | nil => rfl
  | cons p rest ih =>
    rw [List.foldr_cons, ih, List.filter_cons]
    simp only [decide_eq_true_eq]

variable {e location}

/-- What is listed under a location is what is stored there, neither more nor less. -/
theorem mem_under {key : Key} {value : ByteArray} :
    (key, value) ∈ e.under location ↔ key.location = location ∧ e[key]? = some value := by
  rw [under_eq_filter, List.mem_filter, Std.ExtTreeMap.mem_toList_iff_getElem?_eq_some,
    decide_eq_true_eq, and_comm]

variable (e location)

/-- The values are listed in key order. -/
theorem pairwise_under : (e.under location).Pairwise fun a b => compare a.1 b.1 = .lt := by
  rw [under_eq_filter]
  exact Std.ExtTreeMap.ordered_keys_toList.filter _

/-- No key is listed twice under its location. -/
theorem nodup_under : ((e.under location).map Prod.fst).Nodup := by
  have hkeys : (e.toList.map Prod.fst).Nodup := by
    rw [Std.ExtTreeMap.map_fst_toList_eq_keys]
    exact Std.ExtTreeMap.nodup_keys
  rw [under_eq_filter]
  exact hkeys.sublist (List.filter_sublist.map Prod.fst)

theorem length_under_le : (e.under location).length ≤ e.size := by
  rw [under_eq_filter, ← Std.ExtTreeMap.length_toList]
  exact List.length_filter_le ..

/-- The values under different locations are different ones, so together they are no more than all.
-/
theorem sum_length_under_le {locations : List Id} (h : locations.Nodup) :
    (locations.map fun location => (e.under location).length).sum ≤ e.size := by
  have hlisted : (locations.flatMap e.under).Nodup := by
    refine List.nodup_flatMap.mpr ⟨fun location _ => .of_map _ (e.nodup_under location), ?_⟩
    refine h.imp fun hne => ?_
    rintro ⟨key, value⟩ hleft hright
    exact hne ((mem_under.mp hleft).1.symm.trans (mem_under.mp hright).1)
  have hsubset : locations.flatMap e.under ⊆ e.toList := by
    rintro ⟨key, value⟩ hmem
    obtain ⟨location, -, hunder⟩ := List.mem_flatMap.mp hmem
    exact Std.ExtTreeMap.mem_toList_iff_getElem?_eq_some.mpr (mem_under.mp hunder).2
  rw [← List.length_flatMap, ← Std.ExtTreeMap.length_toList]
  exact (hlisted.subperm hsubset).length_le

/-! ### Locations -/

/-- Of each run of equal ids one is left. -/
def headings (ids : List Id) : List Id :=
  ids.foldr (fun id rest => if rest.head? = some id then rest else id :: rest) []

theorem head?_headings (ids : List Id) : (headings ids).head? = ids.head? := by
  cases ids with
  | nil => rfl
  | cons id ids =>
    rw [headings, List.foldr_cons]
    split
    case isTrue h => exact h
    case isFalse => rfl

/-- Dropping repetitions that stand side by side drops no id altogether. -/
theorem mem_headings {id : Id} {ids : List Id} : id ∈ headings ids ↔ id ∈ ids := by
  induction ids with
  | nil => rfl
  | cons first ids ih =>
    rw [headings, List.foldr_cons, ← headings]
    split
    case isTrue h =>
      have hfirst : first ∈ ids := List.mem_of_head? (head?_headings ids ▸ h)
      rw [ih, List.mem_cons]
      exact ⟨.inr, fun hid => hid.elim (fun heq => heq ▸ hfirst) (·)⟩
    case isFalse => rw [List.mem_cons, List.mem_cons, ih]

/-- In ascending order equal ids are neighbours, so that dropping repetitions leaves a strictly
ascending row. -/
theorem pairwise_headings {ids : List Id}
    (h : ids.Pairwise fun a b => (compare a b).isLE = true) :
    (headings ids).Pairwise fun a b => compare a b = .lt := by
  induction ids with
  | nil => exact .nil
  | cons first ids ih =>
    obtain ⟨hfirst, hids⟩ := List.pairwise_cons.mp h
    rw [headings, List.foldr_cons, ← headings]
    split
    case isTrue => exact ih hids
    case isFalse hne =>
      refine List.pairwise_cons.mpr ⟨fun id hid => ?_, ih hids⟩
      have hid := mem_headings.mp hid
      have hle := hfirst id hid
      cases hcompare : compare first id with
      | lt => rfl
      | gt => rw [hcompare] at hle; cases hle
      | eq =>
        -- the id after the first one would be between two equal ids
        obtain rfl := Std.LawfulEqOrd.eq_of_compare hcompare
        refine absurd ?_ hne
        rw [head?_headings]
        cases ids with
        | nil => cases hid
        | cons next ids =>
          rcases List.mem_cons.mp hid with rfl | hmem
          · rfl
          · have hback := (List.pairwise_cons.mp hids).1 first hmem
            have hequal := Std.OrientedCmp.isLE_antisymm (hfirst next List.mem_cons_self) hback
            rw [Std.LawfulEqOrd.eq_of_compare hequal]
            rfl

/-- Walking over the entries and dropping repetitions names the locations of all keys. It is enough
to compare neighbours, since the keys of one location stand side by side. -/
theorem locations_eq : e.locations = headings (e.toList.map (·.1.location)) := by
  rw [locations, Std.ExtTreeMap.foldr_eq_foldr_toList, headings, List.foldr_map]

/-- The locations of ascending keys ascend. -/
theorem location_isLE {k k' : Key} (h : compare k k' = .lt) :
    (compare k.location k'.location).isLE = true := by
  have h : Key.order k k' = .lt := h
  rw [Key.order, compareLex, Ordering.then_eq_lt] at h
  rcases h with hlt | ⟨heq, -⟩
  · rw [show compare k.location k'.location = .lt from hlt]
    rfl
  · rw [show compare k.location k'.location = .eq from heq]
    rfl

/-- No location is named twice; this is where the order of the keys is needed. -/
theorem nodup_locations : e.locations.Nodup := by
  have hsorted : (e.toList.map (·.1.location)).Pairwise fun a b => (compare a b).isLE = true :=
    List.pairwise_map.mpr (Std.ExtTreeMap.ordered_keys_toList.imp location_isLE)
  rw [locations_eq]
  refine (pairwise_headings hsorted).imp fun hlt heq => ?_
  rw [heq, Std.ReflOrd.compare_self] at hlt
  cases hlt

variable {e location} in
/-- A location is named if and only if some value is stored under it. -/
theorem mem_locations :
    location ∈ e.locations ↔
      ∃ (k : Key) (value : ByteArray), k.location = location ∧ e[k]? = some value := by
  rw [locations_eq, mem_headings, List.mem_map]
  constructor
  · rintro ⟨⟨k, value⟩, hp, rfl⟩
    exact ⟨k, value, rfl, Std.ExtTreeMap.mem_toList_iff_getElem?_eq_some.mp hp⟩
  · rintro ⟨k, value, rfl, hvalue⟩
    exact ⟨(k, value), Std.ExtTreeMap.mem_toList_iff_getElem?_eq_some.mpr hvalue, rfl⟩

variable {e location} in
/-- A location is named only if it has values. -/
theorem under_ne_nil (h : location ∈ e.locations) : e.under location ≠ [] := by
  obtain ⟨k, value, hk, hvalue⟩ := mem_locations.mp h
  exact List.ne_nil_of_mem (mem_under.mpr ⟨hk, hvalue⟩)

/-! ### A single value -/

section

variable (key : Key) (value : ByteArray)

theorem getElem?_single : (ofPairs [(key, value)])[key]? = some value := by
  rw [getElem?_ofPairs]
  simp

theorem eq_of_getElem?_single {k : Key} {v : ByteArray}
    (h : (ofPairs [(key, value)])[k]? = some v) : key = k ∧ value = v := by
  rw [getElem?_ofPairs] at h
  simpa using h

theorem locations_single : (ofPairs [(key, value)]).locations = [key.location] := by
  rw [locations_eq, toList_ofPairs_single]
  rfl

theorem mem_locations_single {location : Id} : location ∈ (ofPairs [(key, value)]).locations ↔
    key.location = location := by
  rw [locations_single, List.mem_singleton, eq_comm]

/-- It is all that there is under its location. -/
theorem under_single : (ofPairs [(key, value)]).under key.location = [(key, value)] := by
  rw [under_eq_filter, toList_ofPairs_single]
  simp

theorem size_single : (ofPairs [(key, value)]).size = 1 := by
  rw [← Std.ExtTreeMap.length_toList, toList_ofPairs_single, List.length_singleton]

theorem totalBytes_single : (ofPairs [(key, value)]).totalBytes = value.size := by
  rw [totalBytes_eq, toList_ofPairs_single, bytesOf, List.map_singleton, List.sum_singleton]

end

end DeltaMesh.Entries
