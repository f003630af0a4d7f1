import DeltaMesh.Proofs.Store.Entries

/-!
# The locations divide a store

Keys are ordered by location first, so those of a location are the ones from its first key to its
last, extreme domains and contents included (`Key.location_eq_iff`). Hence the values under one
location are neighbours, the values under the locations one after the other are all values in key
order (`Entries.flatMap_under_locations`), and a single pass over them, which only looks at the
location that it was last at, counts the locations (`Entries.tally_eq_census`).

Main statement: `Entries.locations_partition`.
-/

namespace DeltaMesh

/-! ### The keys of a location -/

namespace Id

theorem isLE_iff {a b : Id} : (compare a b).isLE = true ↔ a.value ≤ b.value :=
  isLE_compareOfLessAndEq (fun h h' => BitVec.le_antisymm h h') BitVec.not_le BitVec.le_total

theorem zero_isLE (i : Id) : (compare zero i).isLE = true := by
  rw [isLE_iff, BitVec.le_def]
  exact Nat.zero_le _

theorem isLE_max (i : Id) : (compare i max).isLE = true := by
  rw [isLE_iff]
  exact BitVec.not_lt.mp BitVec.not_allOnes_lt

end Id

namespace Key

/-- Keys are compared by location, then by domain, then by content. -/
theorem compare_eq (a b : Key) : compare a b =
    (compare a.location b.location).then
      ((compare a.domain b.domain).then (compare a.content b.content)) := rfl

/-- No key of a location comes before the first one. -/
theorem firstUnder_isLE (k : Key) : (compare (firstUnder k.location) k).isLE = true := by
  have hdomain := k.domain.zero_isLE
  have hcontent := k.content.zero_isLE
  rw [compare_eq, firstUnder, Std.ReflOrd.compare_self, Ordering.eq_then,
    Ordering.isLE_then_iff_and]
  exact ⟨hdomain, .inr hcontent⟩

/-- No key of a location comes behind the last one. -/
theorem isLE_lastUnder (k : Key) : (compare k (lastUnder k.location)).isLE = true := by
  have hdomain := k.domain.isLE_max
  have hcontent := k.content.isLE_max
  rw [compare_eq, lastUnder, Std.ReflOrd.compare_self, Ordering.eq_then,
    Ordering.isLE_then_iff_and]
  exact ⟨hdomain, .inr hcontent⟩

/-- The keys of a location are those from its first to its last. -/
theorem location_eq_iff {k : Key} {location : Id} : k.location = location ↔
    (compare (firstUnder location) k).isLE = true ∧
      (compare k (lastUnder location)).isLE = true := by
  constructor
  · rintro rfl
    exact ⟨k.firstUnder_isLE, k.isLE_lastUnder⟩
  · rintro ⟨hfirst, hlast⟩
    rw [compare_eq, Ordering.isLE_then_iff_and] at hfirst hlast
    exact Std.LawfulEqOrd.eq_of_compare (Std.OrientedCmp.isLE_antisymm hlast.1 hfirst.1)

/-- Of two keys under different locations the location decides. -/
theorem compare_of_location {a b : Key} (h : compare a.location b.location = .lt) :
    compare a b = .lt := by
  rw [compare_eq, h]
  rfl

end Key

namespace Entries

variable (e : Entries)

/-! ### The values of a range of keys -/

/-- The values with keys from `first` to `last`, in key order. -/
def between (first last : Key) : List (Key × ByteArray) :=
  e.toList.filter fun p => (compare first p.1).isLE && (compare p.1 last).isLE

/-- The range query is the filter between the two keys at the ends. -/
theorem under_eq_between (location : Id) :
    e.under location = e.between (.firstUnder location) (.lastUnder location) := by
  rw [under_eq_filter, between]
  refine List.filter_congr fun p _ => ?_
  rw [Bool.eq_iff_iff, decide_eq_true_eq, Bool.and_eq_true]
  exact Key.location_eq_iff

/-! ### One location after the other -/

/-- The row lists the entries that `P` holds of, each once and in key order. -/
structure InKeyOrder (P : Key → ByteArray → Prop) (row : List (Key × ByteArray)) : Prop where
  ascending : row.Pairwise fun a b => compare a.1 b.1 = .lt
  mem : ∀ k value, (k, value) ∈ row ↔ P k value

/-- The map lists exactly its entries, in ascending order. -/
theorem inKeyOrder_toList : InKeyOrder (fun k value => e[k]? = some value) e.toList where
  ascending := Std.ExtTreeMap.ordered_keys_toList
  mem _ _ := Std.ExtTreeMap.mem_toList_iff_getElem?_eq_some

/-- Under a location exactly its entries are listed, in ascending order. -/
theorem inKeyOrder_under (location : Id) :
    InKeyOrder (fun k value => k.location = location ∧ e[k]? = some value) (e.under location) where
  ascending := e.pairwise_under location
  mem _ _ := mem_under

/-- There is one way only to list entries in key order, which reduces equations between lists to
what they contain. -/
theorem InKeyOrder.unique {P : Key → ByteArray → Prop} {row row' : List (Key × ByteArray)}
    (h : InKeyOrder P row) (h' : InKeyOrder P row') : row' = row := by
  have hnodup : ∀ {row}, InKeyOrder P row → row.Nodup := fun h => h.ascending.imp fun hlt heq => by
    rw [heq, Std.ReflOrd.compare_self] at hlt
    cases hlt
  have hperm : row'.Perm row :=
    (List.perm_ext_iff_of_nodup (hnodup h') (hnodup h)).mpr fun p =>
      (h'.mem p.1 p.2).trans (h.mem p.1 p.2).symm
  refine hperm.eq_of_pairwise (fun a b _ _ hab hba => ?_) h'.ascending h.ascending
  rw [Std.OrientedOrd.eq_swap, hba] at hab
  cases hab

/-- Locations are named in ascending order. -/
theorem pairwise_locations : e.locations.Pairwise fun a b => compare a b = .lt := by
  rw [locations_eq]
  refine pairwise_headings (List.pairwise_map.mpr ?_)
  exact Std.ExtTreeMap.ordered_keys_toList.imp location_isLE

/-- The lists of all locations, one behind the other, are again in ascending order, because the
locations are. -/
theorem inKeyOrder_flatMap_under : InKeyOrder (fun k value => e[k]? = some value)
    (e.locations.flatMap e.under) where
  ascending := by
    refine List.pairwise_flatMap.mpr ⟨fun location _ => e.pairwise_under location, ?_⟩
    -- all keys of a location are less than all keys of a greater one
    refine e.pairwise_locations.imp fun {l l'} hlt p hp p' hp' => Key.compare_of_location ?_
    obtain ⟨rfl, -⟩ := mem_under.mp hp
    obtain ⟨rfl, -⟩ := mem_under.mp hp'
    exact hlt
  mem k value := by
    rw [List.mem_flatMap]
    constructor
    · rintro ⟨location, -, hunder⟩
      exact (mem_under.mp hunder).2
    · intro hvalue
      exact ⟨k.location, mem_locations.mpr ⟨k, value, rfl, hvalue⟩, mem_under.mpr ⟨rfl, hvalue⟩⟩

/-- Every value lies under exactly one of the named locations: together their lists are the whole
map. -/
theorem flatMap_under_locations : e.locations.flatMap e.under = e.toList :=
  e.inKeyOrder_toList.unique e.inKeyOrder_flatMap_under

/-- Nothing lies under a location that is not named. -/
theorem under_eq_nil {location : Id} (h : location ∉ e.locations) : e.under location = [] := by
  refine List.eq_nil_iff_forall_not_mem.mpr fun p hp => h ?_
  obtain ⟨hlocation, hvalue⟩ := mem_under.mp (show (p.1, p.2) ∈ e.under location from hp)
  exact mem_locations.mpr ⟨p.1, p.2, hlocation, hvalue⟩

/-! ### Counting in one pass -/

/-- What a pass over the entries has counted, and the location of the entry before. -/
structure Pass where
  census : Census
  location? : Option Id

/-- Counts the next entry; its location is a new one unless the entry before has it too. -/
def Pass.enter (p : Pass) (k : Key) (value : ByteArray) : Pass where
  census :=
    { p.census with
      locations := p.census.locations + if p.location? = some k.location then 0 else 1
      bytes := p.census.bytes + value.size }
  location? := some k.location

/-- Counts values, locations and bytes in one pass. -/
def tally : Census := (e.foldl Pass.enter ⟨⟨e.size, 0, 0⟩, none⟩).census

/-- An id in front of another one counts unless the two are equal; this is how the program counts
locations in one pass. -/
theorem length_headings_step (last? : Option Id) (id : Id) (ids : List Id) :
    (headings (last?.toList ++ id :: ids)).length + 1 =
      (headings (id :: ids)).length + last?.toList.length + if last? = some id then 0 else 1 := by
  cases last? with
  | none => simp
  | some last =>
    have hstep : headings (last :: id :: ids) =
        if id = last then headings (id :: ids) else last :: headings (id :: ids) := by
      rw [headings, List.foldr_cons, ← headings, head?_headings]
      simp only [List.head?_cons, Option.some.injEq]
    rw [Option.toList_some, List.singleton_append, hstep]
    by_cases heq : id = last
    · simp [heq]
    · simp [heq, Ne.symm heq]

/-- A pass goes on as if the location that it was last at were in front of what is to come. -/
theorem pass_spec (row : List (Key × ByteArray)) (p : Pass) :
    let ended := row.foldl (fun p entry => p.enter entry.1 entry.2) p
    ended.census.entries = p.census.entries ∧
      ended.census.locations + p.location?.toList.length =
        p.census.locations + (headings (p.location?.toList ++ row.map (·.1.location))).length ∧
      ended.census.bytes = p.census.bytes + bytesOf row := by
  induction row generalizing p with
  | nil =>
    obtain ⟨census, _ | last⟩ := p
    · exact ⟨rfl, rfl, rfl⟩
    · exact ⟨rfl, rfl, rfl⟩
  | cons entry row ih =>
    obtain ⟨k, value⟩ := entry
    obtain ⟨hentries, hlocations, hbytes⟩ := ih (p.enter k value)
    have hstep := length_headings_step p.location? k.location (row.map (·.1.location))
    simp only [Pass.enter, Option.toList_some, List.singleton_append, List.length_singleton]
      at hentries hlocations hbytes
    refine ⟨hentries, ?_, ?_⟩
    · simp only [List.foldl_cons, List.map_cons, Pass.enter]
      omega
    · simp only [List.foldl_cons, Pass.enter, bytesOf, List.map_cons, List.sum_cons]
        at hbytes ⊢
      omega

/-- Counting location by location gives the figures of the whole map. -/
theorem tally_eq_census : e.tally = e.census := by
  obtain ⟨hentries, hlocations, hbytes⟩ := pass_spec e.toList ⟨⟨e.size, 0, 0⟩, none⟩
  rw [tally, Std.ExtTreeMap.foldl_eq_foldl_toList, census, locations_eq, totalBytes_eq,
    Census.mk.injEq]
  simp only [Option.toList_none, List.length_nil, List.nil_append, Nat.zero_add, Nat.add_zero]
    at hlocations hbytes
  exact ⟨hentries, hlocations, hbytes⟩

/-- The locations of a store are listed in ascending order, each once. Under each of them are the
entries of its keys, in key order, which are those from its first key to its last; under any other
location there is nothing. One location after the other they are all entries in key order. A pass
over the entries counts them, the locations and the bytes of the values. -/
theorem locations_partition :
    (e.locations.Pairwise fun a b => compare a b = .lt) ∧
    (∀ location, location ∈ e.locations ↔
      ∃ (k : Key) (value : ByteArray), k.location = location ∧ e[k]? = some value) ∧
    (∀ location,
      InKeyOrder (fun k value => k.location = location ∧ e[k]? = some value) (e.under location) ∧
      e.under location = e.between (.firstUnder location) (.lastUnder location) ∧
      (location ∉ e.locations → e.under location = [])) ∧
    InKeyOrder (fun k value => e[k]? = some value) (e.locations.flatMap e.under) ∧
    e.tally = e.census ∧
    e.census = ⟨e.size, e.locations.length, bytesOf (e.locations.flatMap e.under)⟩ ∧
    e.size = (e.locations.flatMap e.under).length := by
  refine ⟨e.pairwise_locations, fun location => mem_locations, fun location => ?_,
    e.inKeyOrder_flatMap_under, e.tally_eq_census, ?_, ?_⟩
  · exact ⟨e.inKeyOrder_under location, e.under_eq_between location, e.under_eq_nil⟩
  · rw [flatMap_under_locations, census, totalBytes_eq]
  · rw [flatMap_under_locations, Std.ExtTreeMap.length_toList]

end Entries

end DeltaMesh
