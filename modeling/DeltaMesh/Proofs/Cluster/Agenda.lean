import DeltaMesh.Proofs.Cluster.Arrival
import DeltaMesh.Proofs.Cluster.Tick
import DeltaMesh.Proofs.Peer.Directory

/-!
# What a node finds to do

In a `Steady` cluster the nodes reach each other, agree on who they are and have nothing under way.
There a node brings the values under the locations that it owns to the nodes that come next
(`Cluster.Brings`). This is what its agenda for a tick is about (`Cluster.Steady.scope_agenda`), and
it can carry it out (`Cluster.Steady.feasible_agenda`, `Cluster.Steady.suits_agenda`).
-/

namespace DeltaMesh

/-! ### Reports -/

namespace LocationReport

/-- Nothing failed, and no other reconciliation was in the way. -/
structure Clean (r : LocationReport) : Prop where
  failures : r.failures = 0
  skipped : r.skipped = false

/-- Every value was found in place. -/
structure OnlyUpToDate (r : LocationReport) : Prop extends r.Clean where
  upToDate : r.upToDate = r.values
  copied : r.copied = 0
  synced : r.synced = 0

/-- An outcome is no failure. -/
theorem Clean.record {r : LocationReport} (h : r.Clean) (outcome : Outcome) :
    (r.record (.ok outcome)).Clean := by
  cases outcome <;> exact ⟨h.failures, h.skipped⟩

/-- A report is clean if every value was brought, in whichever of the three ways. -/
theorem clean_ofResults (location : Id) (replicas : Nat) {results : List ValueResult}
    (h : ∀ result ∈ results, ∃ outcome, result = .ok outcome) :
    (ofResults location replicas results).Clean := by
  rw [ofResults]
  generalize hr : ({ location, replicas } : LocationReport) = r
  have hclean : r.Clean := hr ▸ ⟨rfl, rfl⟩
  clear hr
  induction results generalizing r with
  | nil => exact hclean
  | cons result results ih =>
    obtain ⟨outcome, rfl⟩ := h result List.mem_cons_self
    exact ih (fun other hother => h other (List.mem_cons_of_mem _ hother)) _ (hclean.record outcome)

/-- A report says nothing but that all was up to date if every result does. -/
theorem onlyUpToDate_ofResults (location : Id) (replicas : Nat) {results : List ValueResult}
    (h : ∀ result ∈ results, result = .ok .upToDate) :
    (ofResults location replicas results).OnlyUpToDate := by
  rw [ofResults]
  generalize hr : ({ location, replicas } : LocationReport) = r
  have hupToDate : r.OnlyUpToDate := hr ▸ ⟨⟨rfl, rfl⟩, rfl, rfl, rfl⟩
  clear hr
  induction results generalizing r with
  | nil => exact hupToDate
  | cons result results ih =>
    rw [h result List.mem_cons_self, List.foldl_cons]
    refine ih (fun other hother => h other (List.mem_cons_of_mem _ hother)) _ ?_
    exact ⟨hupToDate.toClean.record .upToDate, congrArg (· + 1) hupToDate.upToDate,
      hupToDate.copied, hupToDate.synced⟩

end LocationReport

theorem Tracker.nodup_responsible (t : Tracker) : t.responsible.Nodup := by
  refine Std.ExtTreeSet.distinct_toList.imp fun hne => ?_
  rintro rfl
  exact hne Std.ReflOrd.compare_self

variable {n : Nat}

/-- To how many other nodes of a cluster each value is brought. -/
def ReplicationConfig.copies (config : ReplicationConfig) (n : Nat) : Nat :=
  min config.factor.base (n - 1)

/-- Node `q` is one of the `copies` nodes that come after the owner of a location. -/
def Replicates (ids : Fin n → Id) (copies : Nat) (location : Id) (q : Fin n) : Prop :=
  1 ≤ rank ids location q ∧ rank ids location q ≤ copies

namespace Cluster

/-- What a node holds under a key. -/
def held? (c : Cluster n) (q : Fin n) (k : Key) : Option ByteArray := (c.replica q).store.get? k

/-- The nodes can reach each other and know the same members, themselves. -/
structure Connected (c : Cluster n) (ids : Fin n → Id) : Prop where
  script : c.script = none
  registered : ∀ i, c.network.registered[ids i]? = some i
  reachable : ∀ i, c.network.unreachable.contains (ids i) = false
  lists : ∀ i, (c.replica i).directory.Lists ids i
  /-- Their number is a word of 64 bits. -/
  size : n < UInt64.size

/-- The nodes are set up alike, with a fixed factor. -/
structure SetUp (c : Cluster n) (config : ReplicationConfig) : Prop where
  configs : ∀ i, (c.reconciler i).config = config
  factors : ∀ i, (c.reconciler i).estimator.config = config.factor
  blockSizes : ∀ i, (c.replica i).blockSize = config.blockSize
  fixed : config.factor.adaptive = false
  block : 20 ≤ config.blockSize
  limit : config.maxValueSize ≤ 15 * 1024 * 1024

/-- Nothing is under way. -/
structure AtRest (c : Cluster n) : Prop where
  locks : c.LocksSound
  unclaimed : ∀ i k, (c.replica i).locks.on k = []
  free : ∀ i, (c.reconciler i).inFlight = ∅

/-- Storing never fails, no value is too large, and hashes tell values under one key apart. -/
structure Stocked (c : Cluster n) (config : ReplicationConfig) : Prop where
  faultless : ∀ i tried key value, (c.replica i).store.fault tried key value = none
  sizes : ∀ i k value, c.held? i k = some value → value.size + 28 ≤ config.maxValueSize
  apart : ∀ i j k value base, c.held? i k = some value → c.held? j k = some base → base ≠ value →
    Id.ofContent base ≠ Id.ofContent value ∧ Separates value base config.blockSize

/-- The nodes are responsible for the locations that they own: for all under which they hold values,
and for none under which no one does. -/
structure Assigned (c : Cluster n) (ids : Fin n → Id) : Prop where
  owned : ∀ i k value, c.held? i k = some value → rank ids k.location i = 0 →
    k.location ∈ (c.replica i).tracker.owned
  owns : ∀ i, ∀ location ∈ (c.replica i).tracker.owned, rank ids location i = 0
  stored : ∀ i, ∀ location ∈ (c.replica i).tracker.owned,
    ∃ j k value, c.held? j k = some value ∧ k.location = location

/-- A cluster in which nothing fails. -/
structure Steady (c : Cluster n) (ids : Fin n → Id) (config : ReplicationConfig) : Prop
    extends c.Connected ids, c.SetUp config, c.AtRest, c.Stocked config, c.Assigned ids

/-! ### Agendas -/

/-- The nodes that a node names as the replicas of a location. -/
def targets (c : Cluster n) (i : Fin n) (location : Id) : List (Peer × Fin n) :=
  ((c.replica i).directory.replicas location (c.reconciler i).factor).filterMap fun p =>
    c.network.registered[p.id]?.map (p, ·)

/-- The tour of a node to the replicas of a location. -/
def tour (c : Cluster n) (i : Fin n) (location : Id) : Tour n where
  location
  terms := (c.reconciler i).terms c.now
  blockSize := (c.reconciler i).config.blockSize
  values := (c.replica i).store.entries.under location
  targets := c.targets i location
  held? := c.held?

/-- What a node has to do. -/
def agenda (c : Cluster n) (i : Fin n) : Agenda n :=
  ⟨i, (c.replica i).tracker.responsible.map (c.tour i)⟩

/-- Node `i` owns the location of a key under which it holds a value, and brings the value to
node `q`. -/
structure Brings (c : Cluster n) (ids : Fin n → Id) (copies : Nat) (i q : Fin n) (k : Key)
    (value : ByteArray) : Prop where
  owner : rank ids k.location i = 0
  replicates : Replicates ids copies k.location q
  held : c.held? i k = some value

namespace Steady

variable {c : Cluster n} {ids : Fin n → Id} {config : ReplicationConfig} {i : Fin n}

theorem injective (h : c.Steady ids config) : Function.Injective ids := fun i j heq => by
  have hi := h.registered i
  rw [heq, h.registered j] at hi
  exact (Option.some.inj hi).symm

/-- Two nodes do not own the same location. -/
theorem eq_of_rank_eq_zero (h : c.Steady ids config) {location : Id} {j : Fin n}
    (hi : rank ids location i = 0) (hj : rank ids location j = 0) : i = j := by
  have hids := h.injective
  refine hids ?_
  rw [← ((h.lists i).owner_id_eq_iff hids location i).mpr hi,
    ((h.lists i).owner_id_eq_iff hids location j).mpr hj]

theorem reaches (h : c.Steady ids config) {p : Peer} {q : Fin n} (hid : p.id = ids q) :
    c.Reaches p q where
  script := h.script
  reachable := hid ▸ h.reachable q
  registered := hid ▸ h.registered q

/-- The replicas that a node turns to for a location it owns: their ids are those of the nodes that
rank behind the owner, no node is named twice, and none of those that should have a copy is missing.
-/
theorem targets_spec (h : c.Steady ids config)
    (hfactor : (c.reconciler i).factor = config.copies n) {location : Id}
    (howner : rank ids location i = 0) :
    (c.replica i).directory.replicas location (c.reconciler i).factor =
        (c.targets i location).map Prod.fst ∧
      (∀ target ∈ c.targets i location, target.1.id = ids target.2) ∧
      ((c.targets i location).map Prod.snd).Nodup ∧
      ∀ q, q ∈ (c.targets i location).map Prod.snd ↔
        Replicates ids (config.copies n) location q := by
  have hcount : config.copies n + 1 < UInt64.size := by
    have hpos := i.pos
    have hsize := h.size
    rw [ReplicationConfig.copies]
    omega
  obtain ⟨targets, hreplicas, hids, hnodup, hmem⟩ :=
    (h.lists i).replicas_of_owner h.injective howner hcount
  have htargets : c.targets i location = targets := by
    rw [Cluster.targets, hfactor, hreplicas, List.filterMap_map]
    refine (List.filterMap_congr fun target htarget => ?_).trans List.filterMap_some
    rw [Function.comp_apply, hids target htarget, h.registered]
    rfl
  rw [htargets, hfactor]
  exact ⟨hreplicas, hids, hnodup, hmem⟩

/-! ### Carrying out an agenda -/

/-- A key under a location concerns no tour but the one to the location's replicas. -/
theorem location_of_scope {location : Id} {q : Fin n} {k : Key}
    (hk : (c.tour i location).Scope q k) : k.location = location := by
  obtain ⟨v, hv, -, hk⟩ := hk
  obtain ⟨target, -, rfl⟩ := List.mem_map.mp hv
  obtain ⟨⟨key, value⟩, hx, rfl⟩ := List.mem_map.mp hk
  exact (Entries.mem_under.mp hx).1

section

variable (h : c.Steady ids config) (hfactor : (c.reconciler i).factor = config.copies n)

include h hfactor

/-- The node to which a visit of a tour goes comes after the owner. -/
theorem replicates_of_visit {location : Id} (howner : rank ids location i = 0) {v : Visit n}
    (hv : v ∈ (c.tour i location).visits) :
    v.peer.id = ids v.replica ∧ Replicates ids (config.copies n) location v.replica := by
  obtain ⟨-, hids, -, hmem⟩ := h.targets_spec hfactor howner
  obtain ⟨target, htarget, rfl⟩ := List.mem_map.mp hv
  exact ⟨hids target htarget, (hmem target.2).mp (List.mem_map_of_mem htarget)⟩

omit hfactor in
/-- Everything that is visited fits into a request, because steady clusters store small values only.
-/
theorem small_errand {location : Id} {v : Visit n} (hv : v ∈ (c.tour i location).visits)
    {x : Key × ByteArray} (hx : x ∈ v.values) : (v.errand x).Small := by
  obtain ⟨target, -, rfl⟩ := List.mem_map.mp hv
  obtain ⟨-, hvalue⟩ := Entries.mem_under.mp (show (x.1, x.2) ∈ _ from hx)
  have hterms : (c.reconciler i).config = config := h.configs i
  exact {
    block := show 20 ≤ (c.reconciler i).config.blockSize from hterms ▸ h.block
    window := show 20 ≤ (c.reconciler i).config.blockSize from hterms ▸ h.block
    limit := show (c.reconciler i).config.maxValueSize ≤ _ from hterms ▸ h.limit
    value := show _ ≤ (c.reconciler i).config.maxValueSize from hterms ▸ h.sizes i x.1 x.2 hvalue
    held := fun base hbase =>
      show _ ≤ (c.reconciler i).config.maxValueSize from hterms ▸ h.sizes target.2 x.1 base hbase
    apart := fun base hbase hne => by
      show _ ∧ Separates x.2 base (c.reconciler i).config.blockSize
      rw [hterms]
      exact h.apart i target.2 x.1 x.2 base hvalue hbase hne }

/-- Whatever a node has to bring is on its agenda: a value that it holds, under a location that it
owns, at a replica that is to have a copy. -/
theorem exists_errand {q : Fin n} {k : Key} {value : ByteArray}
    (hbrings : c.Brings ids (config.copies n) i q k value) :
    ∃ t ∈ (c.agenda i).tours, ∃ v ∈ t.visits, v.replica = q ∧ (k, value) ∈ v.values := by
  obtain ⟨-, -, -, hmem⟩ := h.targets_spec hfactor hbrings.owner
  obtain ⟨target, htarget, rfl⟩ := List.mem_map.mp ((hmem q).mpr hbrings.replicates)
  have howned := h.owned i k value hbrings.held hbrings.owner
  exact ⟨_, List.mem_map_of_mem (Std.ExtTreeSet.mem_toList.mpr howned), _,
    List.mem_map_of_mem htarget, rfl, Entries.mem_under.mpr ⟨rfl, hbrings.held⟩⟩

/-- The converse of `exists_errand`: every errand on the agenda brings a value to a replica that is
to have it, and starts from what that replica holds now. -/
theorem brings_of_errand {t : Tour n} (ht : t ∈ (c.agenda i).tours) {v : Visit n}
    (hv : v ∈ t.visits) {x : Key × ByteArray} (hx : x ∈ v.values) :
    c.Brings ids (config.copies n) i v.replica x.1 x.2 ∧ v.held? = c.held? v.replica ∧
      (v.errand x).Small := by
  obtain ⟨location, hlocation, rfl⟩ := List.mem_map.mp ht
  have howner := h.owns i location (Std.ExtTreeSet.mem_toList.mp hlocation)
  obtain ⟨-, hreplicates⟩ := h.replicates_of_visit hfactor howner hv
  have hsmall := h.small_errand hv hx
  obtain ⟨target, -, rfl⟩ := List.mem_map.mp hv
  obtain ⟨key, value⟩ := x
  obtain ⟨rfl, hvalue⟩ := Entries.mem_under.mp hx
  exact ⟨⟨howner, hreplicates, hvalue⟩, rfl, hsmall⟩

/-- What a node does in its tick: nothing but what it has to bring. -/
theorem scope_agenda (q : Fin n) (k : Key) :
    (c.agenda i).Scope q k ↔ ∃ value, c.Brings ids (config.copies n) i q k value := by
  constructor
  · rintro ⟨t, ht, v, hv, rfl, hk⟩
    obtain ⟨⟨key, value⟩, hx, rfl⟩ := List.mem_map.mp hk
    exact ⟨value, (h.brings_of_errand hfactor ht hv hx).1⟩
  · rintro ⟨value, hbrings⟩
    obtain ⟨t, ht, v, hv, rfl, hx⟩ := h.exists_errand hfactor hbrings
    exact ⟨t, ht, v, hv, rfl, List.mem_map.mpr ⟨(k, value), hx, rfl⟩⟩

/-- No two locations of a tick share a key, and none visits a replica twice. So the turns of a tick
never compete for a lock, which is what makes it end. -/
theorem feasible_agenda : (c.agenda i).Feasible where
  tours t ht := by
    obtain ⟨location, hlocation, rfl⟩ := List.mem_map.mp ht
    have howner := h.owns i location (Std.ExtTreeSet.mem_toList.mp hlocation)
    refine ⟨fun v hv => ⟨fun x hx => (h.small_errand hv hx).feasible, ?_⟩,
      (h.targets_spec hfactor howner).2.2.1⟩
    obtain ⟨target, -, rfl⟩ := List.mem_map.mp hv
    exact Entries.nodup_under _ _
  under t ht q k hk := by
    obtain ⟨location, -, rfl⟩ := List.mem_map.mp ht
    exact location_of_scope hk
  away t ht q k hk heq := by
    obtain ⟨value, hbrings⟩ := (h.scope_agenda hfactor q k).mp ⟨t, ht, hk⟩
    obtain rfl : q = i := heq
    have hpos := hbrings.replicates.1
    rw [hbrings.owner] at hpos
    cases hpos
  distinct := by
    rw [agenda, List.map_map]
    exact (List.map_id _).symm ▸ (c.replica i).tracker.nodup_responsible

/-- The plan of a tick suits the cluster that it was drawn up for: every visit is open, every errand
starts from what its replica holds, and no location is claimed. -/
theorem suits_agenda : (c.agenda i).Suits c where
  opens t ht v hv x := by
    obtain ⟨location, hlocation, rfl⟩ := List.mem_map.mp ht
    have howner := h.owns i location (Std.ExtTreeSet.mem_toList.mp hlocation)
    obtain ⟨hid, -⟩ := h.replicates_of_visit hfactor howner hv
    obtain ⟨target, -, rfl⟩ := List.mem_map.mp hv
    exact {
      reaches := h.reaches hid
      blockSize := (h.blockSizes _).trans (congrArg _ (h.configs i).symm)
      faultless := h.faultless _
      sound := h.locks }
  fits t ht := by
    obtain ⟨location, hlocation, rfl⟩ := List.mem_map.mp ht
    have howner := h.owns i location (Std.ExtTreeSet.mem_toList.mp hlocation)
    exact ⟨(h.targets_spec hfactor howner).1, rfl, rfl⟩

omit hfactor in
theorem waits_agenda : ∀ t ∈ (c.agenda i).tours, t.Waits i c := by
  intro t ht
  obtain ⟨location, -, rfl⟩ := List.mem_map.mp ht
  refine ⟨fun v hv x _ => ?_, ?_⟩
  · obtain ⟨target, -, rfl⟩ := List.mem_map.mp hv
    exact ⟨rfl, h.unclaimed _ _⟩
  · rw [h.free]
    exact Std.ExtTreeSet.not_mem_empty

end

end Steady

end Cluster

end DeltaMesh
