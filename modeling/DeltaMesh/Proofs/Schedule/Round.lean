import DeltaMesh.Proofs.Schedule.Bring
import DeltaMesh.Proofs.Schedule.Tick

/-!
# Rounds of ticks

When the nodes of a steady cluster tick one after the other, each brings what it has to bring and
leaves alone what the others do (`Cluster.Round`). After a round in which all had their turn every
value is where it belongs, and another round finds nothing to do (`Schedule.rounds_converge`).
-/

namespace DeltaMesh

variable {n : Nat}

namespace Cluster

variable {c c' c'' : Cluster n} {ids : Fin n → Id} {copies : Nat} {i j q : Fin n} {k : Key}
  {value : ByteArray} {report : TickReport}

/-- An owner is not one of the nodes after it. -/
theorem Brings.ne_owner (h : c.Brings ids copies i q k value) : rank ids k.location q ≠ 0 :=
  Nat.one_le_iff_ne_zero.mp h.replicates.1

/-- What the owner of a location holds there does not change in a tick. -/
theorem Ticked.held_of_owner (h : Ticked ids copies i c report c')
    (howner : rank ids k.location j = 0) : c'.held? j k = c.held? j k :=
  h.kept j k fun _ hbrings => hbrings.ne_owner howner

/-- After the tick of one node the others have to bring the same as before. -/
theorem Ticked.brings_iff (h : Ticked ids copies i c report c') :
    c'.Brings ids copies j q k value ↔ c.Brings ids copies j q k value := by
  constructor
  · rintro ⟨howner, hreplicates, hheld⟩
    exact ⟨howner, hreplicates, (h.held_of_owner howner).symm.trans hheld⟩
  · rintro ⟨howner, hreplicates, hheld⟩
    exact ⟨howner, hreplicates, (h.held_of_owner howner).trans hheld⟩

/-- No location has two owners. -/
def OneOwner (ids : Fin n → Id) : Prop :=
  ∀ location i j, rank ids location i = 0 → rank ids location j = 0 → i = j

/-- What is there stays there. -/
theorem Ticked.held_of_held (h : Ticked ids copies i c report c') (hone : OneOwner ids)
    (hbrings : c.Brings ids copies j q k value) (hheld : c.held? q k = some value) :
    c'.held? q k = some value := by
  by_cases hi : ∃ other, c.Brings ids copies i q k other
  · obtain ⟨other, hother⟩ := hi
    obtain rfl : i = j := hone _ i j hother.owner hbrings.owner
    exact h.brought q k value hbrings
  · exact (h.kept q k fun other hother => hi ⟨other, hother⟩).trans hheld

/-- Another owner's tick does not take back what a tick has brought, since each key has one owner.
-/
theorem Ticked.served (h : Ticked ids copies i c report c') (hone : OneOwner ids)
    (hserved : c.Served ids copies j) : c'.Served ids copies j := fun q k value hbrings => by
  have hbrings' := h.brings_iff.mp hbrings
  exact h.held_of_held hone hbrings' (hserved q k value hbrings')

/-- What comes of it when the nodes `order` tick one after the other. -/
structure Round (ids : Fin n → Id) (copies : Nat) (order : List (Fin n)) (c : Cluster n)
    (reports : List TickReport) (c' : Cluster n) : Prop where
  brought : ∀ i ∈ order, ∀ q k value, c.Brings ids copies i q k value → c'.held? q k = some value
  held : ∀ i q k value, c.Brings ids copies i q k value → c.held? q k = some value →
    c'.held? q k = some value
  kept : ∀ q k, (∀ i ∈ order, ∀ value, ¬c.Brings ids copies i q k value) →
    c'.held? q k = c.held? q k
  clean : ∀ report ∈ reports, ∀ r ∈ report.locations, r.Clean
  onlyUpToDate : (∀ i, c.Served ids copies i) →
    ∀ report ∈ reports, ∀ r ∈ report.locations, r.OnlyUpToDate
  sent : ∃ new, c'.network.sent = new ++ c.network.sent ∧
    ((∀ i, c.Served ids copies i) → ∀ q ∈ new, q.kind = .info)

theorem Round.nil (ids : Fin n → Id) (copies : Nat) (c : Cluster n) :
    Round ids copies [] c [] c where
  brought _ hi := nomatch hi
  held _ _ _ _ _ hheld := hheld
  kept _ _ _ := rfl
  clean _ hreport := nomatch hreport
  onlyUpToDate _ _ hreport := nomatch hreport
  sent := ⟨[], rfl, fun _ _ hq => nomatch hq⟩

/-- A tick and the rest of the round. What the tick has brought is not taken back by later ones, as
each key has one owner. -/
theorem Round.cons {order : List (Fin n)} {reports : List TickReport} (hone : OneOwner ids)
    (h : Ticked ids copies i c report c') (hround : Round ids copies order c' reports c'') :
    Round ids copies (i :: order) c (report :: reports) c'' where
  brought j hj q k value hbrings := by
    have hbrings' := h.brings_iff.mpr hbrings
    rcases List.mem_cons.mp hj with rfl | hj
    · exact hround.held j q k value hbrings' (h.brought q k value hbrings)
    · exact hround.brought j hj q k value hbrings'
  held j q k value hbrings hheld :=
    hround.held j q k value (h.brings_iff.mpr hbrings) (h.held_of_held hone hbrings hheld)
  kept q k hnone := by
    refine (hround.kept q k fun j hj value hbrings => ?_).trans (h.kept q k fun value hbrings => ?_)
    · exact hnone j (List.mem_cons_of_mem _ hj) value (h.brings_iff.mp hbrings)
    · exact hnone i List.mem_cons_self value hbrings
  clean := List.forall_mem_cons.mpr ⟨h.clean, hround.clean⟩
  onlyUpToDate hserved := List.forall_mem_cons.mpr
    ⟨h.onlyUpToDate (hserved i), hround.onlyUpToDate fun j => h.served hone (hserved j)⟩
  sent := by
    obtain ⟨new, hsent, hnew⟩ := h.sent
    obtain ⟨later, hsent', hlater⟩ := hround.sent
    refine ⟨later ++ new, by rw [hsent', hsent, List.append_assoc], fun hserved q hq => ?_⟩
    rcases List.mem_append.mp hq with hq | hq
    · exact hlater (fun j => h.served hone (hserved j)) q hq
    · exact hnew (hserved i) q hq

/-- The nodes that have ticked have served the others: what they own is in place wherever it should
be. -/
theorem Round.served {order : List (Fin n)} {reports : List TickReport}
    (h : Round ids copies order c reports c') (hi : i ∈ order) : c'.Served ids copies i :=
  fun q k value hbrings => by
    have hheld : c'.held? i k = c.held? i k :=
      h.kept i k fun _ _ _ hbrings' => hbrings'.ne_owner hbrings.owner
    exact h.brought i hi q k value
      ⟨hbrings.owner, hbrings.replicates, hheld.symm.trans hbrings.held⟩

/-- Where all is served nothing changes any more, however often the nodes tick. -/
theorem Round.unchanged {order : List (Fin n)} {reports : List TickReport}
    (h : Round ids copies order c reports c') (hserved : ∀ i, c.Served ids copies i) (q : Fin n)
    (k : Key) : c'.held? q k = c.held? q k := by
  by_cases hi : ∃ i value, c.Brings ids copies i q k value
  · obtain ⟨i, value, hbrings⟩ := hi
    have hheld := hserved i q k value hbrings
    exact (h.held i q k value hbrings hheld).trans hheld.symm
  · exact h.kept q k fun i _ value hbrings => hi ⟨i, value, hbrings⟩

end Cluster

namespace Schedule

/-- Lets nodes tick one after the other. -/
def ticks : List (Fin n) → Schedule n →
    Except CrossedBounds (List (Option TickReport) × Schedule n)
  | [], s => .ok ([], s)
  | i :: order, s => do
    let (report?, s) ← s.tick i
    let (reports, s) ← ticks order s
    return (report? :: reports, s)

variable {s : Schedule n} {ids : Fin n → Id} {config : ReplicationConfig}

/-- In a steady cluster every tick of a round comes to an end, by induction on the nodes that are to
tick. -/
theorem ticks_end (order : List (Fin n)) (hidle : s.Idle) (h : s.cluster.Steady ids config) :
    ∃ reports s', ticks order s = .ok (reports.map some, s') ∧ s'.Idle ∧
      s'.cluster.Steady ids config ∧
      Cluster.Round ids (config.copies n) order s.cluster reports s'.cluster := by
  induction order generalizing s with
  | nil => exact ⟨[], s, rfl, hidle, h, .nil ids _ s.cluster⟩
  | cons i order ih =>
    obtain ⟨report, s₁, htick, hidle₁, hticked, h₁⟩ := tick_ends hidle h i
    obtain ⟨reports, s₂, hticks, hidle₂, h₂, hround⟩ := ih hidle₁ h₁
    have hone : Cluster.OneOwner ids := fun _ _ _ => h.eq_of_rank_eq_zero
    refine ⟨report :: reports, s₂, ?_, hidle₂, h₂, .cons hone hticked hround⟩
    rw [ticks, htick]
    simp only [bind, Except.bind, hticks]
    rfl

end Schedule

/-! ### Two rounds -/

theorem TickReport.total_eq_zero {t : TickReport} {figure : LocationReport → Nat}
    (h : ∀ r ∈ t.locations, figure r = 0) : t.total figure = 0 := by
  rw [total]
  generalize t.locations = locations at h
  induction locations with
  | nil => rfl
  | cons r rest ih =>
    rw [List.foldr_cons, h r List.mem_cons_self,
      ih fun other hother => h other (List.mem_cons_of_mem _ hother)]

/-- A tick all of whose locations are clean has neither failed nor skipped anything. -/
theorem TickReport.figures_of_clean {t : TickReport} (h : ∀ r ∈ t.locations, r.Clean) :
    t.failures = 0 ∧ t.skipped = 0 :=
  ⟨total_eq_zero fun r hr => (h r hr).failures,
    List.countP_eq_zero.mpr fun r hr => by simp [(h r hr).skipped]⟩

/-- When every node of a steady cluster has ticked once, the nodes after the owner of a location
hold the owner's values, and nothing else has changed. However the nodes tick after that, nothing at
all changes any more, and only INFO requests are sent. -/
theorem Schedule.rounds_converge (s : Schedule n) (ids : Fin n → Id) (config : ReplicationConfig)
    (hidle : s.Idle) (h : s.cluster.Steady ids config) (order order' : List (Fin n))
    (horder : order.Perm (List.finRange n)) :
    ∃ (reports : List TickReport) (s₁ : Schedule n), s.ticks order = .ok (reports.map some, s₁) ∧
      (∀ owner q k value, rank ids k.location owner = 0 →
        Replicates ids (config.copies n) k.location q → s.cluster.held? owner k = some value →
          s₁.cluster.held? q k = some value) ∧
      (∀ q k, (¬∃ owner value, rank ids k.location owner = 0 ∧
        Replicates ids (config.copies n) k.location q ∧ s.cluster.held? owner k = some value) →
          s₁.cluster.held? q k = s.cluster.held? q k) ∧
      (∀ report ∈ reports, report.failures = 0 ∧ report.skipped = 0) ∧
      ∃ (reports' : List TickReport) (s₂ : Schedule n),
        s₁.ticks order' = .ok (reports'.map some, s₂) ∧
        (∃ new, s₂.cluster.network.sent = new ++ s₁.cluster.network.sent ∧
          ∀ q ∈ new, q.kind = .info) ∧
        (∀ report ∈ reports', ∀ r ∈ report.locations, r.OnlyUpToDate) ∧
        ∀ q, (s₂.cluster.replica q).store.entries = (s₁.cluster.replica q).store.entries := by
  obtain ⟨reports, s₁, hticks, hidle₁, h₁, hround⟩ := ticks_end order hidle h
  obtain ⟨reports', s₂, hticks', -, -, hround'⟩ := ticks_end order' hidle₁ h₁
  have hall : ∀ i, i ∈ order := fun i => horder.mem_iff.mpr (List.mem_finRange i)
  -- the first round leaves nothing to bring, which is all that the second one depends on
  have hserved : ∀ i, s₁.cluster.Served ids (config.copies n) i :=
    fun i => hround.served (hall i)
  obtain ⟨new, hsent, hnew⟩ := hround'.sent
  refine ⟨reports, s₁, hticks, fun owner q k value howner hreplicates hheld => ?_,
    fun q k hnone => ?_, fun report hreport => ?_, reports', s₂, hticks',
    ⟨new, hsent, hnew hserved⟩, hround'.onlyUpToDate hserved, fun q => ?_⟩
  · exact hround.brought owner (hall owner) q k value ⟨howner, hreplicates, hheld⟩
  · exact hround.kept q k fun i _ value hbrings =>
      hnone ⟨i, value, hbrings.owner, hbrings.replicates, hbrings.held⟩
  · exact TickReport.figures_of_clean (hround.clean report hreport)
  · exact Std.ExtTreeMap.ext_getElem? (hround'.unchanged hserved q)

/-! ### Two nodes -/

section

variable (key : Key) (values : Fin 2 → ByteArray)

theorem Cluster.connected_unequalPair :
    (Cluster.unequalPair key values).Connected fun i => (Peer.numbered i).id where
  script := rfl
  registered
    | 0 => by
      show ((∅ : Std.ExtTreeMap Id (Fin 2) compare).insert (Peer.numbered 0).id 0 |>.insert
        (Peer.numbered 1).id 1)[(Peer.numbered 0).id]? = some 0
      rw [Std.ExtTreeMap.getElem?_insert, if_neg (by decide), Std.ExtTreeMap.getElem?_insert_self]
    | 1 => Std.ExtTreeMap.getElem?_insert_self
  reachable _ := rfl
  lists
    | 0 => Directory.lists_pair (by decide)
    | 1 => Directory.lists_pair (by decide)
  size := by decide

theorem Cluster.setUp_unequalPair : (Cluster.unequalPair key values).SetUp {} where
  configs
    | 0 => rfl
    | 1 => rfl
  factors
    | 0 => rfl
    | 1 => rfl
  blockSizes
    | 0 => rfl
    | 1 => rfl
  fixed := rfl
  block := by decide
  limit := by decide

theorem Cluster.atRest_unequalPair : (Cluster.unequalPair key values).AtRest where
  locks
    | 0 => .empty _
    | 1 => .empty _
  unclaimed
    | 0, _ => rfl
    | 1, _ => rfl
  free
    | 0 => rfl
    | 1 => rfl

/-- Each node holds its own value under the one key. -/
theorem Cluster.held_unequalPair (i : Fin 2) (k : Key) :
    (Cluster.unequalPair key values).held? i k = if key = k then some (values i) else none := by
  have hentries : ((Cluster.unequalPair key values).replica i).store.entries =
      (∅ : Entries).insert key (values i) := by
    match i with
    | 0 => rfl
    | 1 => rfl
  rw [Cluster.held?, Store.get?, hentries, Std.ExtTreeMap.getElem?_insert]
  simp

theorem Cluster.eq_of_held_unequalPair {i : Fin 2} {k : Key} {v : ByteArray}
    (h : (Cluster.unequalPair key values).held? i k = some v) : key = k ∧ values i = v := by
  rw [Cluster.held_unequalPair] at h
  split at h
  case isTrue heq => exact ⟨heq, Option.some.inj h⟩
  case isFalse => cases h

theorem Cluster.eq_of_owned_unequalPair {i : Fin 2} {location : Id}
    (h : location ∈ ((Cluster.unequalPair key values).replica i).tracker.owned) :
    i = 0 ∧ key.location = location := by
  match i with
  | 0 =>
    have h' : location ∈ (∅ : Std.ExtTreeSet Id compare).insert key.location := h
    rw [Std.ExtTreeSet.mem_insert, Std.LawfulEqOrd.compare_eq_iff_eq] at h'
    exact ⟨rfl, h'.resolve_right Std.ExtTreeSet.not_mem_empty⟩
  | 1 => exact absurd h Std.ExtTreeSet.not_mem_empty

/-- The hashes tell the values of the two nodes apart. -/
def Cluster.Unmixed (values : Fin 2 → ByteArray) : Prop :=
  ∀ i j, values j ≠ values i → Id.ofContent (values j) ≠ Id.ofContent (values i) ∧
    Separates (values i) (values j) 32

/-- No write fails, no value is too large for a delta of it, and no two blocks share their checksums
unless they are equal. -/
theorem Cluster.stocked_unequalPair (hsizes : ∀ i, (values i).size ≤ 15 * 1024 * 1024 - 28)
    (hunmixed : Cluster.Unmixed values) : (Cluster.unequalPair key values).Stocked {} where
  faultless
    | 0, _, _, _ => rfl
    | 1, _, _, _ => rfl
  sizes i k v hv := by
    obtain ⟨-, rfl⟩ := Cluster.eq_of_held_unequalPair key values hv
    have hsize := hsizes i
    show _ ≤ 15 * 1024 * 1024
    omega
  apart i j k v base hv hbase hne := by
    obtain ⟨-, rfl⟩ := Cluster.eq_of_held_unequalPair key values hv
    obtain ⟨-, rfl⟩ := Cluster.eq_of_held_unequalPair key values hbase
    exact hunmixed i j hne

/-- Node 0 owns the location and knows it; node 1 neither owns anything nor believes to. -/
theorem Cluster.assigned_unequalPair
    (howner : ∀ i : Fin 2, rank (fun i => (Peer.numbered i).id) key.location i = 0 ↔ i = 0) :
    (Cluster.unequalPair key values).Assigned fun i => (Peer.numbered i).id where
  owned i k v hv hrank := by
    obtain ⟨rfl, -⟩ := Cluster.eq_of_held_unequalPair key values hv
    obtain rfl := (howner i).mp hrank
    exact Std.ExtTreeSet.mem_insert_self
  owns i location hlocation := by
    obtain ⟨rfl, rfl⟩ := Cluster.eq_of_owned_unequalPair key values hlocation
    exact (howner 0).mpr rfl
  stored i location hlocation := by
    obtain ⟨rfl, rfl⟩ := Cluster.eq_of_owned_unequalPair key values hlocation
    exact ⟨0, key, values 0, (Cluster.held_unequalPair key values 0 key).trans (if_pos rfl), rfl⟩

/-- The pair meets everything that a round asks for. -/
theorem Cluster.steady_unequalPair (hsizes : ∀ i, (values i).size ≤ 15 * 1024 * 1024 - 28)
    (hunmixed : Cluster.Unmixed values)
    (howner : ∀ i : Fin 2, rank (fun i => (Peer.numbered i).id) key.location i = 0 ↔ i = 0) :
    (Cluster.unequalPair key values).Steady (fun i => (Peer.numbered i).id) {} where
  toConnected := Cluster.connected_unequalPair key values
  toSetUp := Cluster.setUp_unequalPair key values
  toAtRest := Cluster.atRest_unequalPair key values
  toStocked := Cluster.stocked_unequalPair key values hsizes hunmixed
  toAssigned := Cluster.assigned_unequalPair key values howner

end

/-- The first node brings its value to the second one, which has held another one. Every further
tick finds both of them with the same value. -/
theorem Schedule.rounds_converge_unequalPair :
    let key : Key := ⟨.ofNat 1, .ofNat 2, .ofNat 3⟩
    let values : Fin 2 → ByteArray := fun i => if i = 0 then ⟨#[3, 7, 1, 2]⟩ else ⟨#[5, 1, 1, 2]⟩
    let s := Schedule.ofCluster (.unequalPair key values)
    s.cluster.Steady (fun i => (Peer.numbered i).id) {} ∧
      ∃ (reports : List TickReport) (s₁ : Schedule 2), s.ticks [1, 0] = .ok (reports.map some, s₁) ∧
        s₁.cluster.held? 1 key = some (values 0) ∧
        ∃ (reports' : List TickReport) (s₂ : Schedule 2),
          s₁.ticks [0, 1] = .ok (reports'.map some, s₂) ∧
          ∀ report ∈ reports', ∀ r ∈ report.locations, r.OnlyUpToDate := by
  intro key values s
  have hunmixed : Cluster.Unmixed values := by
    rw [Cluster.Unmixed]
    decide +kernel
  have howner : ∀ i : Fin 2, rank (fun i => (Peer.numbered i).id) key.location i = 0 ↔ i = 0 := by
    decide
  have hsteady := Cluster.steady_unequalPair key values (by decide) hunmixed howner
  obtain ⟨reports, s₁, hticks, hbrought, -, -, reports', s₂, hticks', -, hupToDate, -⟩ :=
    Schedule.rounds_converge s _ {} (idle_ofCluster _) hsteady [1, 0] [0, 1] (by decide)
  have hreplicates : Replicates (fun i : Fin 2 => (Peer.numbered i).id)
      (ReplicationConfig.copies {} 2) key.location 1 := ⟨by decide, by decide⟩
  exact ⟨hsteady, reports, s₁, hticks, hbrought 0 1 key (values 0) ((howner 0).mpr rfl) hreplicates
    ((Cluster.held_unequalPair key values 0 key).trans (if_pos rfl)), reports', s₂, hticks',
    hupToDate⟩

end DeltaMesh
