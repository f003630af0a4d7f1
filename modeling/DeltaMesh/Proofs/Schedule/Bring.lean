import DeltaMesh.Config.Node
import DeltaMesh.Proofs.Cluster.Arrival
import DeltaMesh.Proofs.Peer.Directory
import DeltaMesh.Proofs.Schedule.Await

/-!
# Bringing a value to a replica

While nothing else goes on, a node that brings a value to a replica it can reach always learns what
came of it (`Schedule.bring_ends`). The value arrives unless the replica holds another one and the
lists that go back and forth are too large: the payload of the delta for the node's limit, or one
of the lists for whoever unpacks it (`Schedule.bring_exact`). The delta can be larger than the
value, so a value that could be copied to an empty replica may be kept back from one that holds
another value (`Schedule.bring_kept_back`).
-/

namespace DeltaMesh

theorem Exchange.andThen_done {α : Type} (x : Exchange α) : x.andThen .done = x := by
  induction x with
  | done result => rfl
  | ask peer request next ih => exact congrArg (Exchange.ask peer request) (funext ih)
  | note what next ih => exact congrArg (Exchange.note what) ih
  | compute effort next ih => exact congrArg (Exchange.compute effort) ih

variable {n : Nat}

namespace Errand

variable {e : Errand n} {c : Cluster n} {stops : Nat}

/-- While an errand rests its conversation is under way. -/
theorem Stage.progress {α σ : Type} {f : ValueResult → Exchange α} {talk : Talk n α}
    (h : e.Stage f c stops talk) (build : Talk n α → σ) :
    talk.progress build = .underWay (build talk) := by
  cases h <;> rfl

/-- The errand is under way in a conversation of its own. -/
def UnderWay (e : Errand n) (stops : Nat) (talk : Talk n ValueResult) (c : Cluster n) : Prop :=
  e.Open c ∧ e.Stage .done c stops talk

/-- The errand is over, and the conversation with it. -/
def Over (e : Errand n) (result : ValueResult) (c : Cluster n) : Prop :=
  result = e.result ∧ e.At c e.left? []

variable {i : Fin n}

theorem after_of_turned {before : Nat} {ended : Talk n ValueResult × Cluster n}
    (hopen : e.Open c) (h : Turned e .done i True c before ended) :
    Schedule.After e.UnderWay e.Over before (ended.1.progress id, ended.2) := by
  cases h with
  | @finished c' hmoves hat =>
    rw [Cluster.converse]
    exact .finished ⟨rfl, hat⟩
  | @rests talk c' stops hmoves hlt hstage =>
    dsimp only
    rw [hstage.progress]
    exact .underWay hlt ⟨hopen.changes hmoves.toChanges, hstage⟩

theorem ends_underWay (hfeasible : e.Feasible) :
    Schedule.Ends (Talk.turn i) Talk.waits e.UnderWay e.Over where
  turn stops talk c hunder hpermits := by
    obtain ⟨hopen, hstage⟩ := hunder
    obtain ⟨due, hwait⟩ := hstage.wait?
    refine after_of_turned hopen (turned_resume hopen hfeasible (fun _ => trivial) hstage ?_)
    intro wait hwait'
    obtain rfl : wait = .work due := Option.some.inj (hwait'.symm.trans hwait)
    simpa [Talk.waits, hwait] using hpermits
  work stops talk c hunder _ := by
    obtain ⟨hopen, hstage⟩ := hunder
    obtain ⟨due, hwait⟩ := hstage.wait?
    have hwaits : talk.waits = [.work due] := by rw [Talk.waits, hwait]; rfl
    have hworked : c.Changes (fun _ _ => False) True (c.workedUntil due) :=
      (c.moves_workedUntil due).toChanges
    refine ⟨due, ?_, ⟨hopen.changes hworked, hstage.changes hworked id⟩, ?_⟩
    · rw [hwaits]
      rfl
    · rw [hwaits, List.any_cons, Cluster.permits_workedUntil]
      rfl

end Errand

namespace Schedule

variable {s : Schedule n} {e : Errand n} {i : Fin n}

/-- A node that brings a value to a replica comes to the end of the errand. -/
theorem bring_ends (hidle : s.Idle)
    (hterms : e.terms = (s.cluster.reconciler i).terms s.cluster.now)
    (hopen : e.Open s.cluster) (hfeasible : e.Feasible) (hat : e.At s.cluster e.held? []) :
    ∃ s', s.bring i e.peer e.key e.value = (some e.result, s') ∧ s'.Idle ∧
      e.At s'.cluster e.left? [] := by
  have hturned := Errand.turned_converse (f := .done) (i := i) (D := True) hopen hfeasible hat
    fun _ => trivial
  rw [Exchange.andThen_done] at hturned
  have hfirst : After e.UnderWay e.Over 4 (Talk.turn i
      (.ofExchange (reconcileValue e.terms e.peer e.key e.value).run) s.cluster) :=
    Errand.after_of_turned hopen hturned
  obtain ⟨result, s', hawait, hidle', rfl, hat'⟩ := await_ends (Errand.ends_underWay hfeasible)
    hidle hfirst (Nat.le_trans (by decide) s.le_patience)
  refine ⟨s', ?_, hidle', hat'⟩
  rw [bring, ← hterms]
  exact hawait

end Schedule

/-! ### When a value arrives -/

/-- What comes of bringing a value within the limit to a replica that can be reached. A delta that
is longer than the limit is not sent, though the value itself would be short enough; checksums or a
delta that are refused for their size end it as well. In all other cases the value arrives, and
where it does not, what the replica held is still there. -/
theorem Schedule.bring_exact (s : Schedule n) (i : Fin n) (e : Errand n) (hidle : s.Idle)
    (hterms : e.terms = (s.cluster.reconciler i).terms s.cluster.now) (hopen : e.Open s.cluster)
    (hat : e.At s.cluster e.held? []) (hlimit : e.terms.limit < Wire.lengthBound)
    (hvalue : e.value.size ≤ e.terms.limit)
    (hreplayable : ∀ base, e.held? = some base → base ≠ e.value → e.Replayable base) :
    ∃ result s', s.bring i e.peer e.key e.value = (some result, s') ∧
      (e.Passes → (∃ outcome, result = .ok outcome) ∧
        (s'.cluster.replica e.replica).store.get? e.key = some e.value) ∧
      (¬e.Passes → (∃ why, result = .error why) ∧
        (s'.cluster.replica e.replica).store.get? e.key = e.held?) ∧
      ∀ base, e.held? = some base → base ≠ e.value → ¬Wire.Refused (e.checksums base) →
        e.terms.limit < (e.payload base).size →
          result = .error (.tooLarge e.key (e.payload base).size e.terms.limit) := by
  have hfeasible : e.Feasible := ⟨Nat.lt_of_le_of_lt hvalue hlimit, hlimit, hreplayable⟩
  obtain ⟨s', hbring, -, hat'⟩ := bring_ends hidle hterms hopen hfeasible hat
  refine ⟨e.result, s', hbring, fun hpasses => ?_, fun hfails => ?_, ?_⟩
  · obtain ⟨hok, hleft⟩ := Errand.ending_of_passes hvalue hpasses
    exact ⟨hok, hat'.held.trans hleft⟩
  · obtain ⟨herror, hleft⟩ := Errand.ending_of_not_passes hfails
    exact ⟨herror, hat'.held.trans hleft⟩
  · intro base hheld hne hread hlarge
    exact (Errand.ending_of_large base hheld hne hread hlarge).1

/-! ### Two nodes -/

/-- The nodes of a pair are `0` and `1`. -/
instance Cluster.neZero_pair : NeZero 2 := ⟨by decide⟩

/-- Two nodes that know each other; these are the values of the second one. -/
def Cluster.pair (config : ReplicationConfig) (entries : Entries) : Cluster 2 :=
  let first : Peer := ⟨.ofNat 1, .v4 [127, 0, 0, 1] 7001⟩
  let second : Peer := ⟨.ofNat 2, .v4 [127, 0, 0, 1] 7002⟩
  let asking : Reconciler :=
    ⟨config, ⟨config.factor, config.factor.base, config.factor.initialAvailability, 0, 0⟩, {}, ∅⟩
  .ofNodes
    #v[.ofStore (.ofPeers first [second]) .empty config.blockSize,
      .ofStore (.ofPeers second [first]) { Store.empty with entries } config.blockSize]
    #v[asking, asking] none

/-- Two nodes that know each other and hold a value each under the same key. The first one owns the
key's location. -/
def Cluster.unequalPair (key : Key) (values : Fin 2 → ByteArray) : Cluster 2 :=
  let config : ReplicationConfig := {}
  let asking : Reconciler :=
    ⟨config, ⟨config.factor, 0, config.factor.initialAvailability, 0, 0⟩, {}, ∅⟩
  let holding (i : Fin 2) : Store := { Store.empty with entries := .ofPairs [(key, values i)] }
  .ofNodes
    #v[{ Replica.ofStore (.ofPeers (.numbered 0) [.numbered 1]) (holding 0) config.blockSize with
        tracker := Tracker.empty.announce (.gained key.location) },
      .ofStore (.ofPeers (.numbered 1) [.numbered 0]) (holding 1) config.blockSize]
    #v[asking, asking] none

/-- A node that is alone is responsible for a value; the other node knows it, and stores nothing. -/
def Cluster.joiningPair (key : Key) (value : ByteArray) : Cluster 2 :=
  let config : ReplicationConfig := {}
  let asking : Reconciler :=
    ⟨config, ⟨config.factor, 0, config.factor.initialAvailability, 0, 0⟩, {}, ∅⟩
  .ofNodes
    #v[{ Replica.ofStore (.alone (.numbered 0))
            { Store.empty with entries := .ofPairs [(key, value)] } config.blockSize with
        tracker := Tracker.empty.announce (.gained key.location) },
      .ofStore (.ofPeers (.numbered 1) [.numbered 0]) .empty config.blockSize]
    #v[asking, asking] none

/-- The errand of the first node to bring a value to the second one, which holds another one. -/
def Errand.ofPair (config : ReplicationConfig) (key : Key) (value base : ByteArray) : Errand 2 where
  terms := ((Cluster.pair config (.ofPairs [(key, base)])).reconciler 0).terms 0
  peer := ⟨.ofNat 2, .v4 [127, 0, 0, 1] 7002⟩
  replica := 1
  blockSize := config.blockSize
  key := key
  value := value
  held? := some base

section

variable (config : ReplicationConfig) (key : Key) (value base : ByteArray)

theorem Errand.open_ofPair :
    (Errand.ofPair config key value base).Open (.pair config (.ofPairs [(key, base)])) where
  reaches := ⟨rfl, rfl, Std.ExtTreeMap.getElem?_insert_self⟩
  blockSize := rfl
  faultless _ _ _ := rfl
  sound
    | 0 => .empty _
    | 1 => .empty _

theorem Errand.at_ofPair : (Errand.ofPair config key value base).At
    (.pair config (.ofPairs [(key, base)])) (some base) [] where
  held := Std.ExtTreeMap.getElem?_insert_self
  locks := rfl

end

/-- With the default settings a short value is brought to a replica that holds another one. -/
theorem Schedule.bring_exact_defaults :
    let e := Errand.ofPair {} ⟨.ofNat 1, .ofNat 2, .ofNat 3⟩ ⟨#[3, 7, 1, 2]⟩ ⟨#[5, 1, 1, 2]⟩
    let s := Schedule.ofCluster (.pair {} (.ofPairs [(e.key, ⟨#[5, 1, 1, 2]⟩)]))
    e.Passes ∧ ∃ result s', s.bring 0 e.peer e.key e.value = (some result, s') ∧
      (∃ outcome, result = .ok outcome) ∧
        (s'.cluster.replica 1).store.get? e.key = some e.value := by
  intro e s
  have hchecksums : (e.checksums ⟨#[5, 1, 1, 2]⟩).size ≤ Wire.maxInflated := by
    rw [Errand.checksums, Wire.size_putSignature, Wire.length_ofValue]
    decide
  have hdelta : (Wire.putDelta (e.delta ⟨#[5, 1, 1, 2]⟩)).size ≤ Wire.maxInflated :=
    Nat.le_trans (Wire.size_putDelta_diff_le _ e.value (by decide : 20 ≤ 32)) (by decide)
  have hpayload : (e.payload ⟨#[5, 1, 1, 2]⟩).size ≤ e.terms.limit :=
    Nat.le_trans (Wire.size_encodeDelta_diff_le _ e.value (by decide : 20 ≤ 32)) (by decide)
  have hreplayable : e.Replayable ⟨#[5, 1, 1, 2]⟩ :=
    { hash := by decide +kernel
      separates := by decide +kernel
      blocks := by decide
      checksums := Wire.lengthTold_of_size hchecksums
      delta := Wire.lengthTold_of_size hdelta }
  have hpasses : e.Passes := by
    intro base hheld _
    rw [← Option.some.inj hheld]
    exact ⟨Wire.not_refused_of_size hchecksums, hpayload, Wire.not_refused_of_size hdelta⟩
  obtain ⟨result, s', hbring, harrives, -⟩ := Schedule.bring_exact s 0 e (idle_ofCluster _) rfl
    (Errand.open_ofPair {} e.key e.value _) (Errand.at_ofPair {} e.key e.value _)
    (by decide) (by decide) fun base hheld _ => Option.some.inj hheld ▸ hreplayable
  exact ⟨hpasses, result, s', hbring, harrives hpasses⟩

/-- A value of sixteen bytes does not reach a node that holds an empty value, although sixteen bytes
may be sent: the delta carries the value and its length. Settings like these are accepted. -/
theorem Schedule.bring_kept_back :
    let config : ReplicationConfig := { blockSize := 6, maxValueSize := 16 }
    let value : ByteArray := ⟨#[1, 2, 3, 4, 5, 6, 7, 8, 9, 10, 11, 12, 13, 14, 15, 16]⟩
    let e := Errand.ofPair config ⟨.ofNat 1, .ofNat 2, .ofNat 3⟩ value .empty
    let s := Schedule.ofCluster (.pair config (.ofPairs [(e.key, .empty)]))
    NodeConfig.validate { replication := config } = .ok () ∧
      value.size = config.maxValueSize ∧ e.Replayable .empty ∧
      ∃ s', s.bring 0 e.peer e.key value = (some (.error (.tooLarge e.key 37 16)), s') ∧
        (s'.cluster.replica 1).store.get? e.key = some .empty := by
  intro config value e s
  have hdelta : e.delta .empty = [.literal value] := diff_empty (by decide) 6 6
  have hpayload : (e.payload .empty).size = 37 := by
    have hsize : (Wire.encodeDelta [.literal value]).size = 37 := by decide +kernel
    rw [← hsize, ← hdelta]
    rfl
  have hchecksums : (e.checksums .empty).size ≤ Wire.maxInflated := by
    rw [Errand.checksums, Wire.size_putSignature, Wire.length_ofValue]
    decide
  have hreplayable : e.Replayable .empty :=
    { hash := by decide +kernel
      separates := by decide +kernel
      blocks := by decide
      checksums := Wire.lengthTold_of_size hchecksums
      delta := Wire.lengthTold_of_size (by rw [hdelta]; decide +kernel) }
  have hfeasible : e.Feasible :=
    ⟨by decide, by decide, fun base hheld _ => Option.some.inj hheld ▸ hreplayable⟩
  obtain ⟨s', hbring, -, hat⟩ := bring_ends (i := 0) (idle_ofCluster _) rfl
    (Errand.open_ofPair config e.key value _) hfeasible (Errand.at_ofPair config e.key value _)
  have hending := Errand.ending_of_large (e := e) .empty rfl (by decide)
    (Wire.not_refused_of_size hchecksums) (by rw [hpayload]; decide)
  have hvalid : NodeConfig.validate { replication := config } = .ok () := by unfold config; rfl
  refine ⟨hvalid, rfl, hreplayable, s', ?_, ?_⟩
  · rw [← hpayload]
    exact hending.1 ▸ hbring
  · exact hat.held.trans hending.2

end DeltaMesh
