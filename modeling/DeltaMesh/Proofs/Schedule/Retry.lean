import DeltaMesh.Proofs.Cluster.Spares
import DeltaMesh.Proofs.Schedule.HandOver
import DeltaMesh.Proofs.Schedule.Round

/-!
# A hand-over that has failed

A tick changes nothing under a location that the node is not responsible for
(`Schedule.spares_tick`). A node that loses a location is no longer responsible for it, whether or
not its new owner could be reached; so a hand-over that has failed is made up for by no tick of a
node that is not responsible either (`Schedule.handOver_not_retried`).
-/

namespace DeltaMesh

variable {n : Nat} {L : Id → Prop} {σ ρ : Type}

namespace Schedule

/-! ### Ticks -/

section

variable (turn : σ → Cluster n → Progress σ ρ × Cluster n) (waits : σ → List (Wait n))
  {P : Cluster n → Prop} {Q : σ → Prop}

/-- What each turn and each computation keeps is kept to the end, also if the end is never reached.
-/
theorem awaitWithin_keeps
    (hturn : ∀ state c, Q state → P c → P (turn state c).2 ∧ (turn state c).1.Leaves Q)
    (hwork : ∀ c due, P c → P (c.workedUntil due)) (turns : Nat) {progress : Progress σ ρ}
    {s : Schedule n} (hidle : s.Idle) (hcluster : P s.cluster) (hstate : progress.Leaves Q) :
    (awaitWithin turn waits turns progress s).2.Idle ∧
      P (awaitWithin turn waits turns progress s).2.cluster := by
  induction turns generalizing progress s with
  | zero => cases progress <;> exact ⟨hidle, hcluster⟩
  | succ turns ih =>
    rcases progress with state | result
    · rw [awaitWithin, hidle.step?]
      dsimp only
      split
      case isTrue =>
        obtain ⟨hturned, hleft⟩ := hturn state s.cluster hstate hcluster
        exact ih (s := { s with cluster := (turn state s.cluster).2 })
          ⟨hidle.ready, hidle.blocked⟩ hturned hleft
      case isFalse =>
        split
        case h_1 due hdue =>
          exact ih (s := s.workUntil due) ⟨hidle.ready, hidle.blocked⟩
            (hwork s.cluster due hcluster) hstate
        case h_2 => exact ⟨hidle, hcluster⟩
    · exact ⟨hidle, hcluster⟩

/-- What every turn and every ended computation keeps holds when the awaited thing is over. No deed
is under way, so nothing else happens meanwhile. -/
theorem await_keeps
    (hturn : ∀ state c, Q state → P c → P (turn state c).2 ∧ (turn state c).1.Leaves Q)
    (hwork : ∀ c due, P c → P (c.workedUntil due)) {state : σ} {s : Schedule n} (hidle : s.Idle)
    (hcluster : P s.cluster) (hstate : Q state) :
    (s.await turn waits state).2.Idle ∧ P (s.await turn waits state).2.cluster := by
  obtain ⟨hturned, hleft⟩ := hturn state s.cluster hstate hcluster
  exact awaitWithin_keeps turn waits hturn hwork s.patience
    (s := { s with cluster := (turn state s.cluster).2 }) ⟨hidle.ready, hidle.blocked⟩ hturned hleft

end

variable {s s' : Schedule n} {i : Fin n} {location : Id}

/-- A tick changes nothing under a location that the node is not responsible for, whatever it brings
elsewhere. -/
theorem spares_tick {report? : Option TickReport} (hidle : s.Idle)
    (hlimit : (s.cluster.reconciler i).config.maxValueSize < Wire.lengthBound)
    (h : s.tick i = .ok (report?, s')) : s'.Idle ∧
      s.cluster.Spares (· ∈ (s.cluster.replica i).tracker.owned) s'.cluster := by
  rw [tick] at h
  cases hbegin : Tick.begin i s.cluster with
  | error why =>
    rw [hbegin] at h
    cases h
  | ok begun =>
    obtain ⟨t, c⟩ := begun
    rw [hbegin] at h
    obtain ⟨hspares, hwithin⟩ := Tick.spares_begin hbegin
    have hkept := await_keeps (Tick.turn i) Tick.waits
      (P := s.cluster.Spares (· ∈ (s.cluster.replica i).tracker.owned))
      (Q := Tick.Within (· ∈ (s.cluster.replica i).tracker.owned))
      (fun t c hwithin hspares => by
        have hturned := Tick.spares_turn (c := c) (i := i) hwithin (hspares.config i ▸ hlimit)
        exact ⟨hspares.trans hturned.1, hturned.2⟩)
      (fun c due hspares => ⟨hspares.replica, hspares.config⟩) (s := { s with cluster := c })
      ⟨hidle.ready, hidle.blocked⟩ hspares hwithin
    have hs' : ({ s with cluster := c }.await (Tick.turn i) Tick.waits t).2 = s' :=
      congrArg Prod.snd (Except.ok.inj h)
    rwa [hs'] at hkept

/-- A row of ticks that comes to its end consists of a tick that does, and of the ticks after it. -/
theorem ticks_cons_eq_ok {order : List (Fin n)} {reports : List (Option TickReport)}
    (h : s.ticks (i :: order) = .ok (reports, s')) : ∃ report? s₁ reports',
      s.tick i = .ok (report?, s₁) ∧ s₁.ticks order = .ok (reports', s') := by
  rw [ticks] at h
  cases htick : s.tick i with
  | error why =>
    rw [htick] at h
    cases h
  | ok ticked =>
    obtain ⟨report?, s₁⟩ := ticked
    rw [htick] at h
    simp only [bind, Except.bind] at h
    cases hticks : s₁.ticks order with
    | error why =>
      rw [hticks] at h
      cases h
    | ok rest =>
      obtain ⟨reports', s₂⟩ := rest
      rw [hticks] at h
      obtain ⟨-, rfl⟩ := Prod.mk.inj (Except.ok.inj h)
      exact ⟨report?, s₁, reports', rfl, hticks⟩

theorem ticks_single {report? : Option TickReport} (h : s.tick i = .ok (report?, s')) :
    s.ticks [i] = .ok ([report?], s') := by
  rw [ticks, h]
  rfl

/-- No sequence of ticks changes anything under a location that none of the nodes is responsible
for. -/
theorem spares_ticks {order : List (Fin n)} {reports : List (Option TickReport)} (hidle : s.Idle)
    (hlimit : ∀ j, (s.cluster.reconciler j).config.maxValueSize < Wire.lengthBound)
    (hnobody : ∀ j ∈ order, location ∉ (s.cluster.replica j).tracker.owned)
    (h : s.ticks order = .ok (reports, s')) : s.cluster.Spares (· ≠ location) s'.cluster := by
  induction order generalizing s reports with
  | nil =>
    obtain ⟨-, rfl⟩ := Prod.mk.inj (Except.ok.inj h)
    exact .refl _ _
  | cons i order ih =>
    obtain ⟨hi, horder⟩ := List.forall_mem_cons.mp hnobody
    obtain ⟨report?, s₁, reports', htick, hticks⟩ := ticks_cons_eq_ok h
    obtain ⟨hidle₁, hspares⟩ := spares_tick hidle (hlimit i) htick
    have hfirst : s.cluster.Spares (· ≠ location) s₁.cluster :=
      hspares.mono fun other hother heq => hi (heq ▸ hother)
    refine hfirst.trans (ih hidle₁ (fun j => hfirst.config j ▸ hlimit j) (fun j hj => ?_) hticks)
    rw [(hfirst.replica j).owned location fun hne => hne rfl]
    exact horder j hj

end Schedule

/-- A tick with nothing to do is over at once, with the reports that it has. -/
theorem Tick.turn_of_nothing {t : Tick n} {c : Cluster n} {i : Fin n} (hwaiting : t.waiting = [])
    (hready : t.ready = []) (hblocked : t.blocked = []) :
    t.turn i c = (.over ⟨t.factor, t.reports.reverse⟩, c) := by
  obtain ⟨factor, window, waiting, ready, blocked, reports⟩ := t
  obtain rfl : waiting = [] := hwaiting
  obtain rfl : ready = [] := hready
  obtain rfl : blocked = [] := hblocked
  have hrun : (⟨factor, window, [], [], [], reports⟩ : Tick n).run i c =
      (⟨factor, window, [], [], [], reports⟩, c) := by
    rw [run_of_nil (by simp [letIn])]
    simp [letIn]
  rw [turn]
  simp only [List.partition_eq_filter_filter, List.filter_nil, List.append_nil, hrun,
    List.isEmpty_nil, if_true]

/-! ### A hand-over to a node that cannot be reached -/

namespace Cluster

variable {c c' : Cluster n} {owner : Peer} {i : Fin n} {location : Id}

theorem Spares.of_moves {D : Prop} (h : c.Moves (fun _ _ => False) D c') : c.Spares L c' where
  replica q := by
    refine ⟨fun k _ => (h.replica q).held k id, fun location _ => ?_⟩
    rw [(h.replica q).tracker fun _ hk => hk.elim]
  config j := (h.reconciler j).config

/-- Requests to the peer go to no script and do not get through. -/
structure CutOff (c : Cluster n) (peer : Peer) : Prop where
  script : c.script = none
  unreachable : c.network.unreachable.contains peer.id = true

/-- A request to a peer that is cut off fails at once. It is counted and reaches no replica. -/
theorem send_cutOff (h : c.CutOff owner) (q : Request) : ∃ c',
    c.send owner q = (.back (.error (.unreachable owner.shortText)), c') ∧
      c.Moves (fun _ _ => False) True c' ∧ c'.reconcilers = c.reconcilers := by
  obtain ⟨hscript, hunreachable⟩ := h
  obtain ⟨network, reconcilers, meter, script, now, work⟩ := c
  subst hscript
  show ∃ c', sendOver _ owner q = _ ∧ _
  rw [sendOver, Network.dispatch]
  simp only [hunreachable, if_true]
  exact ⟨_, rfl, { Moves.refl (fun _ _ => False) True _ with
    sent := ⟨[⟨owner.id, q.kind, q.frame.size⟩], rfl, fun _ _ _ => trivial⟩ }, rfl⟩

/-- The first row that cannot be sent ends the hand-over, and nothing was sent before it. -/
theorem converse_cutOff (h : c.CutOff owner) (i : Fin n) (t : Terms) (stored : Nat)
    {rows : List (List (Key × ByteArray))} (hrows : rows ≠ []) : ∃ c',
      c.converse i (Exchange.sendingRows t owner stored rows) =
        (.finished (.error (.network (.unreachable owner.shortText))), c') ∧
      c.Moves (fun _ _ => False) True c' := by
  rcases rows with - | ⟨row, rows⟩
  · exact absurd rfl hrows
  · obtain ⟨c', hsend, hmoves, -⟩ := send_cutOff h (.copy (.ofPairs row) t.now)
    refine ⟨c'.jot i (.requestFailed .copy), ?_, hmoves.trans (c'.moves_jot i _)⟩
    rw [Exchange.sendingRows, converse, hsend]
    rfl

/-- The first turn of a hand-over to an owner that is cut off is also the last: the first COPY
fails, and nothing has been stored anywhere. There is a first COPY, since a value is stored under
the location and none is too large. -/
theorem turn_handOver_cutOff (h : c.CutOff owner) (i : Fin n)
    (hsizes : ∀ (k : Key) (value : ByteArray), (c.replica i).store.get? k = some value →
      value.size ≤ (c.reconciler i).config.maxValueSize)
    (hstored : location ∈ (c.replica i).store.entries.locations) (wait : Wait n) : ∃ c',
      HandOver.turn i (.planned location owner wait) c =
        (.over (.error (.network (.unreachable owner.shortText))), c') ∧
      c.Moves (fun _ _ => False) True c' := by
  let values := (c.replica i).store.entries.under location
  have hlimit : ∀ p ∈ values, p.2.size ≤ (c.reconciler i).config.maxValueSize :=
    fun p hp => hsizes p.1 p.2 (Entries.mem_under.mp hp).2
  have hrows : Exchange.rowsOf values ≠ [] :=
    Exchange.rowsOf_ne_nil (Entries.under_ne_nil hstored)
  obtain ⟨c', hconverse, hmoves⟩ :=
    converse_cutOff h i ((c.reconciler i).terms c.now) 0 hrows
  refine ⟨c', ?_, hmoves⟩
  rw [← Exchange.run_handOver _ owner hlimit] at hconverse
  have hresume : c.resume i (.ofExchange (handOver ((c.reconciler i).terms c.now) owner
      values).run) = (.finished (.error (.network (.unreachable owner.shortText))), c') :=
    hconverse
  rw [HandOver.turn]
  simp only [values] at hresume
  simp only [hresume]
  rfl

end Cluster

namespace Schedule

variable {s : Schedule n} {owner : Peer} {i : Fin n} {location : Id}

/-- Cuts a peer off, or connects it again. -/
def setUnreachable (s : Schedule n) (peer : Id) (cutOff : Bool) : Schedule n :=
  { s with cluster := { s.cluster with
    network := s.cluster.network.setUnreachable peer cutOff } }

theorem replica_setUnreachable (s : Schedule n) (peer : Id) (cutOff : Bool) (q : Fin n) :
    (s.setUnreachable peer cutOff).cluster.replica q = s.cluster.replica q := rfl

theorem reconciler_setUnreachable (s : Schedule n) (peer : Id) (cutOff : Bool) (j : Fin n) :
    (s.setUnreachable peer cutOff).cluster.reconciler j = s.cluster.reconciler j := rfl

/-- A hand-over to a node that cannot be reached fails, and leaves everything as it was. -/
theorem yieldTo_cutOff (hidle : s.Idle) (h : s.cluster.CutOff owner)
    (hsizes : ∀ (k : Key) (value : ByteArray), (s.cluster.replica i).store.get? k = some value →
      value.size ≤ (s.cluster.reconciler i).config.maxValueSize)
    (hstored : location ∈ (s.cluster.replica i).store.entries.locations) (delayed : Bool) :
    ∃ s', s.yieldTo i location owner delayed =
        (some (.error (.network (.unreachable owner.shortText))), s') ∧ s'.Idle ∧
      s.cluster.Spares (fun _ => False) s'.cluster ∧
      ∀ j, (s.cluster.reconciler j).Keeps (s'.cluster.reconciler j) := by
  obtain ⟨now, hwait⟩ :=
    hidle.wait_if delayed (min (s.cluster.reconciler i).config.maxPushJitter 1)
  obtain ⟨c', hturn, hmoves⟩ := Cluster.turn_handOver_cutOff (c := (s.setTime now).cluster)
    ⟨h.script, h.unreachable⟩ i hsizes hstored .free
  refine ⟨{ s.setTime now with cluster := c' }, ?_, ⟨hidle.ready, hidle.blocked⟩, ?_,
    hmoves.reconciler⟩
  · rw [yieldTo]
    simp only [hwait]
    rw [push, await, hturn]
    simp only [awaitWithin]
  · have hspares := Cluster.Spares.of_moves (L := fun _ => False) hmoves
    exact ⟨hspares.replica, hspares.config⟩

/-- Once a hand-over has failed because the new owner could not be reached, ticks of nodes that are
not responsible for the location, of which the node that lost it is one, change nothing under it,
even though the new owner can be reached again. -/
theorem handOver_not_retried (s : Schedule n) (i : Fin n) (location : Id) (owner : Peer)
    (delayed : Bool) (order : List (Fin n)) (hidle : s.Idle) (h : s.cluster.CutOff owner)
    (hlimit : ∀ j, (s.cluster.reconciler j).config.maxValueSize < Wire.lengthBound)
    (hsizes : ∀ (k : Key) (value : ByteArray), (s.cluster.replica i).store.get? k = some value →
      value.size ≤ (s.cluster.reconciler i).config.maxValueSize)
    (hstored : location ∈ (s.cluster.replica i).store.entries.locations)
    (hnobody : ∀ j ∈ order, location ∉ (s.cluster.replica j).tracker.owned) :
    (s.yieldTo i location owner delayed).1 =
        some (.error (.network (.unreachable owner.shortText))) ∧
      ∀ (reports : List (Option TickReport)) (s' : Schedule n),
        ((s.react i (.lost location owner delayed)).setUnreachable owner.id false).ticks order =
          .ok (reports, s') →
        ∀ q k, k.location = location →
          (s'.cluster.replica q).store.get? k = (s.cluster.replica q).store.get? k := by
  obtain ⟨s₁, hyield, hidle₁, hspares, -⟩ := yieldTo_cutOff hidle h hsizes hstored delayed
  have hreact : s.react i (.lost location owner delayed) = s₁ := congrArg Prod.snd hyield
  refine ⟨congrArg Prod.fst hyield, fun reports s' hticks q k hk => ?_⟩
  rw [hreact] at hticks
  have hspares : s.cluster.Spares (· ≠ location) s₁.cluster :=
    hspares.mono fun _ hfalse => hfalse.elim
  have hconnected : s.cluster.Spares (· ≠ location) (s₁.setUnreachable owner.id false).cluster :=
    ⟨hspares.replica, hspares.config⟩
  have hticked := spares_ticks (s := s₁.setUnreachable owner.id false)
    ⟨hidle₁.ready, hidle₁.blocked⟩ (fun j => hconnected.config j ▸ hlimit j)
    (fun j hj => by
      rw [(hconnected.replica j).owned location fun hne => hne rfl]
      exact hnobody j hj) hticks
  exact ((hconnected.trans hticked).replica q).held k fun hne => hne hk

/-- The tick of a node that is responsible for nothing is over at once. -/
theorem tick_of_nothing (hfixed : (s.cluster.reconciler i).estimator.config.adaptive = false)
    (hnothing : ∀ location, location ∉ (s.cluster.replica i).tracker.owned) :
    ∃ report, s.tick i = .ok (some report, { s with cluster := s.cluster.recomputed i }) := by
  have hwaiting : (s.cluster.replica i).tracker.responsible = [] :=
    List.eq_nil_iff_forall_not_mem.mpr fun location hmem =>
      hnothing location (Std.ExtTreeSet.mem_toList.mp hmem)
  have hturn := Tick.turn_of_nothing (i := i) (c := s.cluster.recomputed i)
    (t := Tick.fresh i (s.cluster.recomputed i)) hwaiting rfl rfl
  refine ⟨⟨(Tick.fresh i (s.cluster.recomputed i)).factor, []⟩, ?_⟩
  rw [tick, Tick.begin_eq hfixed]
  simp only [bind, Except.bind, pure, Except.pure, await, hturn, awaitWithin]
  rfl

end Schedule

/-! ### A second node joins and is cut off -/

section

variable (key : Key) (value : ByteArray)

/-- A second node joins a node that was alone, and is cut off. -/
def Schedule.partedPair : Schedule 2 :=
  (ofCluster ((Cluster.joiningPair key value).regroup 0 [.joined (.numbered 1)])).setUnreachable
    (Peer.numbered 1).id true

theorem Schedule.idle_partedPair : (partedPair key value).Idle := ⟨rfl, rfl⟩

/-- Who owns the location of the value as far as the first node knows. -/
def Schedule.partedOwner : Peer :=
  ((partedPair key value).cluster.replica 0).directory.owner key.location

/-- Parting the two nodes changes nothing but the directory and the tracker of node 0. -/
theorem Schedule.onlyAt_partedPair :
    (Cluster.joiningPair key value).OnlyAt 0
      ((Cluster.joiningPair key value).regroup 0 [.joined (.numbered 1)]) :=
  ((Cluster.joiningPair key value).regroup_eq 0 [.joined (.numbered 1)]).1

theorem Schedule.replica_partedPair : (partedPair key value).cluster.replica 0 =
    { (Cluster.joiningPair key value).replica 0 with
      directory := (Cluster.joiningPair key value).learned 0 [.joined (.numbered 1)]
      tracker := ((Cluster.joiningPair key value).replica 0).tracker.reevaluate
        ((Cluster.joiningPair key value).learned 0 [.joined (.numbered 1)])
        (Entries.ofPairs [(key, value)]).locations } := by
  rw [partedPair, replica_setUnreachable]
  exact ((Cluster.joiningPair key value).regroup_eq 0 [.joined (.numbered 1)]).2

theorem Schedule.partedOwner_eq : partedOwner key value =
    ((Cluster.joiningPair key value).learned 0 [.joined (.numbered 1)]).owner key.location := by
  rw [partedOwner, replica_partedPair]

/-- The new owner starts with nothing. -/
theorem Schedule.held_partedPair (k : Key) :
    ((partedPair key value).cluster.replica 1).store.get? k = none := by
  have hother : (partedPair key value).cluster.replica 1 =
      (Cluster.joiningPair key value).replica 1 := by
    rw [partedPair, replica_setUnreachable]
    exact (onlyAt_partedPair key value).others 1 (by decide)
  rw [hother]
  exact Std.ExtTreeMap.getElem?_empty

theorem Schedule.reconciler_partedPair (j : Fin 2) :
    (partedPair key value).cluster.reconciler j = (Cluster.joiningPair key value).reconciler j := by
  rw [partedPair, reconciler_setUnreachable]
  exact congrArg (Vector.get · j) (onlyAt_partedPair key value).reconcilers

theorem Schedule.limit_partedPair (j : Fin 2) :
    ((partedPair key value).cluster.reconciler j).config.maxValueSize < Wire.lengthBound := by
  rw [reconciler_partedPair]
  match j with
  | 0 => exact (by decide : 15 * 1024 * 1024 < Wire.lengthBound)
  | 1 => exact (by decide : 15 * 1024 * 1024 < Wire.lengthBound)

theorem Schedule.entries_partedPair :
    ((partedPair key value).cluster.replica 0).store.entries = .ofPairs [(key, value)] := by
  rw [replica_partedPair]
  rfl

theorem Schedule.stored_partedPair :
    key.location ∈ ((partedPair key value).cluster.replica 0).store.entries.locations := by
  rw [entries_partedPair]
  exact (Entries.mem_locations_single key value).mpr rfl

theorem Schedule.sizes_partedPair (hsize : value.size ≤ 15 * 1024 * 1024) (k : Key)
    (v : ByteArray) (hv : ((partedPair key value).cluster.replica 0).store.get? k = some v) :
    v.size ≤ ((partedPair key value).cluster.reconciler 0).config.maxValueSize := by
  rw [Store.get?, entries_partedPair] at hv
  obtain ⟨-, rfl⟩ := Entries.eq_of_getElem?_single key value hv
  rw [reconciler_partedPair]
  exact hsize

/-- Whoever has the id of node 1 cannot be reached. -/
theorem Schedule.cutOff_partedPair {owner : Peer} (howner : owner.id = (Peer.numbered 1).id) :
    (partedPair key value).cluster.CutOff owner where
  script := rfl
  unreachable := by
    rw [howner]
    exact Std.ExtTreeSet.contains_insert_self

section

variable (howner : (Schedule.partedOwner key value).id = (Peer.numbered 1).id)

include howner

/-- Once node 1 has joined, the location belongs to it and no longer to node 0. -/
theorem Schedule.partedOwner_ne :
    (((Cluster.joiningPair key value).learned 0 [.joined (.numbered 1)]).owner key.location).id ≠
      ((Cluster.joiningPair key value).learned 0 [.joined (.numbered 1)]).self.id := by
  have hself := (Cluster.lists_learned_joiningPair key value).self
  rw [← partedOwner_eq, howner, hself]
  decide

/-- If the second node owns the location, then the first one is responsible for nothing. -/
theorem Schedule.not_mem_owned_partedPair (location : Id) :
    location ∉ ((partedPair key value).cluster.replica 0).tracker.owned := by
  have howned := Cluster.mem_owned_regroup (c := Cluster.joiningPair key value) (i := 0)
    [.joined (.numbered 1)] rfl rfl location
  rw [partedPair, replica_setUnreachable]
  intro hmem
  have hcase := howned.mp hmem
  split at hcase
  case isTrue hstored =>
    obtain rfl := (Entries.mem_locations_single key value).mp hstored
    exact partedOwner_ne key value howner hcase
  case isFalse hnot =>
    refine hnot ((Entries.mem_locations_single key value).mpr ?_)
    have hgained : location ∈ (∅ : Std.ExtTreeSet Id compare).insert key.location := hcase
    rw [Std.ExtTreeSet.mem_insert, Std.LawfulEqOrd.compare_eq_iff_eq] at hgained
    exact hgained.resolve_right Std.ExtTreeSet.not_mem_empty

/-- The change of owner is announced once, and as a delayed loss. The announcement before was the
gain of the same location. -/
theorem Schedule.announced_partedPair :
    ((partedPair key value).cluster.replica 0).tracker.announcedSince 1 =
      [.lost key.location (partedOwner key value) true] := by
  have hannounced := Cluster.announced_regroup (c := Cluster.joiningPair key value) (i := 0)
    [.joined (.numbered 1)] rfl rfl fun location hlocation =>
      (Entries.mem_locations_single key value).mp hlocation ▸ Std.ExtTreeSet.mem_insert_self
  have hlost : Cluster.lostLocations
      ((Cluster.joiningPair key value).learned 0 [.joined (.numbered 1)])
      (.ofPairs [(key, value)]) = [key.location] := by
    rw [Cluster.lostLocations, Entries.locations_single]
    exact List.filter_cons_of_pos (decide_eq_true (partedOwner_ne key value howner))
  rw [partedOwner_eq]
  exact hannounced.trans (congrArg (List.map _) hlost)

/-- The first node has nothing left to do, so its tick is over at once. -/
theorem Schedule.ticks_partedPair (hsize : value.size ≤ 15 * 1024 * 1024) :
    ∃ report s', (((partedPair key value).react 0
      (.lost key.location (partedOwner key value) true)).setUnreachable
        (partedOwner key value).id false).ticks [0] = .ok ([some report], s') := by
  obtain ⟨s, hyield, -, hspares, hkeeps⟩ := yieldTo_cutOff (idle_partedPair key value)
    (cutOff_partedPair key value howner) (sizes_partedPair key value hsize)
    (stored_partedPair key value) true
  have hreact : (partedPair key value).react 0 (.lost key.location (partedOwner key value) true) =
      s := congrArg Prod.snd hyield
  rw [hreact]
  have hfixed : (s.cluster.reconciler 0).estimator.config.adaptive = false := by
    rw [(hkeeps 0).factorConfig, reconciler_partedPair]
    rfl
  obtain ⟨report, htick⟩ := tick_of_nothing
    (s := s.setUnreachable (partedOwner key value).id false) hfixed fun location hmem =>
      not_mem_owned_partedPair key value howner location
        (((hspares.replica 0).owned location id).mp hmem)
  exact ⟨report, _, ticks_single htick⟩

end

end

/-- The second node is closer to the location of the value, and does not get it: it is cut off while
the loss is announced, and connected again before the next tick. -/
theorem Schedule.handOver_not_retried_partedPair :
    let key : Key := ⟨.ofNat 2, .ofNat 1, .ofNat 1⟩
    let value : ByteArray := ⟨#[7]⟩
    let s := partedPair key value
    let owner := partedOwner key value
    let after := (s.react 0 (.lost key.location owner true)).setUnreachable owner.id false
    owner.id = (Peer.numbered 1).id ∧
      (s.cluster.replica 0).tracker.announcedSince 1 = [.lost key.location owner true] ∧
      (s.yieldTo 0 key.location owner true).1 =
        some (.error (.network (.unreachable owner.shortText))) ∧
      ∃ report s', after.ticks [0] = .ok ([some report], s') ∧
        (s'.cluster.replica 1).store.get? key = none := by
  intro key value s owner after
  have hids : Function.Injective fun i => (Peer.numbered i).id := by
    rw [Function.Injective]
    decide
  have hsize : value.size ≤ 15 * 1024 * 1024 := by decide
  have howner : (Schedule.partedOwner key value).id = (Peer.numbered 1).id := by
    rw [Schedule.partedOwner_eq]
    exact ((Cluster.lists_learned_joiningPair key value).owner_id_eq_iff hids key.location 1).mpr
      (by decide)
  clear_value key value
  obtain ⟨hfails, hkept⟩ := Schedule.handOver_not_retried s 0 key.location owner true [0]
    (Schedule.idle_partedPair key value) (Schedule.cutOff_partedPair key value howner)
    (Schedule.limit_partedPair key value) (Schedule.sizes_partedPair key value hsize)
    (Schedule.stored_partedPair key value) (List.forall_mem_singleton.mpr
      (Schedule.not_mem_owned_partedPair key value howner key.location))
  obtain ⟨report, s', hticks⟩ := Schedule.ticks_partedPair key value howner hsize
  exact ⟨howner, Schedule.announced_partedPair key value howner, hfails, report, s', hticks,
    (hkept _ s' hticks 1 key rfl).trans (Schedule.held_partedPair key value key)⟩

end DeltaMesh
