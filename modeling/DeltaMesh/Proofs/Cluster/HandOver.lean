import DeltaMesh.Cluster.HandOver
import DeltaMesh.Proofs.Cluster.Moves
import DeltaMesh.Proofs.Exchange.HandOver
import DeltaMesh.Proofs.Message.Size
import DeltaMesh.Proofs.Peer.Directory

/-!
# Handing a location over in a cluster

A hand-over to a node that can be reached, stores what it is sent and agrees on who the members are
(`Cluster.Receives`) is over after its first turn (`Cluster.turn_handOver`). The new owner then
holds every value and is responsible for the location, and nothing but the keys of these values has
changed at any node (`Cluster.Conveys`).
-/

namespace DeltaMesh

open Exchange (rowsOf sendingRows Sendable)

variable {n : Nat}

/-- The record of the request in which a row of values goes out. -/
def requestOf (owner : Peer) (row : List (Key × ByteArray)) : SentRequest :=
  ⟨owner.id, .copy, 20 + 68 * row.length + Entries.bytesOf row⟩

/-- The records of the requests in which values are handed over. -/
def requestsOf (owner : Peer) (values : List (Key × ByteArray)) : List SentRequest :=
  (rowsOf values).map (requestOf owner)

namespace Cluster

/-- How a cluster changes while values of the keys `P q` go to each node `q` in these requests, of
which the latest is the first. -/
structure Conveys (P : Fin n → Key → Prop) (requests : List SentRequest) (c c' : Cluster n) :
    Prop where
  replica : ∀ q, (c.replica q).Moves (P q) (c'.replica q)
  kept : ∀ q, ∀ location ∈ (c.replica q).tracker.owned, location ∈ (c'.replica q).tracker.owned
  freed : ∀ q k, (c'.replica q).locks.on k = (c.replica q).locks.on k
  sound : c.LocksSound → c'.LocksSound
  reconciler : ∀ j, (c.reconciler j).Keeps (c'.reconciler j)
  registered : c'.network.registered = c.network.registered
  unreachable : c'.network.unreachable = c.network.unreachable
  script : c'.script = c.script
  sent : c'.network.sent = requests ++ c.network.sent

/-- Replica `q` is the node that this peer is. It can be reached, stores what it is sent, and knows
the same members as `d`. -/
structure Receives (c : Cluster n) (d : Directory) (owner : Peer) (q : Fin n) : Prop
    extends c.Reaches owner q where
  self : (c.replica q).directory.self.id = owner.id
  members : d.SameMembers (c.replica q).directory
  faultless : ∀ tried key value, (c.replica q).store.fault tried key value = none

/-- No request is under way. -/
structure Calm (c : Cluster n) : Prop where
  locks : c.LocksSound
  free : ∀ q k, (c.replica q).locks.on k = []

/-- Node `q` holds these values, and is responsible for the location if there are any. -/
structure Supplied (c : Cluster n) (q : Fin n) (location : Id) (values : List (Key × ByteArray)) :
    Prop where
  held : ∀ p ∈ values, (c.replica q).store.get? p.1 = some p.2
  owned : values ≠ [] → location ∈ (c.replica q).tracker.owned

variable {P P' : Fin n → Key → Prop} {requests requests' : List SentRequest}
  {c c' c'' : Cluster n} {d : Directory} {owner : Peer} {q : Fin n} {location : Id}
  {values values' : List (Key × ByteArray)}

theorem Supplied.append (h : c.Supplied q location values) (h' : c.Supplied q location values') :
    c.Supplied q location (values ++ values') where
  held p hp := (List.mem_append.mp hp).elim (h.held p) (h'.held p)
  owned hne := by
    rcases values with - | ⟨p, values⟩
    · exact h'.owned hne
    · exact h.owned (List.cons_ne_nil _ _)

namespace Conveys

theorem refl (P : Fin n → Key → Prop) (c : Cluster n) : Conveys P [] c c where
  replica q := .refl (P q) _
  kept _ _ h := h
  freed _ _ := rfl
  sound := id
  reconciler _ := .refl _
  registered := rfl
  unreachable := rfl
  script := rfl
  sent := rfl

/-- What a single node is asked to store concerns no other one, and at that node it frees all locks
again. -/
theorem of_moves {K : Key → Prop} {D : Prop} (h : c.Moves (corner q K) D c')
    (hkept : ∀ location ∈ (c.replica q).tracker.owned, location ∈ (c'.replica q).tracker.owned)
    (hfreed : ∀ k, (c'.replica q).locks.on k = (c.replica q).locks.on k)
    (hsent : c'.network.sent = requests ++ c.network.sent) :
    Conveys (corner q K) requests c c' where
  replica := h.replica
  kept j location hmem := by
    by_cases hj : j = q
    · subst hj
      exact hkept location hmem
    · rw [(h.replica j).tracker fun k hk => absurd hk.1 hj]
      exact hmem
  freed j k := by
    by_cases hj : j = q
    · subst hj
      exact hfreed k
    · exact (h.replica j).locks k fun hk => hj hk.1
  sound := h.locks
  reconciler := h.reconciler
  registered := h.registered
  unreachable := h.unreachable
  script := h.script
  sent := hsent

theorem trans (h : Conveys P requests c c') (h' : Conveys P requests' c' c'') :
    Conveys P (requests' ++ requests) c c'' where
  replica q := (h.replica q).trans (h'.replica q)
  kept q location hmem := h'.kept q location (h.kept q location hmem)
  freed q k := (h'.freed q k).trans (h.freed q k)
  sound := h'.sound ∘ h.sound
  reconciler j := (h.reconciler j).trans (h'.reconciler j)
  registered := h'.registered.trans h.registered
  unreachable := h'.unreachable.trans h.unreachable
  script := h'.script.trans h.script
  sent := by rw [h'.sent, h.sent, List.append_assoc]

theorem mono (h : Conveys P requests c c') (hP : ∀ q k, P q k → P' q k) :
    Conveys P' requests c c' :=
  { h with replica := fun q => (h.replica q).mono (hP q) }

theorem receives (h : Conveys P requests c c') (hreceives : c.Receives d owner q) :
    c'.Receives d owner q where
  script := h.script.trans hreceives.script
  reachable := by rw [h.unreachable]; exact hreceives.reachable
  registered := by rw [h.registered]; exact hreceives.registered
  self := by rw [(h.replica q).directory]; exact hreceives.self
  members := by rw [(h.replica q).directory]; exact hreceives.members
  faultless := by rw [(h.replica q).fault]; exact hreceives.faultless

theorem calm (h : Conveys P requests c c') (hcalm : c.Calm) : c'.Calm :=
  ⟨h.sound hcalm.locks, fun q k => (h.freed q k).trans (hcalm.free q k)⟩

/-- What a node was supplied with stays, as long as other keys are concerned. -/
theorem supplied (h : Conveys P requests c c') (hsupplied : c.Supplied q location values)
    (hother : ∀ p ∈ values, ¬P q p.1) : c'.Supplied q location values :=
  ⟨fun p hp => ((h.replica q).held p.1 (hother p hp)).trans (hsupplied.held p hp),
    fun hne => h.kept q location (hsupplied.owned hne)⟩

end Conveys

/-! ### One request -/

/-- The new owner agrees that the location is its own. -/
theorem Receives.owns (h : c.Receives d owner q) (howner : (d.owner location).id = owner.id) :
    ((c.replica q).directory.owner location).id = (c.replica q).directory.self.id := by
  rw [← h.members.owner_id location, howner, h.self]

/-- Looking at the location makes the new owner responsible for it and for no other one. -/
theorem Receives.mem_owned_notifyAll (h : c.Receives d owner q)
    (howner : (d.owner location).id = owner.id) {locations : List Id}
    (hunder : ∀ other ∈ locations, other = location) {other : Id}
    (hmem : other ∈ locations ∨ other ∈ (c.replica q).tracker.owned) :
    other ∈ ((c.replica q).tracker.notifyAll (c.replica q).directory locations).owned := by
  rw [Tracker.mem_owned_notifyAll]
  split
  case isTrue hother => exact hunder other hother ▸ h.owns howner
  case isFalse hnot => exact hmem.resolve_left hnot

/-- A row of values under the location arrives in one request: it fits into a frame, its locks are
free, and no write fails. The new owner then looks at the location and finds that it owns it. -/
theorem send_row (h : c.Receives d owner q) (hcalm : c.Calm)
    (howner : (d.owner location).id = owner.id) {row : List (Key × ByteArray)} (hne : row ≠ [])
    (hunder : ∀ p ∈ row, p.1.location = location) (hnodup : (row.map Prod.fst).Nodup)
    (hfits : PairsFit row) (timestamp : Int64) :
    ∃ c', c.send owner (.copy (.ofPairs row) timestamp) =
        (.back (.ok (.copyAck row.length.toUInt32)), c') ∧
      c.Conveys (corner q (· ∈ row.map Prod.fst)) [requestOf owner row] c' ∧
      c'.Supplied q location row := by
  have hperm := Entries.toList_ofPairs_perm hnodup
  have hlocations : ∀ other,
      other ∈ Replica.distinctLocations ((Entries.ofPairs row).toList.map (·.1.location)) →
        other = location := by
    intro other hother
    obtain ⟨p, hp, rfl⟩ := List.mem_map.mp (Replica.mem_distinctLocations.mp hother)
    exact hunder p (hperm.mem_iff.mp hp)
  obtain ⟨r, hturn, hstores, hsound⟩ := Replica.turn_copy (.ofPairs row) (hcalm.locks q)
    h.faultless (fun k _ => hcalm.free q k) timestamp
  have hcopyFits : (Request.copy (.ofPairs row) timestamp).Fits :=
    ⟨hperm.length_eq ▸ hfits.1, fun p hp => hfits.2 p (hperm.mem_iff.mp hp)⟩
  have hframe : (Request.copy (.ofPairs row) timestamp).frame.size =
      20 + 68 * row.length + Entries.bytesOf row := by
    rw [Request.size_frame_copy, Entries.size_ofPairs hnodup, Entries.totalBytes_ofPairs hnodup]
  rw [Entries.size_ofPairs hnodup] at hturn
  obtain ⟨c', hsend, hmoves, rfl, hlog⟩ := send_of_answered (D := True) h.toReaches hcopyFits
    (fun _ => trivial) (.copyAck row.length.toUInt32) trivial hturn hstores.toMoves
    (hsound.mono (Nat.le_succ _))
  have hsent : c'.network.sent = [requestOf owner row] ++ c.network.sent := by
    rw [hlog, requestOf, ← hframe]
    rfl
  refine ⟨c', hsend, (Conveys.of_moves hmoves (fun other hother => ?_) hstores.freed hsent).mono
    fun j k hk => ⟨hk.1, Entries.mem_ofPairs.mp hk.2⟩, fun p hp => hstores.stored p.1 p.2 ?_,
    fun _ => ?_⟩
  · rw [hstores.told]
    exact h.mem_owned_notifyAll howner hlocations (.inr hother)
  · exact Std.ExtTreeMap.mem_toList_iff_getElem?_eq_some.mp (hperm.mem_iff.mpr hp)
  · rw [hstores.told]
    refine h.mem_owned_notifyAll howner hlocations (.inl (Replica.mem_distinctLocations.mpr ?_))
    obtain ⟨p, hp⟩ := List.exists_mem_of_ne_nil row hne
    exact List.mem_map.mpr ⟨p, hperm.mem_iff.mpr hp, hunder p hp⟩

/-! ### All requests -/

theorem conveys_jot (c : Cluster n) (i : Fin n) (what : Note) : c.Conveys P [] (c.jot i what) :=
  (Conveys.of_moves (K := fun _ => False) (q := i) (c.moves_jot (D := True) i what)
    (fun _ h => h) (fun _ => rfl) rfl).mono fun _ _ h => h.2.elim

/-- Rows of values under the location arrive one after the other. The induction is on the rows;
after each the new owner still receives, since a COPY changes neither its directory nor what is
connected. -/
theorem converse_sendingRows (i : Fin n) (t : Terms) {rows : List (List (Key × ByteArray))}
    (h : c.Receives d owner q) (hcalm : c.Calm) (howner : (d.owner location).id = owner.id)
    (hrows : ∀ row ∈ rows, row ≠ [] ∧ PairsFit row)
    (hunder : ∀ p ∈ rows.flatten, p.1.location = location)
    (hnodup : (rows.flatten.map Prod.fst).Nodup) (stored : Nat) :
    ∃ c' total, c.converse i (sendingRows t owner stored rows) = (.finished (.ok total), c') ∧
      c.Conveys (corner q (· ∈ rows.flatten.map Prod.fst)) (rows.map (requestOf owner)).reverse c' ∧
      c'.Supplied q location rows.flatten := by
  induction rows generalizing c stored with
  | nil =>
    exact ⟨c.jot i .handedOver, stored, rfl, c.conveys_jot i .handedOver,
      ⟨fun p hp => (nomatch hp), fun hne => absurd rfl hne⟩⟩
  | cons row rows ih =>
    obtain ⟨⟨hne, hfits⟩, hrows⟩ := List.forall_mem_cons.mp hrows
    rw [List.flatten_cons] at hunder hnodup ⊢
    rw [List.map_append] at hnodup
    obtain ⟨hunder, hunder'⟩ := List.forall_mem_append.mp hunder
    obtain ⟨hnodup, hnodup', hdisjoint⟩ := List.nodup_append'.mp hnodup
    obtain ⟨c₁, hsend, hconveys, hsupplied⟩ :=
      c.send_row h hcalm howner hne hunder hnodup hfits t.now
    let c₂ := c₁.jot i (.copied (Entries.ofPairs row).totalBytes)
    have hnoted : c₁.Conveys (corner q (· ∈ row.map Prod.fst)) [] c₂ := c₁.conveys_jot i _
    obtain ⟨c', total, hconverse, hconveys', hsupplied'⟩ := ih (c := c₂)
      ((hconveys.trans hnoted).receives h) ((hconveys.trans hnoted).calm hcalm) hrows hunder'
      hnodup' (stored + row.length.toUInt32.toNat)
    have hkept : c₂.Supplied q location row := (c₁.conveys_jot (P := fun _ _ => False) i _).supplied
      hsupplied fun _ _ h => h
    refine ⟨c', total, ?_, ?_, (hconveys'.supplied hkept fun p hp hlater => ?_).append hsupplied'⟩
    · rw [sendingRows, converse, hsend]
      exact hconverse
    · have hfirst : c.Conveys (corner q (· ∈ (row ++ rows.flatten).map Prod.fst))
          ([] ++ [requestOf owner row]) c₂ := by
        refine (hconveys.trans hnoted).mono fun j k hk => ⟨hk.1, ?_⟩
        rw [List.map_append]
        exact List.mem_append_left _ hk.2
      have hrest : c₂.Conveys (corner q (· ∈ (row ++ rows.flatten).map Prod.fst))
          (rows.map (requestOf owner)).reverse c' := by
        refine hconveys'.mono fun j k hk => ⟨hk.1, ?_⟩
        rw [List.map_append]
        exact List.mem_append_right _ hk.2
      rw [List.map_cons, List.reverse_cons]
      exact hfirst.trans hrest
    · exact hdisjoint (List.mem_map_of_mem hp) hlater.2

/-! ### The turn of a hand-over -/

/-- A row fits into a request if the values do. -/
theorem fits_of_mem_rowsOf {row : List (Key × ByteArray)}
    (hcount : values.length < Wire.lengthBound)
    (hsizes : ∀ p ∈ values, p.2.size < Wire.lengthBound) (hrow : row ∈ rowsOf values) :
    PairsFit row := by
  have hsub := Exchange.sublist_of_mem_rowsOf hrow
  exact ⟨Nat.lt_of_le_of_lt hsub.length_le hcount, fun p hp => hsizes p (hsub.subset hp)⟩

/-- What a node can hand over: the values are small enough, and can be counted. -/
structure Portable (c : Cluster n) (i : Fin n) : Prop where
  limit : (c.reconciler i).config.maxValueSize < Wire.lengthBound
  sizes : ∀ (k : Key) (value : ByteArray), (c.replica i).store.get? k = some value →
    value.size ≤ (c.reconciler i).config.maxValueSize
  count : (c.replica i).store.entries.size < Wire.lengthBound

/-- A hand-over that has not begun is over after its first turn. It computes nothing and no lock
makes it wait, so the whole conversation takes place within the turn. -/
theorem turn_handOver (i : Fin n) (h : c.Receives d owner q) (hcalm : c.Calm)
    (howner : (d.owner location).id = owner.id) (hportable : c.Portable i) :
    ∃ c' total, HandOver.turn i (.planned location owner .free) c = (.over (.ok total), c') ∧
      c.Conveys (corner q (· ∈ ((c.replica i).store.entries.under location).map Prod.fst))
        (requestsOf owner ((c.replica i).store.entries.under location)).reverse c' ∧
      c'.Supplied q location ((c.replica i).store.entries.under location) := by
  let values := (c.replica i).store.entries.under location
  have hsizes : ∀ p ∈ values, p.2.size ≤ (c.reconciler i).config.maxValueSize := fun p hp =>
    hportable.sizes p.1 p.2 (Entries.mem_under.mp hp).2
  have hcount : values.length < Wire.lengthBound :=
    Nat.lt_of_le_of_lt (Entries.length_under_le _ _) hportable.count
  have hrows : ∀ row ∈ rowsOf values, row ≠ [] ∧ PairsFit row := fun row hrow =>
    ⟨(Exchange.sendable_of_mem_rowsOf row hrow).nonempty, fits_of_mem_rowsOf hcount
      (fun p hp => Nat.lt_of_le_of_lt (hsizes p hp) hportable.limit) hrow⟩
  have hflatten : (rowsOf values).flatten = values := Exchange.flatten_rowsOf values
  obtain ⟨c', total, hconverse, hconveys, hsupplied⟩ := c.converse_sendingRows i
    ((c.reconciler i).terms c.now) h hcalm howner hrows
    (fun p hp => (Entries.mem_under.mp (hflatten ▸ hp)).1)
    (hflatten.symm ▸ Entries.nodup_under _ _) 0
  rw [hflatten] at hconveys hsupplied
  refine ⟨c', total, ?_, hconveys, hsupplied⟩
  have hresume : c.resume i (.ofExchange (handOver ((c.reconciler i).terms c.now) owner
      values).run) = (.finished (.ok total), c') := by
    rw [Exchange.run_handOver _ _ hsizes]
    exact hconverse
  rw [HandOver.turn]
  simp only [values] at hresume
  simp only [hresume]
  rfl

end Cluster

end DeltaMesh
