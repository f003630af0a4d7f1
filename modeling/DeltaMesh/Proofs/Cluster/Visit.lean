import DeltaMesh.Proofs.Cluster.Errand

/-!
# Bringing values to a replica, one after the other

A `Visit` is a conversation that brings the values of a location to one replica. It is a row of
errands: those behind it have come to their end, one may be under way, and those ahead have not
begun (`Visit.Leads`). Each turn that it can take brings it further, and nothing but the keys of
its values at its replica is touched (`Visit.led_resume`).
-/

namespace DeltaMesh

/-- Values on their way to a replica, and what the replica holds under their keys at first. -/
structure Visit (n : Nat) where
  terms : Terms
  /-- As whom the node addresses the replica. -/
  peer : Peer
  replica : Fin n
  /-- The length of the replica's blocks. -/
  blockSize : Nat
  values : List (Key × ByteArray)
  held? : Key → Option ByteArray

namespace Visit

variable {n : Nat} (v : Visit n)

/-- The errand for one of the values. -/
def errand (x : Key × ByteArray) : Errand n :=
  ⟨v.terms, v.peer, v.replica, v.blockSize, x.1, x.2, v.held? x.1⟩

/-- What errands come to. -/
def results (values : List (Key × ByteArray)) : List ValueResult :=
  values.map fun x => (v.errand x).result

/-- What the visit is about. -/
def Scope : Fin n → Key → Prop := Cluster.corner v.replica (· ∈ v.values.map Prod.fst)

/-- The replica misses one of the values. -/
def Needed : Prop := ∃ x ∈ v.values, v.held? x.1 ≠ some x.2

/-- What follows upon an errand when those for `done` are over and those for `todo` are to come. -/
def after (done todo : List (Key × ByteArray)) (result : ValueResult) :
    Exchange (List ValueResult) :=
  .note result.note (reconcileOnto v.terms v.peer (result :: (v.results done).reverse) todo)

/-- Each of the errands can be done, and no two are about the same key. -/
structure Feasible : Prop where
  errands : ∀ x ∈ v.values, (v.errand x).Feasible
  distinct : (v.values.map Prod.fst).Nodup

/-- The replica serves the visit. -/
def Open (c : Cluster n) : Prop := ∀ x, (v.errand x).Open c

/-- These errands are over. -/
def Behind (c : Cluster n) (done : List (Key × ByteArray)) : Prop :=
  ∀ x ∈ done, (v.errand x).At c (v.errand x).left? []

/-- These errands have not begun. -/
def Ahead (c : Cluster n) (todo : List (Key × ByteArray)) : Prop :=
  ∀ x ∈ todo, (v.errand x).At c (v.held? x.1) []

/-- The visit rests, and has to rest at most so many times before it is over; or it is over. -/
inductive Leads (c : Cluster n) : Nat → Talk n (List ValueResult) → Prop
  | visiting {done todo : List (Key × ByteArray)} {x : Key × ByteArray} {stops : Nat}
    {talk : Talk n (List ValueResult)} (hvalues : v.values = done ++ x :: todo)
    (hbehind : v.Behind c done) (hahead : v.Ahead c todo)
    (hstage : (v.errand x).Stage (v.after done todo) c stops talk) :
    Leads c (stops + 3 * todo.length) talk
  | finished (hbehind : v.Behind c v.values) : Leads c 0 (.finished (v.results v.values))

/-- A visit that may not have begun yet. -/
inductive Poised (c : Cluster n) : Nat → Talk n (List ValueResult) → Prop
  | fresh (hahead : v.Ahead c v.values) : Poised c (3 * v.values.length + 1)
      (.ofExchange (reconcileReplica v.terms v.peer v.values))
  | leads {stops : Nat} {talk : Talk n (List ValueResult)} (h : v.Leads c stops talk) :
    Poised c stops talk

variable {v} {c c' : Cluster n} {i : Fin n} {T : Fin n → Key → Prop} {D : Prop}

/-! ### What leaves a visit where it is -/

/-- A visit is open as long as its replica can be reached. -/
theorem Open.changes (h : v.Open c) (hchanges : c.Changes T D c') : v.Open c' :=
  fun x => (h x).changes hchanges

/-- Values that were brought stay where they are. -/
theorem Behind.changes {done : List (Key × ByteArray)} (h : v.Behind c done)
    (hchanges : c.Changes T D c') (hT : ∀ x ∈ done, ¬T v.replica x.1) : v.Behind c' done :=
  fun x hx => (h x hx).changes hchanges (hT x hx)

/-- What has been foreseen for the values to come is not disturbed. -/
theorem Ahead.changes {todo : List (Key × ByteArray)} (h : v.Ahead c todo)
    (hchanges : c.Changes T D c') (hT : ∀ x ∈ todo, ¬T v.replica x.1) : v.Ahead c' todo :=
  fun x hx => (h x hx).changes hchanges (hT x hx)

/-- A talk leads to its foreseen end whatever happens meanwhile at other keys. -/
theorem Leads.changes {stops : Nat} {talk : Talk n (List ValueResult)} (h : v.Leads c stops talk)
    (hchanges : c.Changes T D c') (hT : ∀ x ∈ v.values, ¬T v.replica x.1) :
    v.Leads c' stops talk := by
  cases h with
  | @visiting done todo x stops talk hvalues hbehind hahead hstage =>
    have hdone : ∀ y ∈ done, ¬T v.replica y.1 := fun y hy =>
      hT y (hvalues ▸ List.mem_append_left _ hy)
    have htodo : ∀ y ∈ todo, ¬T v.replica y.1 := fun y hy =>
      hT y (hvalues ▸ List.mem_append_right _ (List.mem_cons_of_mem _ hy))
    have hx : ¬T v.replica x.1 := hT x (hvalues ▸ List.mem_append_right _ List.mem_cons_self)
    exact .visiting hvalues (hbehind.changes hchanges hdone) (hahead.changes hchanges htodo)
      (hstage.changes hchanges hx)
  | finished hbehind => exact .finished (hbehind.changes hchanges hT)

/-- A talk that may have to wait for a computation leads there just the same. -/
theorem Poised.changes {stops : Nat} {talk : Talk n (List ValueResult)}
    (h : v.Poised c stops talk) (hchanges : c.Changes T D c')
    (hT : ∀ x ∈ v.values, ¬T v.replica x.1) : v.Poised c' stops talk := by
  cases h with
  | fresh hahead => exact .fresh (hahead.changes hchanges hT)
  | leads hleads => exact .leads (hleads.changes hchanges hT)

/-! ### Turns -/

theorem scope_of_mem {x : Key × ByteArray} (hx : x ∈ v.values) (q : Fin n) (k : Key) :
    Cluster.corner (v.errand x).replica (· = (v.errand x).key) q k → v.Scope q k := by
  rintro ⟨hq, hk⟩
  exact ⟨hq, hk ▸ List.mem_map_of_mem hx⟩

/-- The errands around one are about other keys, since the values of a location are stored under
different ones. -/
theorem Feasible.apart (hfeasible : v.Feasible) {done todo : List (Key × ByteArray)}
    {x : Key × ByteArray} (hvalues : v.values = done ++ x :: todo) :
    (∀ y ∈ done, y.1 ≠ x.1) ∧ ∀ y ∈ todo, y.1 ≠ x.1 := by
  have hdistinct := hfeasible.distinct
  rw [hvalues, List.map_append, List.map_cons, List.nodup_append] at hdistinct
  obtain ⟨-, hnodup, hdone⟩ := hdistinct
  constructor
  · exact fun y hy => hdone y.1 (List.mem_map_of_mem hy) x.1 List.mem_cons_self
  · intro y hy heq
    exact (List.nodup_cons.mp hnodup).1 (heq ▸ List.mem_map_of_mem hy)

theorem behind_snoc {done : List (Key × ByteArray)} {x : Key × ByteArray}
    (hbehind : v.Behind c done) (hat : (v.errand x).At c (v.errand x).left? []) :
    v.Behind c (done ++ [x]) := by
  intro y hy
  rcases List.mem_append.mp hy with hy | hy
  · exact hbehind y hy
  · rw [List.mem_singleton.mp hy]
    exact hat

/-- What a turn makes of a visit. -/
structure Led (v : Visit n) (D : Prop) (c : Cluster n) (bound : Nat)
    (ended : Talk n (List ValueResult) × Cluster n) : Prop where
  moves : c.Moves v.Scope D ended.2
  leads : ∃ stops, v.Leads ended.2 stops ended.1 ∧ stops ≤ bound

theorem Led.after {bound : Nat} {ended : Talk n (List ValueResult) × Cluster n}
    (hmoves : c.Moves v.Scope D c') (h : v.Led D c' bound ended) : v.Led D c bound ended :=
  ⟨hmoves.trans h.moves, h.leads⟩

/-- A talk that ends within a bound of turns ends within a larger one. -/
theorem Led.mono {bound bound' : Nat} {ended : Talk n (List ValueResult) × Cluster n}
    (h : v.Led D c bound ended) (hle : bound ≤ bound') : v.Led D c bound' ended := by
  obtain ⟨stops, hleads, hstops⟩ := h.leads
  exact ⟨h.moves, stops, hleads, Nat.le_trans hstops hle⟩

theorem results_snoc (done : List (Key × ByteArray)) (x : Key × ByteArray) :
    (v.results (done ++ [x])).reverse = (v.errand x).result :: (v.results done).reverse := by
  rw [results, List.map_append, List.reverse_append]
  rfl

/-- What an errand keeps of the others of its visit. -/
theorem others_kept (hfeasible : v.Feasible) {done todo : List (Key × ByteArray)}
    {x : Key × ByteArray} (hvalues : v.values = done ++ x :: todo) (hbehind : v.Behind c done)
    (hahead : v.Ahead c todo)
    (hmoves : c.Moves (Cluster.corner (v.errand x).replica (· = (v.errand x).key)) D c') :
    v.Behind c' done ∧ v.Ahead c' todo := by
  obtain ⟨hdone, htodo⟩ := hfeasible.apart hvalues
  exact ⟨hbehind.changes hmoves.toChanges fun y hy hcorner => hdone y hy hcorner.2,
    hahead.changes hmoves.toChanges fun y hy hcorner => htodo y hy hcorner.2⟩

/-- A turn of an errand is one of its visit, if those ahead can be begun once it is over. -/
theorem led_of_turned (hfeasible : v.Feasible) (hopen : v.Open c)
    {done todo : List (Key × ByteArray)} {x : Key × ByteArray}
    (hvalues : v.values = done ++ x :: todo) (hbehind : v.Behind c done) (hahead : v.Ahead c todo)
    (honward : ∀ c', v.Open c' → v.Behind c' (done ++ [x]) → v.Ahead c' todo →
      v.Led D c' (3 * todo.length)
        (c'.converse i (reconcileOnto v.terms v.peer (v.results (done ++ [x])).reverse todo)))
    {before : Nat} (hpos : 0 < before) {ended : Talk n (List ValueResult) × Cluster n}
    (hturned : (v.errand x).Turned (v.after done todo) i D c before ended) :
    ∃ bound < before + 3 * todo.length, v.Led D c bound ended := by
  have hx : x ∈ v.values := hvalues ▸ List.mem_append_right _ List.mem_cons_self
  cases hturned with
  | @finished c' hmoves hat =>
    -- the result is noted, and the next errand begins in the same turn
    have hmoves' := hmoves.trans (c'.moves_jot i (v.errand x).result.note)
    have hscope : c.Moves v.Scope D _ := hmoves'.mono (scope_of_mem hx) id
    obtain ⟨hbehind', hahead'⟩ := others_kept hfeasible hvalues hbehind hahead hmoves'
    have hnext := honward _ (hopen.changes hscope.toChanges) (behind_snoc hbehind' (hat.jot _))
      hahead'
    rw [results_snoc] at hnext
    exact ⟨3 * todo.length, by omega, hnext.after hscope⟩
  | @rests talk c' stops hmoves hlt hstage =>
    obtain ⟨hbehind', hahead'⟩ := others_kept hfeasible hvalues hbehind hahead hmoves
    exact ⟨stops + 3 * todo.length, by omega, hmoves.mono (scope_of_mem hx) id, _,
      .visiting hvalues hbehind' hahead' hstage, Nat.le_refl _⟩

/-- The errands ahead are begun, one after the other as long as none has to rest. By induction on
those ahead; what was brought before stays, because the keys are different. -/
theorem led_converse (hfeasible : v.Feasible) (hD : v.Needed → D)
    (todo done : List (Key × ByteArray)) (c : Cluster n) (hvalues : v.values = done ++ todo)
    (hopen : v.Open c) (hbehind : v.Behind c done) (hahead : v.Ahead c todo) :
    v.Led D c (3 * todo.length)
      (c.converse i (reconcileOnto v.terms v.peer (v.results done).reverse todo)) := by
  induction todo generalizing done c with
  | nil =>
    rw [List.append_nil] at hvalues
    subst hvalues
    rw [reconcileOnto, Cluster.converse, List.reverse_reverse]
    exact ⟨.refl _ _ c, 0, .finished hbehind, Nat.zero_le _⟩
  | cons x todo ih =>
    have hx : x ∈ v.values := hvalues ▸ List.mem_append_right _ List.mem_cons_self
    have hturned : (v.errand x).Turned (v.after done todo) i D c 4
        (c.converse i (reconcileOnto v.terms v.peer (v.results done).reverse (x :: todo))) :=
      Errand.turned_converse (hopen x) (hfeasible.errands x hx)
        (hahead x List.mem_cons_self) fun hne => hD ⟨x, hx, hne⟩
    have hsnoc : v.values = (done ++ [x]) ++ todo := by
      rw [hvalues, List.append_assoc]
      rfl
    obtain ⟨bound, hbound, hled⟩ := led_of_turned hfeasible hopen hvalues hbehind
      (fun y hy => hahead y (List.mem_cons_of_mem x hy)) (ih (done ++ [x]) · hsnoc)
      (by decide) hturned
    refine hled.mono ?_
    rw [List.length_cons]
    omega

/-- One of the errands gets another turn. If it is over by it, then those behind it are begun in the
same turn. -/
theorem led_resume_stage (hfeasible : v.Feasible) (hD : v.Needed → D) (hopen : v.Open c)
    {done todo : List (Key × ByteArray)} {x : Key × ByteArray}
    {stops : Nat} {talk : Talk n (List ValueResult)} (hvalues : v.values = done ++ x :: todo)
    (hbehind : v.Behind c done) (hahead : v.Ahead c todo)
    (hstage : (v.errand x).Stage (v.after done todo) c stops talk)
    (hpermits : ∀ wait, talk.wait? = some wait → c.permits wait = true) :
    ∃ bound < stops + 3 * todo.length, v.Led D c bound (c.resume i talk) := by
  have hx : x ∈ v.values := hvalues ▸ List.mem_append_right _ List.mem_cons_self
  have hturned := Errand.turned_resume (i := i) (hopen x) (hfeasible.errands x hx)
    (fun hne => hD ⟨x, hx, hne⟩) hstage hpermits
  have hsnoc : v.values = (done ++ [x]) ++ todo := by
    rw [hvalues, List.append_assoc]
    rfl
  exact led_of_turned hfeasible hopen hvalues hbehind hahead
    (led_converse hfeasible hD todo (done ++ [x]) · hsnoc) hstage.pos hturned

/-! ### Every turn -/

/-- A talk that still has to wait stays as it is. -/
theorem resume_of_not_permits {α : Type} {talk : Talk n α}
    (h : ∀ wait, talk.wait? = some wait → c.permits wait = false) :
    c.resume i talk = (talk, c) := by
  cases talk with
  | resting wait next => rw [Cluster.resume, if_neg (by simp [h wait rfl])]
  | asking d wait next => rw [Cluster.resume, if_neg (by simp [h wait rfl])]
  | silent => rfl
  | finished result => rfl

/-- A visit that is under way waits for a computation; otherwise it is over. -/
theorem Leads.wait? {stops : Nat} {talk : Talk n (List ValueResult)} (h : v.Leads c stops talk) :
    (∃ due, talk.wait? = some (.work due)) ∨
      talk = .finished (v.results v.values) ∧ v.Behind c v.values := by
  cases h with
  | visiting hvalues hbehind hahead hstage => exact .inl hstage.wait?
  | finished hbehind => exact .inr ⟨rfl, hbehind⟩

/-- In each turn a visit gets further if it can go on, and stays as it is if it cannot. -/
theorem led_resume (hfeasible : v.Feasible) (hD : v.Needed → D) (hopen : v.Open c) {stops : Nat}
    {talk : Talk n (List ValueResult)} (h : v.Poised c stops talk) :
    ∃ bound ≤ stops, v.Led D c bound (c.resume i talk) ∧
      ((∃ wait ∈ talk.wait?, c.permits wait = true) → bound < stops) := by
  suffices hgoes : (∀ wait, talk.wait? = some wait → c.permits wait = false) ∧
      v.Leads c stops talk ∨ ∃ bound < stops, v.Led D c bound (c.resume i talk) by
    rcases hgoes with ⟨hwaits, hleads⟩ | ⟨bound, hlt, hled⟩
    · rw [resume_of_not_permits hwaits]
      refine ⟨stops, Nat.le_refl _, ⟨.refl _ _ c, stops, hleads, Nat.le_refl _⟩, ?_⟩
      rintro ⟨wait, hwait, hpermits⟩
      rw [hwaits wait hwait] at hpermits
      cases hpermits
    · exact ⟨bound, Nat.le_of_lt hlt, hled, fun _ => hlt⟩
  cases h with
  | fresh hahead =>
    have hled := led_converse (i := i) hfeasible hD v.values [] c rfl hopen
      (fun _ h => nomatch h) hahead
    exact .inr ⟨3 * v.values.length, Nat.lt_succ_self _, hled⟩
  | leads hleads =>
    cases hleads with
    | @visiting done todo x stops talk hvalues hbehind hahead hstage =>
      obtain ⟨due, hwait⟩ := hstage.wait?
      cases hpermits : c.permits (.work due) with
      | false =>
        refine .inl ⟨fun wait hwait' => ?_, .visiting hvalues hbehind hahead hstage⟩
        rw [← Option.some.inj (hwait.symm.trans hwait'), hpermits]
      | true =>
        refine .inr (led_resume_stage hfeasible hD hopen hvalues hbehind hahead hstage ?_)
        intro wait hwait'
        rw [← Option.some.inj (hwait.symm.trans hwait'), hpermits]
    | finished hbehind => exact .inl ⟨fun _ h => (nomatch h), .finished hbehind⟩

end Visit

end DeltaMesh
