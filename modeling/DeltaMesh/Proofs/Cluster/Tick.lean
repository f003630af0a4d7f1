import DeltaMesh.Proofs.Cluster.Reconciliation
import DeltaMesh.Proofs.Schedule.Await
import Mathlib.Data.List.Nodup

/-!
# Ticks, turn by turn

An `Agenda` is what a node does in a tick: one tour for each location. The tours are waiting to be
let in, in line for a turn, blocked, or over (`Agenda.Stands`), and none disturbs another, since
they are about different locations. A turn of the tick gives turns to those in line until there
are none; when it takes up a blocked tour that can go on, fewer stops are to come afterwards
(`Agenda.Stands.run`). So a tick that is waited for comes to an end (`Agenda.ends`).
-/

namespace DeltaMesh

variable {n : Nat}

/-! ### Rows -/

namespace Row

variable {α β : Type} {Is : α → Nat → β → Prop} {as as' : List α} {stops stops' : Nat}
  {bs bs' : List β}

theorem append (h : Row Is as stops bs) (h' : Row Is as' stops' bs') :
    Row Is (as ++ as') (stops + stops') (bs ++ bs') := by
  induction h with
  | nil =>
    rw [Nat.zero_add]
    exact h'
  | cons head _ ih =>
    rw [Nat.add_assoc]
    exact .cons head ih

theorem eq_nil (h : Row Is as stops []) : as = [] ∧ stops = 0 := by
  cases h with
  | nil => exact ⟨rfl, rfl⟩

theorem singleton {a : α} {b : β} (h : Is a stops b) : Row Is [a] stops [b] := .cons h .nil

/-- A row whose members each need some number of turns needs their sum. -/
theorem of_map {f : α → Nat} {g : α → β} (h : ∀ a ∈ as, Is a (f a) (g a)) :
    Row Is as (as.map f).sum (as.map g) := by
  induction as with
  | nil => exact .nil
  | cons a as ih =>
    rw [List.map_cons, List.sum_cons]
    exact .cons (h a List.mem_cons_self) (ih fun b hb => h b (List.mem_cons_of_mem _ hb))

/-- A row is divided in two by a property of its members, and its stops are divided with it. -/
theorem partition (h : Row Is as stops bs) (p : β → Bool) :
    ∃ yes no yesStops noStops, (yes ++ no).Perm as ∧ yesStops + noStops = stops ∧
      Row Is yes yesStops (bs.filter p) ∧ Row Is no noStops (bs.filter fun b => !p b) := by
  induction h with
  | nil => exact ⟨[], [], 0, 0, .refl _, rfl, .nil, .nil⟩
  | @cons a as stops rest b bs head _ ih =>
    obtain ⟨yes, no, yesStops, noStops, hperm, hstops, hyes, hno⟩ := ih
    cases hb : p b with
    | true =>
      refine ⟨a :: yes, no, stops + yesStops, noStops, hperm.cons a, by omega, ?_, ?_⟩
      · rw [List.filter_cons_of_pos hb]
        exact .cons head hyes
      · rw [List.filter_cons_of_neg (by simp [hb])]
        exact hno
    | false =>
      refine ⟨yes, a :: no, yesStops, stops + noStops, List.perm_middle.trans (hperm.cons a),
        by omega, ?_, ?_⟩
      · rw [List.filter_cons_of_neg (by simp [hb])]
        exact hyes
      · rw [List.filter_cons_of_pos (by simp [hb])]
        exact .cons head hno

end Row

/-! ### Tours beside each other -/

namespace Tour

variable (t : Tour n) (i : Fin n)

/-- A tour of node `i` that has not begun. -/
structure Waits (c : Cluster n) : Prop where
  ahead : t.Ahead c
  free : t.location ∉ (c.reconciler i).inFlight

/-- A tour of node `i` that is under way. -/
structure Rests (c : Cluster n) (stops : Nat) (r : Reconciliation n) : Prop where
  underWay : t.UnderWay c stops r
  claimed : t.location ∈ (c.reconciler i).inFlight

/-- A tour of node `i` that is over. -/
structure Ended (c : Cluster n) : Prop where
  behind : t.Behind c
  free : t.location ∉ (c.reconciler i).inFlight

/-- The stops of a tour, and its beginning. -/
def cost : Nat := t.weight + 1

/-- A tour of node `i` whose turn will come. -/
inductive Lined (c : Cluster n) : Nat → Reconciliation n → Prop
  | planned (h : t.Waits i c) : Lined c t.cost (.planned t.location)
  | resting {stops : Nat} {r : Reconciliation n} (h : t.Rests i c stops r) : Lined c stops r

/-- What happens does not concern this tour of node `i`. -/
structure Spares (c c' : Cluster n) : Prop where
  changes : ∃ (T : Fin n → Key → Prop) (D : Prop), c.Changes T D c' ∧ ∀ q k, t.Scope q k → ¬T q k
  inFlight : t.location ∈ (c'.reconciler i).inFlight ↔ t.location ∈ (c.reconciler i).inFlight

variable {t i} {c c' : Cluster n} {D : Prop} {stops bound : Nat} {r : Reconciliation n}

/-- A location that waits is not touched by the turns of others: their shelves are apart from its
own. -/
theorem Waits.spared (h : t.Waits i c) (hspares : t.Spares i c c') : t.Waits i c' := by
  obtain ⟨T, D, hchanges, hT⟩ := hspares.changes
  exact ⟨h.ahead.changes hchanges hT, fun hmem => h.free (hspares.inFlight.mp hmem)⟩

/-- A location that rests between its turns is not touched by the turns of others. -/
theorem Rests.spared (h : t.Rests i c stops r) (hspares : t.Spares i c c') :
    t.Rests i c' stops r := by
  obtain ⟨T, D, hchanges, hT⟩ := hspares.changes
  exact ⟨h.underWay.changes hchanges hT, hspares.inFlight.mpr h.claimed⟩

/-- A location that has ended is not touched by the turns of others. -/
theorem Ended.spared (h : t.Ended i c) (hspares : t.Spares i c c') : t.Ended i c' := by
  obtain ⟨T, D, hchanges, hT⟩ := hspares.changes
  exact ⟨h.behind.changes hchanges hT, fun hmem => h.free (hspares.inFlight.mp hmem)⟩

theorem Lined.spared (h : t.Lined i c stops r) (hspares : t.Spares i c c') :
    t.Lined i c' stops r := by
  cases h with
  | planned hwaits => exact .planned (hwaits.spared hspares)
  | resting hrests => exact .resting (hrests.spared hspares)

/-- A tour that is under way waits for a computation. -/
theorem UnderWay.work (h : t.UnderWay c stops r) : ∃ due, .work due ∈ r.waits := by
  cases h with
  | talking _ hrests => exact hrests

/-- A tour in line gets its turn, whether it has just been let in or has rested before. -/
theorem turned_lined (hfeasible : t.Feasible) (hD : t.Needed → D) (hopen : t.Open c)
    (hfits : t.Fits i c) (h : t.Lined i c stops r) :
    ∃ bound ≤ stops, t.Turned i D c bound (r.turn i c) ∧
      (Tick.canGoOn c r = true → bound < stops) := by
  cases h with
  | planned hwaits =>
    have hturned := turned_planned hfeasible hD hopen hfits hwaits.free hwaits.ahead
    exact ⟨t.weight, Nat.le_succ _, hturned, fun _ => Nat.lt_succ_self _⟩
  | resting hrests => exact turned_underWay hfeasible hD hopen hrests.claimed hrests.underWay

/-- Whatever comes of a tour in its turn, only its own keys and its own claim are concerned. -/
theorem effects_of_turned {ended : Progress (Reconciliation n) LocationReport × Cluster n}
    (h : t.Turned i D c bound ended) :
    c.Changes t.Scope D ended.2 ∧
      (∀ location ∈ (ended.2.reconciler i).inFlight,
        location ∈ (c.reconciler i).inFlight ∨ location = t.location) ∧
      ∀ j, j ≠ i → (ended.2.reconciler j).inFlight = (c.reconciler j).inFlight := by
  cases h with
  | reported hchanges _ hinFlight hothers =>
    exact ⟨hchanges, fun location hmem => .inl ((hinFlight location).mp hmem).1, hothers⟩
  | rests hchanges _ _ hinFlight hothers =>
    exact ⟨hchanges, fun location hmem => (hinFlight location).mp hmem, hothers⟩

/-- The turn of one tour does not concern another one about another location. -/
theorem spares_of_turned {other : Tour n}
    {ended : Progress (Reconciliation n) LocationReport × Cluster n}
    (h : t.Turned i D c bound ended) (hne : other.location ≠ t.location)
    (hscope : ∀ q k, other.Scope q k → ¬t.Scope q k) : other.Spares i c ended.2 := by
  cases h with
  | reported hchanges _ hinFlight _ =>
    exact ⟨⟨_, _, hchanges, hscope⟩, (hinFlight _).trans (and_iff_left hne)⟩
  | rests hchanges _ _ hinFlight _ =>
    exact ⟨⟨_, _, hchanges, hscope⟩, (hinFlight _).trans (or_iff_left hne)⟩

end Tour

/-! ### The tours of a tick -/

namespace Tick

variable {i : Fin n} {t : Tick n} {c : Cluster n}

/-- If none can have a turn, none waits to be let in or there is no room. -/
theorem full_of_nil (h : t.letIn.ready = []) :
    t.letIn.waiting = [] ∨ t.window ≤ t.blocked.length := by
  obtain ⟨hready, htaken⟩ := List.append_eq_nil_iff.mp h
  rw [List.map_eq_nil_iff, List.take_eq_nil_iff, hready, List.length_nil] at htaken
  rcases htaken with hroom | hnone
  · exact .inr (by omega)
  · rw [letIn, hnone]
    exact .inl List.drop_nil

/-- If none is ready the run of a turn stops. -/
theorem run_of_nil (h : t.letIn.ready = []) : t.run i c = (t.letIn, c) := by
  rw [run]
  split
  · rfl
  · simp_all

/-- If a location is ready the first one in line has its turn, and the run goes on with the rest. -/
theorem run_of_cons {r : Reconciliation n} {line : List (Reconciliation n)}
    (h : t.letIn.ready = r :: line) :
    t.run i c = ({ t.letIn with ready := line }.settle (r.turn i c).1).run i (r.turn i c).2 := by
  rw [run]
  split
  · simp_all
  · next r' line' h' =>
    obtain ⟨rfl, rfl⟩ := List.cons.inj (h'.symm.trans h)
    rfl

end Tick

/-- What a node does in a tick. -/
structure Agenda (n : Nat) where
  node : Fin n
  tours : List (Tour n)

/-- Tours by what has become of them. -/
structure Places (n : Nat) where
  waiting : List (Tour n)
  ready : List (Tour n)
  blocked : List (Tour n)
  done : List (Tour n)

namespace Places

variable (p : Places n)

def all : List (Tour n) := p.waiting ++ p.ready ++ p.blocked ++ p.done

/-- What is to come of the tours that are not let in. -/
def cost : Nat := (p.waiting.map Tour.cost).sum

end Places

namespace Agenda

variable (a : Agenda n)

/-- What the tick is about. -/
def Scope (q : Fin n) (k : Key) : Prop := ∃ t ∈ a.tours, t.Scope q k

/-- Some replica misses some value. -/
def Needed : Prop := ∃ t ∈ a.tours, t.Needed

/-- Each of the tours can be made, and each is about a location of its own and about other nodes. -/
structure Feasible : Prop where
  tours : ∀ t ∈ a.tours, t.Feasible
  under : ∀ t ∈ a.tours, ∀ q k, t.Scope q k → k.location = t.location
  away : ∀ t ∈ a.tours, ∀ q k, t.Scope q k → q ≠ a.node
  distinct : (a.tours.map Tour.location).Nodup

/-- The tours are what the node finds to do, and the replicas serve them. -/
structure Suits (c : Cluster n) : Prop where
  opens : ∀ t ∈ a.tours, t.Open c
  fits : ∀ t ∈ a.tours, t.Fits a.node c

/-- Where the tours of a tick are since it has begun in `c₀`; those in line have so many stops to
come, and so have the blocked ones. -/
structure Stands (c₀ : Cluster n) (p : Places n) (ready blocked : Nat) (t : Tick n)
    (c : Cluster n) : Prop where
  all : p.all.Perm a.tours
  waiting : t.waiting = p.waiting.map Tour.location
  ready : Row (·.Lined a.node c) p.ready ready t.ready
  blocked : Row (·.Rests a.node c) p.blocked blocked t.blocked
  reports : t.reports = p.done.map Tour.report
  waits : ∀ x ∈ p.waiting, x.Waits a.node c
  ended : ∀ x ∈ p.done, x.Ended a.node c
  changes : c₀.Changes a.Scope a.Needed c
  own : ∀ location ∈ (c.reconciler a.node).inFlight, ∃ x ∈ a.tours, x.location = location
  others : ∀ j, j ≠ a.node → (c.reconciler j).inFlight = (c₀.reconciler j).inFlight
  window : 0 < t.window
  factor : t.factor = (c₀.reconciler a.node).factor

/-- No tour is in line and none can be let in; at most so many stops are to come. -/
def Rested (c₀ : Cluster n) (m : Nat) (t : Tick n) (c : Cluster n) : Prop :=
  ∃ p blocked, a.Stands c₀ p 0 blocked t c ∧ t.ready = [] ∧
    (t.waiting = [] ∨ t.window ≤ t.blocked.length) ∧ p.cost + blocked = m

/-- What a tick has come to that began in `c₀`. -/
structure Finished (c₀ : Cluster n) (report : TickReport) (c : Cluster n) : Prop where
  factor : report.factor = (c₀.reconciler a.node).factor
  locations : report.locations.Perm (a.tours.map Tour.report)
  behind : ∀ t ∈ a.tours, t.Behind c
  changes : c₀.Changes a.Scope a.Needed c
  free : (c.reconciler a.node).inFlight = ∅
  others : ∀ j, j ≠ a.node → (c.reconciler j).inFlight = (c₀.reconciler j).inFlight

variable {a} {c₀ c c' : Cluster n} {t : Tick n} {p : Places n} {ready blocked : Nat}

/-- A plan that suits a cluster suits it after changes within its scope; there is nothing else to go
on. -/
theorem Suits.changes (h : a.Suits c₀) (hfeasible : a.Feasible)
    (hchanges : c₀.Changes a.Scope a.Needed c) : a.Suits c where
  opens x hx := (h.opens x hx).changes hchanges
  fits x hx := (h.fits x hx).changes hchanges fun _ ⟨y, hy, hk⟩ => hfeasible.away y hy _ _ hk rfl

/-- Tours about different locations have nothing in common. -/
theorem Feasible.disjoint (h : a.Feasible) {x y : Tour n} (hx : x ∈ a.tours) (hy : y ∈ a.tours)
    (hne : y.location ≠ x.location) (q : Fin n) (k : Key) : y.Scope q k → ¬x.Scope q k :=
  fun hyk hxk => hne ((h.under y hy q k hyk).symm.trans (h.under x hx q k hxk))

/-- What leaves every tour alone leaves the tick where it is. -/
theorem Stands.moves (h : a.Stands c₀ p ready blocked t c)
    (hmoves : c.Moves (fun _ _ => False) a.Needed c') : a.Stands c₀ p ready blocked t c' := by
  have hspares : ∀ x : Tour n, x.Spares a.node c c' := fun x =>
    ⟨⟨_, _, hmoves.toChanges, fun _ _ _ => id⟩, by rw [hmoves.inFlight]⟩
  exact { h with
    ready := h.ready.imp fun x _ _ _ hx => hx.spared (hspares x)
    blocked := h.blocked.imp fun x _ _ _ hx => hx.spared (hspares x)
    waits := fun x hx => (h.waits x hx).spared (hspares x)
    ended := fun x hx => (h.ended x hx).spared (hspares x)
    changes := h.changes.trans (hmoves.toChanges.mono (fun _ _ => False.elim) id)
    own := by rw [hmoves.inFlight]; exact h.own
    others := fun j hj => (hmoves.inFlight j).trans (h.others j hj) }

/-- Tours are let in as long as there is room. That is no work in itself: it only moves the cost of
a tour from those that wait to those that are ready. -/
theorem Stands.letIn (h : a.Stands c₀ p ready blocked t c) :
    ∃ p' ready', a.Stands c₀ p' ready' blocked t.letIn c ∧
      p'.cost + ready' = p.cost + ready := by
  let room := t.window - (t.ready.length + t.blocked.length)
  have htaken : Row (·.Lined a.node c) (p.waiting.take room)
      ((p.waiting.take room).map Tour.cost).sum
      ((p.waiting.take room).map fun x => .planned x.location) :=
    .of_map fun x hx => .planned (h.waits x (List.mem_of_mem_take hx))
  have hready : t.letIn.ready =
      t.ready ++ (p.waiting.take room).map fun x => .planned x.location := by
    rw [Tick.letIn, h.waiting, ← List.map_take, List.map_map]
    rfl
  refine ⟨{ p with
    waiting := p.waiting.drop room
    ready := p.ready ++ p.waiting.take room },
    ready + ((p.waiting.take room).map Tour.cost).sum, { h with
      all := ?_
      waiting := ?_
      ready := hready ▸ h.ready.append htaken
      waits := fun x hx => h.waits x (List.mem_of_mem_drop hx) }, ?_⟩
  · refine List.Perm.trans ?_ h.all
    have hperm : (p.waiting.drop room ++ (p.ready ++ p.waiting.take room)).Perm
        (p.waiting ++ p.ready) := by
      rw [← List.append_assoc]
      exact List.perm_append_comm.trans
        ((List.append_assoc ..).symm ▸ (List.take_append_drop room p.waiting).symm ▸ .refl _)
    exact (hperm.append_right p.blocked).append_right p.done
  · rw [Tick.letIn, h.waiting, List.map_drop]
  · have hsum : ((p.waiting.take room).map Tour.cost).sum +
        ((p.waiting.drop room).map Tour.cost).sum = p.cost := by
      rw [← List.sum_append, ← List.map_append, List.take_append_drop]
      rfl
    simp only [Places.cost] at hsum ⊢
    omega

/-- Tours in different places are about different locations, as the plan lists each location once.
-/
theorem Stands.apart (hfeasible : a.Feasible) {x : Tour n} {line : List (Tour n)}
    (h : a.Stands c₀ p ready blocked t c) (hready : p.ready = x :: line) :
    x ∈ a.tours ∧ ∀ y ∈ p.waiting ++ line ++ p.blocked ++ p.done,
      y ∈ a.tours ∧ y.location ≠ x.location := by
  have hperm : (x :: (p.waiting ++ line ++ p.blocked ++ p.done)).Perm a.tours := by
    refine List.Perm.trans ?_ h.all
    rw [Places.all, hready]
    simp only [List.append_assoc, List.cons_append]
    exact List.perm_middle.symm
  have hdistinct := (hperm.map Tour.location).nodup_iff.mpr hfeasible.distinct
  rw [List.map_cons, List.nodup_cons] at hdistinct
  refine ⟨hperm.subset List.mem_cons_self, fun y hy =>
    ⟨hperm.subset (List.mem_cons_of_mem x hy), fun heq => hdistinct.1 ?_⟩⟩
  exact heq ▸ List.mem_map_of_mem hy

/-- The tour at the head of the line has had its turn, which concerned no other one. -/
theorem Stands.settle (h : a.Stands c₀ p ready blocked t c) {x : Tour n} {xs : List (Tour n)}
    (hpready : p.ready = x :: xs) (hx : x ∈ a.tours) {line : List (Reconciliation n)}
    {rest bound : Nat} (htail : Row (·.Lined a.node c) xs rest line)
    {ended : Progress (Reconciliation n) LocationReport × Cluster n}
    (hturned : x.Turned a.node a.Needed c bound ended)
    (hspares : ∀ y ∈ p.waiting ++ xs ++ p.blocked ++ p.done, y.Spares a.node c ended.2) :
    ∃ p' blocked', a.Stands c₀ p' rest blocked' ({ t with ready := line }.settle ended.1) ended.2 ∧
      p'.cost = p.cost ∧ blocked' ≤ blocked + bound := by
  have hall := h.all
  rw [Places.all, hpready, List.append_assoc, List.append_assoc, List.cons_append] at hall
  have hothers : ((p.waiting ++ xs ++ p.blocked) ++ x :: p.done).Perm a.tours := by
    refine List.perm_middle.trans (List.Perm.trans ?_ hall)
    simp only [List.append_assoc]
    exact List.perm_middle.symm
  have hready' := htail.imp fun y hy _ _ hlined => hlined.spared (hspares y (by simp [hy]))
  have hblocked' := h.blocked.imp fun y hy _ _ hrests => hrests.spared (hspares y (by simp [hy]))
  have hwaits' := fun y hy => (h.waits y hy).spared (hspares y (by simp [hy]))
  have hended' := fun y hy => (h.ended y hy).spared (hspares y (by simp [hy]))
  obtain ⟨hchanges, hown, hkept⟩ := Tour.effects_of_turned hturned
  have hchanges' : c₀.Changes a.Scope a.Needed ended.2 :=
    h.changes.trans (hchanges.mono (fun q k hk => ⟨x, hx, hk⟩) id)
  have hown' : ∀ location ∈ (ended.2.reconciler a.node).inFlight,
      ∃ y ∈ a.tours, y.location = location := fun location hmem =>
    (hown location hmem).elim (h.own location) fun heq => ⟨x, hx, heq.symm⟩
  have hkept' := fun j hj => (hkept j hj).trans (h.others j hj)
  cases hturned with
  | @reported c' _ hbehind hinFlight _ =>
    -- it joins those that are over
    have hx' : x.Ended a.node c' := ⟨hbehind, fun hmem => ((hinFlight _).mp hmem).2 rfl⟩
    refine ⟨{ p with ready := xs, done := x :: p.done }, blocked, ?_, rfl, Nat.le_add_right _ _⟩
    exact {
      all := hothers
      waiting := h.waiting
      ready := hready'
      blocked := hblocked'
      reports := congrArg (x.report :: ·) h.reports
      waits := hwaits'
      ended := List.forall_mem_cons.mpr ⟨hx', hended'⟩
      changes := hchanges'
      own := hown'
      others := hkept'
      window := h.window
      factor := h.factor }
  | @rests r c' stops _ hunder hle hinFlight _ =>
    -- it joins the blocked ones
    have hx' : x.Rests a.node c' stops r := ⟨hunder, (hinFlight _).mpr (.inr rfl)⟩
    refine ⟨{ p with ready := xs, blocked := p.blocked ++ [x] }, blocked + stops, ?_, rfl,
      Nat.add_le_add_left hle _⟩
    exact {
      all := by simpa [Places.all] using hothers
      waiting := h.waiting
      ready := hready'
      blocked := hblocked'.append (.singleton hx')
      reports := h.reports
      waits := hwaits'
      ended := hended'
      changes := hchanges'
      own := hown'
      others := hkept'
      window := h.window
      factor := h.factor }

/-- The tour at the head of the line gets its turn, after which it is over, or blocked by a
computation with fewer stops ahead of it. -/
theorem Stands.turn (hfeasible : a.Feasible) (hsuits : a.Suits c₀)
    (h : a.Stands c₀ p ready blocked t c) {r : Reconciliation n} {line : List (Reconciliation n)}
    (hline : t.ready = r :: line) :
    ∃ p' ready' blocked', a.Stands c₀ p' ready' blocked'
        ({ t with ready := line }.settle (r.turn a.node c).1) (r.turn a.node c).2 ∧
      p'.cost + ready' + blocked' ≤ p.cost + ready + blocked ∧
      (Tick.canGoOn c r = true → p'.cost + ready' + blocked' < p.cost + ready + blocked) := by
  have hrow := h.ready
  rw [hline] at hrow
  generalize hpready : p.ready = places at hrow
  cases hrow with
  | @cons x xs stops rest _ _ head tail =>
    obtain ⟨hx, hapart⟩ := h.apart hfeasible hpready
    have hsuits' : a.Suits c := hsuits.changes hfeasible h.changes
    obtain ⟨bound, hle, hturned, hlt⟩ := Tour.turned_lined (hfeasible.tours x hx)
      (fun hneeded => (⟨x, hx, hneeded⟩ : a.Needed)) (hsuits'.opens x hx) (hsuits'.fits x hx) head
    have hspares : ∀ y ∈ p.waiting ++ xs ++ p.blocked ++ p.done,
        y.Spares a.node c (r.turn a.node c).2 := fun y hy =>
      Tour.spares_of_turned hturned (hapart y hy).2
        (hfeasible.disjoint hx (hapart y hy).1 (hapart y hy).2)
    obtain ⟨p', blocked', hstands, hcost, hblocked⟩ := h.settle hpready hx tail hturned hspares
    exact ⟨p', rest, blocked', hstands, by omega, fun hgoes => by have := hlt hgoes; omega⟩

/-- When none is in line after letting tours in, all are let in or as many as may be. -/
theorem Stands.rested (h : a.Stands c₀ p ready blocked t c) (hnil : t.letIn.ready = []) :
    a.Rested c₀ (p.cost + ready + blocked) t.letIn c := by
  obtain ⟨p', ready', hstands, hcost⟩ := h.letIn
  obtain ⟨-, rfl⟩ := Row.eq_nil (hnil ▸ hstands.ready)
  exact ⟨p', blocked, hstands, hnil, Tick.full_of_nil hnil, by omega⟩

/-- Tours get turns until none is in line. The cost that is left never grows, and it decreases if
any tour in line can go on. -/
theorem Stands.run (hfeasible : a.Feasible) (hsuits : a.Suits c₀) (t : Tick n) (c : Cluster n) :
    ∀ {p ready blocked}, a.Stands c₀ p ready blocked t c →
      ∃ m, a.Rested c₀ m (t.run a.node c).1 (t.run a.node c).2 ∧ m ≤ p.cost + ready + blocked ∧
        ((∃ r ∈ t.ready.head?, Tick.canGoOn c r = true) → m < p.cost + ready + blocked) := by
  induction t, c using Tick.run.induct a.node with
  | case1 t c hnil =>
    intro p ready blocked h
    rw [Tick.run_of_nil hnil]
    refine ⟨_, h.rested hnil, Nat.le_refl _, fun ⟨r, hr, _⟩ => ?_⟩
    rw [(List.append_eq_nil_iff.mp hnil).1] at hr
    cases hr
  | case2 t c r line hline hlt progress c' hturn ih =>
    intro p ready blocked h
    obtain ⟨p₁, ready₁, hstands₁, hcost₁⟩ := h.letIn
    obtain ⟨p₂, ready₂, blocked₂, hstands₂, hle₂, hlt₂⟩ := hstands₁.turn hfeasible hsuits hline
    rw [hturn] at hstands₂
    obtain ⟨m, hrested, hle, -⟩ := ih hstands₂
    rw [Tick.run_of_cons hline, hturn]
    refine ⟨m, hrested, by omega, fun ⟨r', hr', hgoes⟩ => ?_⟩
    -- the head of the line stays there when tours are let in
    have hhead : t.letIn.ready.head? = some r' := by
      rw [Tick.letIn, List.head?_append, Option.mem_def.mp hr']
      rfl
    rw [hline] at hhead
    have := hlt₂ (Option.some.inj hhead ▸ hgoes)
    omega

/-! ### Turns of a tick -/

/-- The blocked tours that can go on line up behind those that are in line already. -/
theorem Stands.wake (h : a.Stands c₀ p ready blocked t c) :
    ∃ p' ready' blocked', a.Stands c₀ p' ready' blocked' { t with
        ready := t.ready ++ t.blocked.filter (Tick.canGoOn c)
        blocked := t.blocked.filter fun r => !Tick.canGoOn c r } c ∧
      p'.cost = p.cost ∧ ready' + blocked' = ready + blocked := by
  obtain ⟨yes, no, yesStops, noStops, hperm, hstops, hyes, hno⟩ :=
    h.blocked.partition (Tick.canGoOn c)
  refine ⟨{ p with ready := p.ready ++ yes, blocked := no }, ready + yesStops, noStops, { h with
    all := ?_
    ready := h.ready.append (hyes.imp fun _ _ _ _ hrests => .resting hrests)
    blocked := hno }, rfl, by omega⟩
  refine List.Perm.trans ?_ h.all
  have hmid : (p.ready ++ yes ++ no).Perm (p.ready ++ p.blocked) := by
    rw [List.append_assoc]
    exact hperm.append_left p.ready
  simpa only [Places.all, List.append_assoc] using (hmid.append_left p.waiting).append_right p.done

/-- A tick whose tours are all over has brought everything that was on its agenda, and its reports
are those that were foreseen, in the order in which the tours came to their ends. -/
theorem Rested.finished {m : Nat} (h : a.Rested c₀ m t c) (hblocked : t.blocked = []) :
    a.Finished c₀ ⟨t.factor, t.reports.reverse⟩ c := by
  obtain ⟨p, blocked, hstands, hready, hfull, -⟩ := h
  have hwaiting : p.waiting = [] := by
    have hnone : t.waiting = [] := hfull.resolve_right fun hle => by
      rw [hblocked, List.length_nil] at hle
      exact Nat.not_lt.mpr hle hstands.window
    exact List.map_eq_nil_iff.mp (hstands.waiting.symm.trans hnone)
  obtain ⟨hnone, -⟩ := Row.eq_nil (hready ▸ hstands.ready)
  obtain ⟨hnone', -⟩ := Row.eq_nil (hblocked ▸ hstands.blocked)
  have hall : p.done.Perm a.tours := by
    have hperm := hstands.all
    rw [Places.all, hwaiting, hnone, hnone'] at hperm
    exact hperm
  have hended : ∀ x ∈ a.tours, x.Ended a.node c := fun x hx =>
    hstands.ended x (hall.mem_iff.mpr hx)
  exact {
    factor := hstands.factor
    locations := by
      rw [hstands.reports]
      exact (List.reverse_perm _).trans (hall.map Tour.report)
    behind := fun x hx => (hended x hx).behind
    changes := hstands.changes
    free := by
      refine Std.ExtTreeSet.ext_mem fun location => ⟨fun hmem => ?_, fun hmem => ?_⟩
      · obtain ⟨x, hx, rfl⟩ := hstands.own location hmem
        exact absurd hmem (hended x hx).free
      · exact absurd hmem Std.ExtTreeSet.not_mem_empty
    others := hstands.others }

/-- The tick is under way. -/
def Under (a : Agenda n) (c₀ : Cluster n) (m : Nat) (t : Tick n) (c : Cluster n) : Prop :=
  a.Rested c₀ m t c ∧ t.blocked ≠ []

/-- A turn of the tick; when it takes up a tour that can go on, fewer stops are to come. -/
theorem Stands.after_turn (hfeasible : a.Feasible) (hsuits : a.Suits c₀)
    (h : a.Stands c₀ p ready blocked t c) {m : Nat} (hle : p.cost + ready + blocked ≤ m)
    (hgoes : p.cost + ready + blocked < m ∨
      t.ready = [] ∧ ∃ r ∈ t.blocked, Tick.canGoOn c r = true) :
    Schedule.After (a.Under c₀) (a.Finished c₀) m (t.turn a.node c) := by
  obtain ⟨p', ready', blocked', hstands, hcost, hsum⟩ := h.wake
  obtain ⟨left, hrested, hleft, hfewer⟩ := hstands.run hfeasible hsuits
  -- if no stop is left out at the head of the line, a woken tour makes one
  have hlt : left < m := by
    rcases hgoes with hlt | ⟨hready, r, hr, hgoes⟩
    · omega
    · have hwoken : r ∈ t.blocked.filter (Tick.canGoOn c) := List.mem_filter.mpr ⟨hr, hgoes⟩
      obtain ⟨first, hfirst⟩ := Option.isSome_iff_exists.mp
        (List.isSome_head?.mpr (List.ne_nil_of_mem hwoken))
      have := hfewer ⟨first, by rw [hready]; exact hfirst,
        (List.mem_filter.mp (List.mem_of_head? hfirst)).2⟩
      omega
  rw [Tick.turn, List.partition_eq_filter_filter]
  dsimp only
  split
  case isTrue hempty => exact .finished (hrested.finished (List.isEmpty_iff.mp hempty))
  case isFalse hblocked =>
    exact .underWay hlt ⟨hrested, fun hnil => hblocked (List.isEmpty_iff.mpr hnil)⟩

/-- A tick that rests waits for what its blocked tours wait for. -/
theorem Rested.waits {m : Nat} (h : a.Rested c₀ m t c) :
    t.waits = t.blocked.flatMap Reconciliation.waits := by
  obtain ⟨p, blocked, -, hready, hfull, -⟩ := h
  rw [Tick.waits, if_pos]
  exact ⟨List.isEmpty_iff.mpr hready, hfull.imp_left List.isEmpty_iff.mpr⟩

/-- A tick that is under way waits for a computation, and for nothing else. So it goes on as soon as
time passes. -/
theorem Under.work {m : Nat} (h : a.Under c₀ m t c) :
    ∃ due, Schedule.firstWork? t.waits = some due ∧ .work due ∈ t.waits := by
  obtain ⟨hrested, hblocked⟩ := h
  have hwaits := hrested.waits
  obtain ⟨p, blocked, hstands, -⟩ := hrested
  obtain ⟨due, hdue⟩ : ∃ due, .work due ∈ t.waits := by
    rw [hwaits]
    have hrow := hstands.blocked
    generalize t.blocked = line, p.blocked = places at hblocked hrow
    cases hrow with
    | nil => exact absurd rfl hblocked
    | @cons x xs stops rest r line head tail =>
      obtain ⟨due, hdue⟩ := head.underWay.work
      exact ⟨due, List.mem_flatMap.mpr ⟨r, List.mem_cons_self, hdue⟩⟩
  have hsome : due ∈ t.waits.filterMap Wait.work? := List.mem_filterMap.mpr ⟨_, hdue, rfl⟩
  cases hfirst : Schedule.firstWork? t.waits with
  | none =>
    rw [List.min?_eq_none_iff.mp hfirst] at hsome
    cases hsome
  | some first =>
    obtain ⟨wait, hwait, hwork⟩ := List.mem_filterMap.mp (List.min?_mem hfirst)
    cases wait with
    | work due' =>
      obtain rfl : due' = first := Option.some.inj hwork
      exact ⟨due', rfl, hwait⟩
    | free | lock | time => cases hwork

/-- A tick that is waited for comes to an end: each turn decreases the cost that is left, and
between turns there is always a computation to wait for. -/
theorem ends (hfeasible : a.Feasible) (hsuits : a.Suits c₀) :
    Schedule.Ends (Tick.turn a.node) Tick.waits (a.Under c₀) (a.Finished c₀) where
  turn m t c hunder hpermits := by
    obtain ⟨hrested, -⟩ := hunder
    rw [hrested.waits, List.any_flatMap] at hpermits
    obtain ⟨r, hr, hgoes⟩ := List.any_eq_true.mp hpermits
    obtain ⟨p, blocked, hstands, hready, -, rfl⟩ := hrested
    exact hstands.after_turn hfeasible hsuits (Nat.le_refl _) (.inr ⟨hready, r, hr, hgoes⟩)
  work m t c hunder _ := by
    obtain ⟨due, hdue, hmem⟩ := hunder.work
    obtain ⟨⟨p, blocked, hstands, hrest⟩, hblocked⟩ := hunder
    refine ⟨due, hdue, ⟨⟨p, blocked, hstands.moves (c.moves_workedUntil due), hrest⟩, hblocked⟩, ?_⟩
    exact List.any_eq_true.mpr ⟨.work due, hmem, c.permits_workedUntil due⟩

end Agenda

end DeltaMesh
