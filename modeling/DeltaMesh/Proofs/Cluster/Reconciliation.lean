import DeltaMesh.Cluster.Tick
import DeltaMesh.Proofs.Cluster.Visit
import Mathlib.Data.List.Nodup

/-!
# Reconciling a location, turn by turn

A `Tour` is what it takes to reconcile a location: its values go to different replicas, in one visit
each. The visits take their turns side by side, and since no two of them are to the same replica
none disturbs another (`Visit.turned_talks`). So in each turn the reconciliation gets further or
reports, and nothing but the keys of the tour at its replicas is touched
(`Tour.turned_planned`, `Tour.turned_underWay`).
-/

namespace DeltaMesh

variable {n : Nat}

/-! ### Rows of stops -/

/-- Things of one row are in a state that `Is` relates to things of another row, with so many stops
in all. -/
inductive Row {α β : Type} (Is : α → Nat → β → Prop) : List α → Nat → List β → Prop
  | nil : Row Is [] 0 []
  | cons {a : α} {as : List α} {stops rest : Nat} {b : β} {bs : List β} (head : Is a stops b)
    (tail : Row Is as rest bs) : Row Is (a :: as) (stops + rest) (b :: bs)

namespace Row

variable {α β : Type} {Is Is' : α → Nat → β → Prop} {as : List α} {stops : Nat} {bs : List β}

theorem length_eq (h : Row Is as stops bs) : bs.length = as.length := by
  induction h with
  | nil => rfl
  | cons _ _ ih => rw [List.length_cons, List.length_cons, ih]

theorem imp (h : Row Is as stops bs) (himp : ∀ a ∈ as, ∀ stops b, Is a stops b → Is' a stops b) :
    Row Is' as stops bs := by
  induction h with
  | nil => exact .nil
  | cons head tail ih =>
    exact .cons (himp _ List.mem_cons_self _ _ head)
      (ih fun a ha => himp a (List.mem_cons_of_mem _ ha))

end Row

/-! ### Visits side by side -/

namespace Visit

variable {c c' : Cluster n} {i : Fin n} {T : Fin n → Key → Prop} {D : Prop}
  {visits : List (Visit n)} {stops : Nat} {talks : List (Talk n (List ValueResult))}

/-- What several visits are about. -/
def Scopes (visits : List (Visit n)) (q : Fin n) (k : Key) : Prop := ∃ v ∈ visits, v.Scope q k

/-- One of the conversations can go on. -/
def CanGoOn (c : Cluster n) (talks : List (Talk n (List ValueResult))) : Prop :=
  ∃ talk ∈ talks, ∃ wait ∈ talk.wait?, c.permits wait = true

/-- A conversation that can go on can do so after others had their turns. -/
theorem Poised.permits {v : Visit n} {talk : Talk n (List ValueResult)}
    (h : v.Poised c stops talk) (hchanges : c.Changes T D c') {wait : Wait n}
    (hwait : talk.wait? = some wait) (hpermits : c.permits wait = true) :
    c'.permits wait = true := by
  cases h with
  | fresh =>
    rw [← Option.some.inj hwait]
    rfl
  | leads hleads =>
    rcases hleads.wait? with ⟨due, hdue⟩ | ⟨rfl, -⟩
    · obtain rfl : Wait.work due = wait := Option.some.inj (hdue.symm.trans hwait)
      exact hchanges.permits_work hpermits
    · cases hwait

/-- A conversation that can go on can still do so after others have: they cannot turn back the
clock. -/
theorem canGoOn_of_changes (h : Row (·.Poised c) visits stops talks) (hchanges : c.Changes T D c')
    (hgoes : CanGoOn c talks) : CanGoOn c' talks := by
  obtain ⟨talk, htalk, wait, hwait, hpermits⟩ := hgoes
  refine ⟨talk, htalk, wait, hwait, ?_⟩
  induction h with
  | nil => cases htalk
  | cons head _ ih =>
    rcases List.mem_cons.mp htalk with rfl | htalk
    · exact head.permits hchanges hwait hpermits
    · exact ih htalk

/-- Visits to different replicas get a turn each. They move the cluster apart from one another, and
at least one of them comes nearer to its end if any can go on. -/
theorem turned_talks (hfeasible : ∀ v ∈ visits, v.Feasible) (hD : ∀ v ∈ visits, v.Needed → D)
    (hapart : (visits.map Visit.replica).Nodup) (hopen : ∀ v ∈ visits, v.Open c)
    (h : Row (·.Poised c) visits stops talks) :
    ∃ talks' c' stops', Reconciliation.turnTalks i talks c = (talks', c') ∧
      c.Moves (Scopes visits) D c' ∧ Row (·.Leads c') visits stops' talks' ∧ stops' ≤ stops ∧
      (CanGoOn c talks → stops' < stops) := by
  induction visits generalizing c stops talks with
  | nil =>
    cases h
    exact ⟨[], c, 0, rfl, .refl _ _ c, .nil, Nat.le_refl 0, fun ⟨_, h, _⟩ => nomatch h⟩
  | cons v visits ih =>
    cases h with
    | @cons _ _ head rest talk talks hpoised htail =>
      obtain ⟨hother, hapart'⟩ := List.nodup_cons.mp hapart
      have hv : v ∈ v :: visits := List.mem_cons_self
      have hrest : ∀ w ∈ visits, w ∈ v :: visits := fun w => List.mem_cons_of_mem v
      obtain ⟨bound, hbound, hled, hfurther⟩ :=
        led_resume (i := i) (hfeasible v hv) (hD v hv) (hopen v hv) hpoised
      rw [Reconciliation.turnTalks]
      generalize c.resume i talk = ended at hled
      obtain ⟨talk', c₁⟩ := ended
      have hmoves : c.Moves v.Scope D c₁ := hled.moves
      obtain ⟨head', hleads, hhead⟩ := hled.leads
      -- the other conversations stay where they are during the turn of the first one
      have hscope : ∀ w ∈ visits, ∀ k, ¬v.Scope w.replica k := fun w hw k hk =>
        hother (hk.1 ▸ List.mem_map_of_mem hw)
      have htail' : Row (·.Poised c₁) visits rest talks := htail.imp fun w hw stops talk hw' =>
        hw'.changes hmoves.toChanges fun x _ => hscope w hw x.1
      obtain ⟨talks', c₂, rest', hturn, hmoves', hrow, hle, hlt⟩ :=
        ih (fun w hw => hfeasible w (hrest w hw)) (fun w hw => hD w (hrest w hw)) hapart'
          (fun w hw => (hopen w (hrest w hw)).changes hmoves.toChanges) htail'
      -- and the first one stays where it is during the turns of the others
      have hapart : ∀ k, ¬Scopes visits v.replica k := fun k ⟨w, hw, hk⟩ =>
        hother (hk.1 ▸ List.mem_map_of_mem hw)
      have hleads' : v.Leads c₂ head' talk' :=
        hleads.changes hmoves'.toChanges fun x _ => hapart x.1
      have hmoved : c.Moves (Scopes (v :: visits)) D c₂ :=
        (hmoves.mono (fun q k hk => ⟨v, hv, hk⟩) id).trans
          (hmoves'.mono (fun q k ⟨w, hw, hk⟩ => ⟨w, hrest w hw, hk⟩) id)
      refine ⟨talk' :: talks', c₂, head' + rest', by simp only [hturn], hmoved,
        .cons hleads' hrow, by omega, fun ⟨other, hmem, hgoes⟩ => ?_⟩
      rcases List.mem_cons.mp hmem with rfl | hmem
      · have := hfurther hgoes
        omega
      · have := hlt (canGoOn_of_changes htail hmoves.toChanges ⟨other, hmem, hgoes⟩)
        omega

/-- Either all visits are over, or one of them waits for a computation. There is nothing else that a
conversation could be waiting for, since every request it sends is served within the turn. -/
theorem results?_of_leads (h : Row (·.Leads c) visits stops talks) :
    (Reconciliation.results? talks = some (visits.flatMap fun v => v.results v.values) ∧
      ∀ v ∈ visits, v.Behind c v.values) ∨
    Reconciliation.results? talks = none ∧ ∃ due, .work due ∈ talks.filterMap Talk.wait? := by
  induction h with
  | nil => exact .inl ⟨rfl, fun _ h => nomatch h⟩
  | @cons v visits stops rest talk talks head tail ih =>
    rcases head.wait? with ⟨due, hdue⟩ | ⟨rfl, hbehind⟩
    · refine .inr ⟨?_, due, List.mem_filterMap.mpr ⟨talk, List.mem_cons_self, hdue⟩⟩
      cases talk with
      | finished => cases hdue
      | resting | asking | silent => rfl
    · rcases ih with ⟨hresults, hall⟩ | ⟨hnone, due, hdue⟩
      · refine .inl ⟨?_, List.forall_mem_cons.mpr ⟨hbehind, hall⟩⟩
        rw [Reconciliation.results?, hresults]
        rfl
      · refine .inr ⟨?_, due, hdue⟩
        rw [Reconciliation.results?, hnone]
        rfl

end Visit

/-! ### Tours -/

/-- The asking side of a node when it has claimed a location. -/
def Reconciler.claiming (q : Reconciler) (location : Id) : Reconciler :=
  { q with inFlight := q.inFlight.insert location }

/-- The values of a location and the replicas that they go to. -/
structure Tour (n : Nat) where
  location : Id
  terms : Terms
  /-- The length of the replicas' blocks. -/
  blockSize : Nat
  values : List (Key × ByteArray)
  /-- As whom the node addresses the replicas, and which ones they are. -/
  targets : List (Peer × Fin n)
  /-- What the replicas hold at first. -/
  held? : Fin n → Key → Option ByteArray

namespace Tour

variable (t : Tour n)

/-- The visit to one of the replicas. -/
def visit (target : Peer × Fin n) : Visit n :=
  ⟨t.terms, target.1, target.2, t.blockSize, t.values, t.held? target.2⟩

def visits : List (Visit n) := t.targets.map t.visit

/-- What the tour is about. -/
def Scope : Fin n → Key → Prop := Visit.Scopes t.visits

/-- One of the replicas misses one of the values. -/
def Needed : Prop := ∃ v ∈ t.visits, v.Needed

/-- What is said about the tour when it is over. -/
def report : LocationReport :=
  .ofResults t.location t.targets.length (t.visits.flatMap fun v => v.results v.values)

/-- An upper bound for the stops of the tour. -/
def weight : Nat := t.targets.length * (4 * t.values.length)

/-- Each of the visits can be made, and no two go to the same replica. -/
structure Feasible : Prop where
  visits : ∀ v ∈ t.visits, v.Feasible
  apart : (t.targets.map Prod.snd).Nodup

/-- The replicas serve the tour. -/
def Open (c : Cluster n) : Prop := ∀ v ∈ t.visits, v.Open c

/-- No value has been brought yet. -/
def Ahead (c : Cluster n) : Prop := ∀ v ∈ t.visits, v.Ahead c v.values

/-- All values have been brought. -/
def Behind (c : Cluster n) : Prop := ∀ v ∈ t.visits, v.Behind c v.values

/-- This is what node `i` finds when it sets out to reconcile the location. -/
structure Fits (i : Fin n) (c : Cluster n) : Prop where
  targets : (c.replica i).directory.replicas t.location (c.reconciler i).factor =
    t.targets.map Prod.fst
  values : (c.replica i).store.entries.under t.location = t.values
  terms : (c.reconciler i).terms c.now = t.terms

/-- The reconciliation is under way and rests, with so many stops to come. -/
inductive UnderWay (c : Cluster n) : Nat → Reconciliation n → Prop
  | talking {stops : Nat} {talks : List (Talk n (List ValueResult))}
    (hrow : Row (·.Leads c) t.visits stops talks)
    (hrests : ∃ due, .work due ∈ talks.filterMap Talk.wait?) :
    UnderWay c stops (.talking t.location talks)

/-- What a turn of node `i` makes of the reconciliation: it has reported, or it rests with at most
`bound` stops to come. While it rests the location is claimed. -/
inductive Turned (i : Fin n) (D : Prop) (c : Cluster n) (bound : Nat) :
    Progress (Reconciliation n) LocationReport × Cluster n → Prop
  | reported {c' : Cluster n} (hchanges : c.Changes t.Scope D c') (hbehind : t.Behind c')
    (hinFlight : ∀ location, location ∈ (c'.reconciler i).inFlight ↔
      location ∈ (c.reconciler i).inFlight ∧ location ≠ t.location)
    (hothers : ∀ j, j ≠ i → (c'.reconciler j).inFlight = (c.reconciler j).inFlight) :
    Turned i D c bound (.over t.report, c')
  | rests {r : Reconciliation n} {c' : Cluster n} {stops : Nat}
    (hchanges : c.Changes t.Scope D c') (hunder : t.UnderWay c' stops r) (hle : stops ≤ bound)
    (hinFlight : ∀ location, location ∈ (c'.reconciler i).inFlight ↔
      location ∈ (c.reconciler i).inFlight ∨ location = t.location)
    (hothers : ∀ j, j ≠ i → (c'.reconciler j).inFlight = (c.reconciler j).inFlight) :
    Turned i D c bound (.underWay r, c')

variable {t} {c c' : Cluster n} {i : Fin n} {T : Fin n → Key → Prop} {D : Prop} {stops : Nat}

/-- No replica is visited twice for one location. -/
theorem Feasible.replicas (h : t.Feasible) : (t.visits.map Visit.replica).Nodup := by
  rw [Tour.visits, List.map_map]
  exact h.apart

/-! #### What leaves a tour where it is -/

/-- What is open about a location stays open whatever the conversations about others do. -/
theorem Open.changes (h : t.Open c) (hchanges : c.Changes T D c') : t.Open c' :=
  fun v hv => (h v hv).changes hchanges

theorem scope_of_mem {v : Visit n} (hv : v ∈ t.visits) {x : Key × ByteArray} (hx : x ∈ v.values) :
    t.Scope v.replica x.1 :=
  ⟨v, hv, rfl, List.mem_map_of_mem hx⟩

/-- A location that is ahead stays so as long as nobody touches what it is about. -/
theorem Ahead.changes (h : t.Ahead c) (hchanges : c.Changes T D c')
    (hT : ∀ q k, t.Scope q k → ¬T q k) : t.Ahead c' :=
  fun v hv => (h v hv).changes hchanges fun _ hx => hT _ _ (scope_of_mem hv hx)

/-- A location that is behind stays so as long as nobody touches what it is about. -/
theorem Behind.changes (h : t.Behind c) (hchanges : c.Changes T D c')
    (hT : ∀ q k, t.Scope q k → ¬T q k) : t.Behind c' :=
  fun v hv => (h v hv).changes hchanges fun _ hx => hT _ _ (scope_of_mem hv hx)

/-- Of the three states only this one has talks of its own; they rest at keys that nobody else
touches. -/
theorem UnderWay.changes {r : Reconciliation n} (h : t.UnderWay c stops r)
    (hchanges : c.Changes T D c') (hT : ∀ q k, t.Scope q k → ¬T q k) : t.UnderWay c' stops r := by
  cases h with
  | talking hrow hrests =>
    exact .talking (hrow.imp fun v hv _ _ hleads =>
      hleads.changes hchanges fun _ hx => hT _ _ (scope_of_mem hv hx)) hrests

/-- The values of the node itself stay, so that what was planned can still be sent. -/
theorem Fits.changes (h : t.Fits i c) (hchanges : c.Changes T D c') (hT : ∀ k, ¬T i k) :
    t.Fits i c' where
  targets := by
    rw [(hchanges.replica i).directory, (hchanges.reconciler i).factor]
    exact h.targets
  values := by
    have hentries : (c'.replica i).store.entries = (c.replica i).store.entries :=
      Std.ExtTreeMap.ext_getElem? fun k => (hchanges.replica i).held k (hT k)
    rw [hentries]
    exact h.values
  terms := by
    rw [Reconciler.terms, (hchanges.reconciler i).config, hchanges.now]
    exact h.terms

/-! #### Turns -/

theorem length_visits : t.visits.length = t.targets.length := List.length_map _

/-- A location that is given back is no longer claimed; what else is claimed stays so. -/
theorem mem_inFlight_unclaim (c : Cluster n) (i : Fin n) (location other : Id) :
    other ∈ ((c.setReconciler i ((c.reconciler i).unclaim location)).reconciler i).inFlight ↔
      other ∈ (c.reconciler i).inFlight ∧ other ≠ location := by
  rw [Cluster.reconciler_set_self, Reconciler.unclaim, Std.ExtTreeSet.mem_erase, and_comm,
    Ne.eq_def, Ne.eq_def, Std.LawfulEqOrd.compare_eq_iff_eq, eq_comm]

/-- When the conversations have had their turn the reconciliation rests, or all are over and it
reports. -/
theorem turned_of_talked (hclaimed : t.location ∈ (c.reconciler i).inFlight)
    {talks talks' : List (Talk n (List ValueResult))}
    (hturn : Reconciliation.turnTalks i talks c = (talks', c'))
    (hmoves : c.Moves t.Scope D c') (hrow : Row (·.Leads c') t.visits stops talks') :
    t.Turned i D c stops (Reconciliation.carryOn i t.location talks c) := by
  have hlength : talks'.length = t.targets.length := hrow.length_eq.trans length_visits
  rw [Reconciliation.carryOn, hturn]
  rcases Visit.results?_of_leads hrow with ⟨hresults, hbehind⟩ | ⟨hnone, hrests⟩
  · simp only [hresults, hlength]
    have hgiven : c'.Changes (fun _ _ => False) D
        (c'.setReconciler i ((c'.reconciler i).unclaim t.location)) :=
      c'.changes_setReconciler i ⟨rfl, rfl, rfl⟩
    have hbehind' : t.Behind (c'.setReconciler i ((c'.reconciler i).unclaim t.location)) :=
      Behind.changes hbehind hgiven fun _ _ _ => id
    refine .reported (hmoves.toChanges.trans { hgiven.mono (fun _ _ => False.elim) id with })
      (fun v hv x hx => { hbehind' v hv x hx with }) (fun location => ?_) ?_
    · rw [← hmoves.inFlight i]
      exact mem_inFlight_unclaim c' i t.location location
    · intro j hj
      rw [← hmoves.inFlight j]
      exact congrArg Reconciler.inFlight (c'.reconciler_set_of_ne _ hj)
  · simp only [hnone]
    refine .rests hmoves.toChanges (.talking hrow hrests) (Nat.le_refl _) (fun location => ?_) ?_
    · rw [hmoves.inFlight i]
      exact ⟨.inl, fun h => h.elim id fun heq => heq ▸ hclaimed⟩
    · exact fun j _ => hmoves.inFlight j

/-- The conversations of a claimed location get a turn each; if one of them can go on the tour gets
further. -/
theorem turned_carryOn (hfeasible : t.Feasible) (hD : t.Needed → D) (hopen : t.Open c)
    (hclaimed : t.location ∈ (c.reconciler i).inFlight)
    {talks : List (Talk n (List ValueResult))} (h : Row (·.Poised c) t.visits stops talks) :
    ∃ bound ≤ stops, t.Turned i D c bound (Reconciliation.carryOn i t.location talks c) ∧
      (Visit.CanGoOn c talks → bound < stops) := by
  obtain ⟨talks', c', stops', hturn, hmoves, hrow, hle, hlt⟩ := Visit.turned_talks (i := i)
    hfeasible.visits (fun v hv hneeded => hD ⟨v, hv, hneeded⟩) hfeasible.replicas hopen h
  exact ⟨stops', hle, turned_of_talked hclaimed hturn hmoves hrow, hlt⟩

/-- The conversations of a tour before their first turns have everything ahead, three stops for each
value and one to begin with. -/
theorem row_fresh (hahead : t.Ahead c) :
    Row (·.Poised c) t.visits (t.targets.length * (3 * t.values.length + 1))
      ((t.targets.map Prod.fst).map fun p =>
        .ofExchange (reconcileReplica t.terms p t.values)) := by
  obtain ⟨location, terms, blockSize, values, targets, held?⟩ := t
  induction targets with
  | nil =>
    rw [List.length_nil, Nat.zero_mul]
    exact .nil
  | cons target targets ih =>
    rw [List.length_cons, Nat.succ_mul, Nat.add_comm]
    exact .cons (.fresh (hahead _ List.mem_cons_self))
      (ih fun v hv => hahead v (List.mem_cons_of_mem _ hv))

/-- Without replicas or without values there is nothing to do, and the report counts nothing. -/
theorem idle_of_empty (h : t.targets = [] ∨ t.values = []) :
    t.report = { location := t.location, replicas := t.targets.length } ∧ t.Behind c := by
  rcases h with htargets | hvalues
  · have hvisits : t.visits = [] := by rw [visits, htargets, List.map_nil]
    rw [report, Behind, hvisits]
    exact ⟨rfl, fun _ h => nomatch h⟩
  · have hnone : ∀ v ∈ t.visits, v.values = [] := by
      rintro v hv
      obtain ⟨target, -, rfl⟩ := List.mem_map.mp hv
      exact hvalues
    have hresults : (t.visits.flatMap fun v => v.results v.values) = [] :=
      List.flatMap_eq_nil_iff.mpr fun v hv => by rw [hnone v hv, Visit.results, List.map_nil]
    rw [report, hresults]
    exact ⟨rfl, fun v hv x hx => by rw [hnone v hv] at hx; cases hx⟩

/-- A turn that ends within a bound ends within a larger one. -/
theorem Turned.mono {bound bound' : Nat}
    {ended : Progress (Reconciliation n) LocationReport × Cluster n}
    (h : t.Turned i D c bound ended) (hle : bound ≤ bound') : t.Turned i D c bound' ended := by
  cases h with
  | reported hchanges hbehind hinFlight hothers =>
    exact .reported hchanges hbehind hinFlight hothers
  | rests hchanges hunder hstops hinFlight hothers =>
    exact .rests hchanges hunder (Nat.le_trans hstops hle) hinFlight hothers

/-- What becomes of a tour whose location is claimed at the beginning of the turn. -/
theorem Turned.of_claimed {c₁ : Cluster n} {bound : Nat}
    {ended : Progress (Reconciliation n) LocationReport × Cluster n}
    (hchanges : c.Changes (fun _ _ => False) D c₁)
    (hclaimed : ∀ location, location ∈ (c₁.reconciler i).inFlight ↔
      location ∈ (c.reconciler i).inFlight ∨ location = t.location)
    (hothers : ∀ j, j ≠ i → (c₁.reconciler j).inFlight = (c.reconciler j).inFlight)
    (h : t.Turned i D c₁ bound ended) : t.Turned i D c bound ended := by
  have hscope : c.Changes t.Scope D c₁ := hchanges.mono (fun _ _ => False.elim) id
  cases h with
  | reported hchanges' hbehind hinFlight hothers' =>
    refine .reported (hscope.trans hchanges') hbehind (fun location => ?_) fun j hj =>
      (hothers' j hj).trans (hothers j hj)
    rw [hinFlight, hclaimed]
    exact ⟨fun ⟨h, hne⟩ => ⟨h.resolve_right hne, hne⟩, fun ⟨h, hne⟩ => ⟨.inl h, hne⟩⟩
  | rests hchanges' hunder hle hinFlight hothers' =>
    refine .rests (hscope.trans hchanges') hunder hle (fun location => ?_) fun j hj =>
      (hothers' j hj).trans (hothers j hj)
    rw [hinFlight, hclaimed, or_assoc, or_self]

/-- A reconciliation that has not begun claims its location and begins. All its conversations have
their first turn in the order of the replicas. -/
theorem turned_planned (hfeasible : t.Feasible) (hD : t.Needed → D) (hopen : t.Open c)
    (hfits : t.Fits i c) (hfree : t.location ∉ (c.reconciler i).inFlight) (hahead : t.Ahead c) :
    t.Turned i D c t.weight ((Reconciliation.planned t.location).turn i c) := by
  have hclaim : (c.reconciler i).claim? t.location =
      some ((c.reconciler i).claiming t.location) := by
    rw [Reconciler.claim?, if_neg (by rwa [Std.ExtTreeSet.contains_iff_mem])]
    rfl
  have htargets : (c.replica i).directory.replicas t.location
      ((c.reconciler i).claiming t.location).factor = t.targets.map Prod.fst := hfits.targets
  have hterms : ((c.reconciler i).claiming t.location).terms c.now = t.terms := hfits.terms
  rw [Reconciliation.turn, Reconciliation.begin, hclaim]
  simp only [htargets, hterms, hfits.values, List.isEmpty_iff, List.map_eq_nil_iff, List.length_map]
  split
  case isTrue hempty =>
    -- nothing is left claimed after the turn
    obtain ⟨hreport, hbehind⟩ := idle_of_empty (c := c) hempty
    rw [← hreport]
    refine .reported (.refl _ _ c) hbehind (fun location => ?_) fun _ _ => rfl
    exact ⟨fun h => ⟨h, fun heq => hfree (heq ▸ h)⟩, And.left⟩
  case isFalse hnonempty =>
    have hweight : t.targets.length * (3 * t.values.length + 1) ≤ t.weight := by
      have hvalues : 0 < t.values.length := List.length_pos_iff.mpr fun h => hnonempty (.inr h)
      exact Nat.mul_le_mul_left _ (by omega)
    have hclaiming : c.Changes (fun _ _ => False) D
        (c.setReconciler i ((c.reconciler i).claiming t.location)) :=
      c.changes_setReconciler i ⟨rfl, rfl, rfl⟩
    have hclaimed : ∀ location, location ∈ ((c.setReconciler i
        ((c.reconciler i).claiming t.location)).reconciler i).inFlight ↔
        location ∈ (c.reconciler i).inFlight ∨ location = t.location := by
      intro location
      rw [Cluster.reconciler_set_self, Reconciler.claiming, Std.ExtTreeSet.mem_insert,
        Std.LawfulEqOrd.compare_eq_iff_eq, or_comm, eq_comm]
    refine Turned.of_claimed hclaiming hclaimed
      (fun j hj => congrArg Reconciler.inFlight (c.reconciler_set_of_ne _ hj)) ?_
    obtain ⟨bound, hbound, hturned, -⟩ := turned_carryOn (i := i) hfeasible hD
      (hopen.changes hclaiming) ((hclaimed _).mpr (.inr rfl))
      (row_fresh (hahead.changes hclaiming fun _ _ _ => id))
    exact hturned.mono (Nat.le_trans hbound hweight)

/-- A reconciliation that is under way is carried on, and gets further if it can go on. -/
theorem turned_underWay (hfeasible : t.Feasible) (hD : t.Needed → D) (hopen : t.Open c)
    (hclaimed : t.location ∈ (c.reconciler i).inFlight) {r : Reconciliation n}
    (h : t.UnderWay c stops r) :
    ∃ bound ≤ stops, t.Turned i D c bound (r.turn i c) ∧
      (Tick.canGoOn c r = true → bound < stops) := by
  cases h with
  | talking hrow hrests =>
    obtain ⟨bound, hbound, hturned, hfurther⟩ := turned_carryOn hfeasible hD hopen hclaimed
      (hrow.imp fun _ _ _ _ h => .leads h)
    refine ⟨bound, hbound, hturned, fun hgoes => hfurther ?_⟩
    obtain ⟨wait, hwait, hpermits⟩ := List.any_eq_true.mp hgoes
    obtain ⟨talk, htalk, hwait⟩ := List.mem_filterMap.mp hwait
    exact ⟨talk, htalk, wait, hwait, hpermits⟩

end Tour

end DeltaMesh
