import DeltaMesh.Proofs.Cluster.Call
import DeltaMesh.Proofs.Cluster.Turns

/-!
# Ticks as calls

A tick is a number of calls, one for each location that is let in. Its steps are steps of these
calls (`Sweep.Shown.run`), whatever other calls of the node there are.
-/

namespace DeltaMesh

variable {n : Nat}

namespace Call

/-- Any number of steps of one call. -/
abbrev Goes (i : Fin n) : Call n × Cluster n → Call n × Cluster n → Prop :=
  Relation.ReflTransGen fun p p' => Step i p.1 p.2 p'.1 p'.2

/-- The reconciliation that a call leads between its turns. -/
def reconciliation? (call : Call n) : Option (Reconciliation n) :=
  match call.stage with
  | .planned => some (.planned call.location)
  | .talking => some (.talking call.location call.talks)
  | .claimed | .reported _ | .brokenOff => none

/-- The report of a call that is over. -/
def report? (call : Call n) : Option LocationReport :=
  match call.stage with
  | .reported report => some report
  | .planned | .claimed | .talking | .brokenOff => none

/-- The call is where a reconciliation with this progress is. -/
inductive Leads (call : Call n) : Progress (Reconciliation n) Closing → Prop
  | underWay {r : Reconciliation n} (h : call.reconciliation? = some r)
    (hreport : call.report? = none) : Leads call (.underWay r)
  | ended {x : Closing} (h : call.reconciliation? = none) (hreport : call.report? = some x.report) :
    Leads call (.over x)

variable {i : Fin n} {call call' : Call n} {location : Id} {c c' : Cluster n}
  {talks : List (Talk n (List ValueResult))} {progress : Progress (Reconciliation n) Closing}

/-- A reconciliation does not stand still between claiming its location and its conversations. -/
theorem Leads.paused (h : call.Leads progress) : call.stage ≠ .claimed := by
  intro hstage
  rcases h with ⟨h, -⟩ | ⟨-, h⟩
  · rw [reconciliation?, hstage] at h
    cases h
  · rw [report?, hstage] at h
    cases h

theorem Step.goes (h : Step i call c call' c') : Goes i (call, c) (call', c') := .single h

/-- A call that shows a planned reconciliation is planned itself, and for the same location. -/
theorem stage_of_planned (h : call.reconciliation? = some (.planned location)) :
    call.stage = .planned ∧ call.location = location := by
  rw [reconciliation?] at h
  split at h
  case h_1 hstage => exact ⟨hstage, Reconciliation.planned.inj (Option.some.inj h)⟩
  all_goals cases h

theorem stage_of_talks (h : call.reconciliation? = some (.talking location talks)) :
    call.stage = .talking ∧ call.location = location ∧ call.talks = talks := by
  rw [reconciliation?] at h
  split at h
  case h_2 hstage => exact ⟨hstage, Reconciliation.talking.inj (Option.some.inj h)⟩
  all_goals cases h

/-- A call that still leads a reconciliation has not reported. -/
theorem report?_of_reconciliation? {r : Reconciliation n} (h : call.reconciliation? = some r) :
    call.report? = none := by
  rw [reconciliation?] at h
  rw [report?]
  split at h
  case h_1 hstage | h_2 hstage => rw [hstage]
  all_goals cases h

end Call

namespace Cluster

variable {c : Cluster n} {i : Fin n} {location : Id} {q : Reconciler}

/-- A claim that is given back leaves the cluster as it was before the claim, not only the set of
claims. -/
theorem release_claim (h : (c.reconciler i).claim? location = some q) :
    (c.setReconciler i q).release i location = c := by
  obtain ⟨hfree, rfl⟩ := Reconciler.claim?_eq_some h
  have herase : ((c.reconciler i).inFlight.insert location).erase location =
      (c.reconciler i).inFlight := by
    refine Std.ExtTreeSet.ext_mem fun other => ?_
    rw [Std.ExtTreeSet.mem_erase, Std.ExtTreeSet.mem_insert, Ne,
      Std.LawfulEqOrd.compare_eq_iff_eq]
    constructor
    · exact fun ⟨hne, hmem⟩ => hmem.resolve_left hne
    · exact fun hmem => ⟨fun heq => hfree (heq ▸ hmem), .inr hmem⟩
  rw [release, reconciler_set_self, Reconciler.unclaim, herase]
  have hback : (c.reconcilers.set i (c.reconciler i) i.isLt) = c.reconcilers :=
    Vector.set_getElem_self i.isLt
  rw [setReconciler, setReconciler, Vector.set_set]
  exact congrArg (fun reconcilers => { c with reconcilers }) hback

theorem replicasOf_claim (c : Cluster n) (i : Fin n) (other : Id) :
    (c.setReconciler i q).replicasOf i other = (c.replica i).directory.replicas other q.factor := by
  rw [replicasOf, reconciler_set_self]
  rfl

end Cluster

/-- The steps of a reconciliation are steps of a call. To prepare a location corresponds to two of
them, to look at the claim and to begin. -/
theorem Reconciliation.Step.called {i : Fin n} {inOrder : Prop} {r : Reconciliation n}
    {progress : Progress (Reconciliation n) Closing} {c c' : Cluster n} {call : Call n}
    (h : r.Step i inOrder c progress c') (hcall : call.reconciliation? = some r) :
    ∃ call' : Call n, Call.Goes i (call, c) (call', c') ∧ call'.Leads progress := by
  cases h with
  | prepare location c =>
    obtain ⟨hstage, rfl⟩ := Call.stage_of_planned hcall
    rw [Reconciliation.prepare]
    cases hclaim : (c.reconciler i).claim? call.location with
    | none => exact ⟨_, .single (.skip hstage hclaim), .ended rfl rfl⟩
    | some q =>
      let held : Call n := { call with
        stage := .claimed
        found := some ((c.reconciler i).inFlight.contains call.location) }
      have hclaimed : Call.Step i call c held (c.setReconciler i q) := .claim hstage hclaim
      have hreplicas := Cluster.replicasOf_claim (q := q) c i call.location
      have hterms : ((c.setReconciler i q).reconciler i).terms c.now = q.terms c.now := by
        rw [Cluster.reconciler_set_self]
      dsimp only
      rw [← hreplicas, ← hterms]
      split
      case isTrue hempty =>
        have hidle := @Call.Step.idle n i held (c.setReconciler i q) rfl hempty
        rw [Cluster.release_claim hclaim] at hidle
        exact ⟨_, hclaimed.goes.trans hidle.goes, .ended rfl rfl⟩
      case isFalse hbusy =>
        have hbegin := @Call.Step.begin n i held (c.setReconciler i q) rfl hbusy
        refine ⟨_, hclaimed.goes.trans hbegin.goes, .underWay ?_ rfl⟩
        rw [Call.reconciliation?, Call.talks, List.map_map]
        rfl
  | @talk location front talk back c horder =>
    obtain ⟨hstage, rfl, htalks⟩ := Call.stage_of_talks hcall
    obtain ⟨done, rest, hsplit, rfl, hrest⟩ := List.map_eq_append_iff.mp htalks
    obtain ⟨x, others, rfl, rfl, rfl⟩ := List.map_eq_cons_iff.mp hrest
    refine ⟨_, .single (.talk hstage done x others hsplit), .underWay ?_ ?_⟩
    · rw [Call.reconciliation?, hstage, Call.talks, List.map_append, List.map_cons]
      rfl
    · rw [Call.report?, hstage]
  | close location rows c =>
    obtain ⟨hstage, rfl, htalks⟩ := Call.stage_of_talks hcall
    exact ⟨_, .single (.close hstage rows htalks), .ended rfl rfl⟩

/-! ### Several calls -/

/-- What may happen next to calls of node `i`: one comes in, one goes on, or time passes for
computations. -/
inductive Calls.Step (i : Fin n) : List (Call n) × Cluster n → List (Call n) × Cluster n → Prop
  | arrive (calls : List (Call n)) (c : Cluster n) (location : Id) :
    Step i (calls, c) (calls ++ [.plan location], c)
  | go (front back : List (Call n)) {call call' : Call n} {c c' : Cluster n}
    (h : call.Step i c call' c') : Step i (front ++ call :: back, c) (front ++ call' :: back, c')
  | work (calls : List (Call n)) (c : Cluster n) (work : WorkClock) :
    Step i (calls, c) (calls, { c with work })

/-- Any number of steps. -/
abbrev Calls.Run (i : Fin n) :
    List (Call n) × Cluster n → List (Call n) × Cluster n → Prop :=
  Relation.ReflTransGen (Step i)

namespace Calls

variable {i : Fin n}

/-- One call may go on among all others. -/
theorem run_goes {call call' : Call n} {c c' : Cluster n} (front back : List (Call n))
    (h : Call.Goes i (call, c) (call', c')) :
    Run i (front ++ call :: back, c) (front ++ call' :: back, c') :=
  Relation.ReflTransGen.lift (fun p : Call n × Cluster n => (front ++ p.1 :: back, p.2))
    (fun _ _ hstep => Step.go front back hstep) _ _ h

/-- What is read off the calls, one of which is put first. -/
theorem perm_filterMap {β : Type} (f : Call n → Option β) (front back : List (Call n))
    (call : Call n) : ((front ++ call :: back).filterMap f).Perm
      ((f call).toList ++ (front ++ back).filterMap f) := by
  rw [List.filterMap_append, List.filterMap_cons, List.filterMap_append]
  cases f call with
  | none => exact .refl _
  | some b => exact List.perm_middle

/-- One of the calls leads the first reconciliation. -/
theorem split {calls : List (Call n)} {r : Reconciliation n} {rest : List (Reconciliation n)}
    (h : (calls.filterMap Call.reconciliation?).Perm (r :: rest)) :
    ∃ before call after, calls = before ++ call :: after ∧ call.reconciliation? = some r ∧
      ((before ++ after).filterMap Call.reconciliation?).Perm rest := by
  obtain ⟨call, hmem, hcall⟩ := List.mem_filterMap.mp (h.symm.subset List.mem_cons_self)
  obtain ⟨before, after, rfl⟩ := List.append_of_mem hmem
  have hunder := perm_filterMap Call.reconciliation? before after call
  rw [hcall] at hunder
  exact ⟨before, call, after, rfl, hcall, (hunder.symm.trans h).cons_inv⟩

theorem forall_mem_middle {P : Call n → Prop} {front back : List (Call n)} {call : Call n} :
    (∀ x ∈ front ++ call :: back, P x) ↔ P call ∧ ∀ x ∈ front ++ back, P x := by
  rw [List.forall_mem_append, List.forall_mem_cons, List.forall_mem_append]
  exact and_left_comm

end Calls

namespace Sweep

variable {i : Fin n} {pace : Pace} {s s' s'' : Sweep n} {others : List (Reconciliation n)}
  {calls calls' calls'' before after : List (Call n)} {call : Call n}
  {waiting : List Id} {front back : List (Reconciliation n)} {r : Reconciliation n}
  {ended : List Closing} {c : Cluster n}

/-- Among the calls of a node are those of a tick; the other ones that are under way lead the
reconciliations `others`. None of them stands still within a turn. -/
structure Shown (s : Sweep n) (others : List (Reconciliation n)) (calls : List (Call n)) :
    Prop where
  underWay : (calls.filterMap Call.reconciliation?).Perm (s.underWay ++ others)
  paused : ∀ call ∈ calls, call.stage ≠ .claimed

/-- The calls of a node have gone on as its tick has. -/
structure Led (i : Fin n) (s s' : Sweep n) (others : List (Reconciliation n))
    (calls calls' : List (Call n)) : Prop where
  run : Calls.Run i (calls, s.cluster) (calls', s'.cluster)
  shown : s'.Shown others calls'
  /-- The latest reports are those of the tick. -/
  reports : ∃ ended, s'.ended = ended ++ s.ended ∧
    (calls'.filterMap Call.report?).Perm (ended.map (·.report) ++ calls.filterMap Call.report?)

/-- Two stretches of a turn, one after the other. -/
theorem Led.trans (h : Led i s s' others calls calls') (h' : Led i s' s'' others calls' calls'') :
    Led i s s'' others calls calls'' := by
  obtain ⟨ended, hended, hreports⟩ := h.reports
  obtain ⟨later, hlater, hreports'⟩ := h'.reports
  refine ⟨h.run.trans h'.run, h'.shown, later ++ ended, ?_, ?_⟩
  · rw [hlater, hended, List.append_assoc]
  · rw [List.map_append, List.append_assoc]
    exact hreports'.trans (hreports.append_left _)

/-- One of the calls is where a reconciliation of the tick is, and the others show the rest of the
tick. -/
theorem Shown.split (h : Shown ⟨waiting, front ++ r :: back, ended, c⟩ others calls) :
    ∃ before call after, calls = before ++ call :: after ∧ call.reconciliation? = some r ∧
      Shown ⟨waiting, front ++ back, ended, c⟩ others (before ++ after) := by
  have hperm : (calls.filterMap Call.reconciliation?).Perm (r :: (front ++ back ++ others)) := by
    refine h.underWay.trans ?_
    rw [List.append_assoc, List.cons_append, List.append_assoc]
    exact List.perm_middle
  obtain ⟨before, call, after, rfl, hcall, hrest⟩ := Calls.split hperm
  exact ⟨before, call, after, rfl, hcall, hrest, (Calls.forall_mem_middle.mp h.paused).2⟩

/-- When that call has gone on, the calls show the tick with the reconciliation as it is now. -/
theorem Shown.joined (h : Shown ⟨waiting, front ++ back, ended, c⟩ others (before ++ after))
    {progress : Progress (Reconciliation n) Closing} (hleads : call.Leads progress)
    {underWay : List (Reconciliation n)}
    (hunderWay : underWay.Perm (call.reconciliation?.toList ++ (front ++ back)))
    (ended' : List Closing) (c' : Cluster n) :
    Shown ⟨waiting, underWay, ended', c'⟩ others (before ++ call :: after) := by
  refine ⟨?_, ?_⟩
  · refine (Calls.perm_filterMap Call.reconciliation? before after call).trans ?_
    refine (h.underWay.append_left _).trans ?_
    rw [← List.append_assoc]
    exact hunderWay.symm.append_right others
  · exact Calls.forall_mem_middle.mpr ⟨hleads.paused, h.paused⟩

/-- After one call has gone on the reports are those from before, and its own if it has come to its
end. -/
theorem reports_joined (before after : List (Call n)) (call' : Call n)
    (hcall : call.reconciliation? = some r) :
    ((before ++ call' :: after).filterMap Call.report?).Perm
      (call'.report?.toList ++ (before ++ call :: after).filterMap Call.report?) := by
  have hbefore := Calls.perm_filterMap Call.report? before after call
  rw [Call.report?_of_reconciliation? hcall] at hbefore
  exact (Calls.perm_filterMap Call.report? before after call').trans (hbefore.symm.append_left _)

/-- The step lemma: what one step of a tick does is a run of the calls that show it. -/
theorem Shown.step (h : s.Shown others calls) (hstep : Step i pace s s') :
    ∃ calls', Led i s s' others calls calls' := by
  cases hstep with
  | @letIn location waiting underWay ended c hroom =>
    refine ⟨calls ++ [.plan location], .single (.arrive calls c location), ⟨?_, ?_⟩, [], rfl, ?_⟩
    · rw [List.filterMap_append]
      refine (h.underWay.append_right _).trans ?_
      rw [List.append_assoc, List.append_assoc]
      exact List.perm_append_comm.append_left underWay
    · exact List.forall_mem_append.mpr ⟨h.paused, List.forall_mem_singleton.mpr nofun⟩
    · rw [List.filterMap_append]
      exact .of_eq (List.append_nil _)
  | turn front back hturn =>
    obtain ⟨before, call, after, rfl, hcall, hrest⟩ := h.split
    obtain ⟨call', hgoes, hleads⟩ := hturn.called hcall
    have hreports := reports_joined before after call' hcall
    rcases hleads with ⟨hcall', hreport'⟩ | _
    rw [hreport'] at hreports
    refine ⟨_, Calls.run_goes before after hgoes, hrest.joined (.underWay hcall' hreport') ?_ _ _,
      [], rfl, hreports⟩
    rw [hcall']
    exact List.perm_middle
  | @finish waiting front back r ended x c c' hturn =>
    obtain ⟨before, call, after, rfl, hcall, hrest⟩ := h.split
    obtain ⟨call', hgoes, hleads⟩ := hturn.called hcall
    have hreports := reports_joined before after call' hcall
    rcases hleads with _ | ⟨hcall', hreport'⟩
    rw [hreport'] at hreports
    refine ⟨_, Calls.run_goes before after hgoes, hrest.joined (.ended hcall' hreport') ?_ _ _,
      [x], rfl, hreports⟩
    rw [hcall']
    exact .refl _
  | @work waiting underWay ended c work =>
    exact ⟨calls, .single (.work calls c work), ⟨h.underWay, h.paused⟩, [], rfl, .refl _⟩

/-- By induction over the steps of a turn, with `Shown.step` for each of them. -/
theorem Shown.run (h : s.Shown others calls) (hrun : Run i pace s s') :
    ∃ calls', Led i s s' others calls calls' := by
  induction hrun with
  | refl => exact ⟨calls, .refl, h, [], rfl, .refl _⟩
  | tail _ hstep ih =>
    obtain ⟨calls₁, hled⟩ := ih
    obtain ⟨calls₂, hled'⟩ := hled.shown.step hstep
    exact ⟨calls₂, hled.trans hled'⟩

end Sweep

end DeltaMesh
