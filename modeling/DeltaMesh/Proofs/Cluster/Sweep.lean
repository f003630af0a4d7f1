import DeltaMesh.Proofs.Cluster.Course
import Mathlib.Logic.Relation

/-!
# The steps of a tick in any order

A `Sweep` is a tick whose locations are under way. Any of them may take the next step, and in it any
of its conversations (`Sweep.Step`); a `Pace` says how many locations may be under way at once, and
whether the replicas of a location are talked to one after the other. What happens about one
location is nothing to the others. So in every state that can be reached each location stands where
it would stand if it were alone (`Sweep.Stands.run`), and however the steps were ordered, the
locations come to what was foreseen in the beginning (`Sweep.Completes.foreseen`).
-/

namespace DeltaMesh

variable {n : Nat}

/-- Any number of steps of one conversation of node `i`. -/
abbrev Cluster.Advances {α : Type} (i : Fin n) :
    Talk n α × Cluster n → Talk n α × Cluster n → Prop :=
  Relation.ReflTransGen fun p p' => p' = p.2.advance i p.1

/-- How much of a tick may go on at a time. -/
structure Pace where
  /-- So many locations may be under way. -/
  window : Nat
  /-- The replicas of a location are talked to one after the other. -/
  inOrder : Prop

/-- A tick under way. -/
structure Sweep (n : Nat) where
  /-- The locations that are not yet let in. -/
  waiting : List Id
  underWay : List (Reconciliation n)
  /-- What came of the other locations, latest first. -/
  ended : List Closing
  cluster : Cluster n

namespace Sweep

/-- A tick before its first step. -/
def start (locations : List Id) (c : Cluster n) : Sweep n := ⟨locations, [], [], c⟩

/-- All locations have reported. -/
def Over (s : Sweep n) : Prop := s.waiting = [] ∧ s.underWay = []

/-- A step of a tick of node `i`: a location is let in, one that is under way takes a step, or time
passes for computations. -/
inductive Step (i : Fin n) (pace : Pace) : Sweep n → Sweep n → Prop
  | letIn {location : Id} {waiting : List Id} {underWay : List (Reconciliation n)}
    {ended : List Closing} {c : Cluster n} (hroom : underWay.length < pace.window) :
    Step i pace ⟨location :: waiting, underWay, ended, c⟩
      ⟨waiting, underWay ++ [.planned location], ended, c⟩
  | turn {waiting : List Id} (front back : List (Reconciliation n)) {r r' : Reconciliation n}
    {ended : List Closing} {c c' : Cluster n} (h : r.Step i pace.inOrder c (.underWay r') c') :
    Step i pace ⟨waiting, front ++ r :: back, ended, c⟩ ⟨waiting, front ++ r' :: back, ended, c'⟩
  | finish {waiting : List Id} (front back : List (Reconciliation n)) {r : Reconciliation n}
    {ended : List Closing} {x : Closing} {c c' : Cluster n}
    (h : r.Step i pace.inOrder c (.over x) c') :
    Step i pace ⟨waiting, front ++ r :: back, ended, c⟩ ⟨waiting, front ++ back, x :: ended, c'⟩
  | work {waiting : List Id} {underWay : List (Reconciliation n)} {ended : List Closing}
    {c : Cluster n} (work : WorkClock) :
    Step i pace ⟨waiting, underWay, ended, c⟩ ⟨waiting, underWay, ended, { c with work }⟩

/-- Any number of steps. -/
abbrev Run (i : Fin n) (pace : Pace) : Sweep n → Sweep n → Prop :=
  Relation.ReflTransGen (Step i pace)

/-- A tick that was gone on with until it was over. -/
def Completes (i : Fin n) (pace : Pace) (s s' : Sweep n) : Prop := Run i pace s s' ∧ s'.Over

/-- One conversation goes on while everything else stands still. Where the order is fixed the
conversations to its left have to be over. -/
theorem run_advances {i : Fin n} {pace : Pace} {waiting : List Id} {location : Id}
    {ended : List Closing} {c c' : Cluster n} {talk talk' : Talk n (List ValueResult)}
    (front back : List (Reconciliation n)) (done talks : List (Talk n (List ValueResult)))
    (horder : pace.inOrder → ∀ t ∈ done, ∃ results, t = .finished results)
    (h : Cluster.Advances i (talk, c) (talk', c')) :
    Run i pace ⟨waiting, front ++ .talking location (done ++ talk :: talks) :: back, ended, c⟩
      ⟨waiting, front ++ .talking location (done ++ talk' :: talks) :: back, ended, c'⟩ := by
  generalize hfrom : (talk, c) = p, hto : (talk', c') = p' at h
  induction h generalizing talk' c' with
  | refl =>
    obtain ⟨rfl, rfl⟩ := Prod.mk.inj (hfrom.trans hto.symm)
    exact .refl
  | @tail q _ _ hstep ih =>
    obtain ⟨rfl, rfl⟩ := Prod.mk.inj (hto.trans hstep)
    exact (ih rfl).tail (.turn front back (.talk location q.1 talks q.2 horder))

/-- What a tick of node `i` over these locations relies on. -/
structure Sound (c₀ : Cluster n) (i : Fin n) (locations : List Id) : Prop where
  live : c₀.Live
  limit : (c₀.reconciler i).config.maxValueSize < Wire.lengthBound
  free : ∀ q location, (c₀.replica q).Free location
  parted : ∀ location, c₀.Parted i location
  nodup : locations.Nodup

/-- The locations of a tick, wherever they stand. -/
def gathered (waiting : List Id) (underWay : List (Reconciliation n)) (ended : List Closing) :
    List Id :=
  waiting ++ (underWay.map (·.location) ++ ended.map (·.report.location))

/-- Each location stands where it would stand if it were alone; `sent` is what was counted about
it. -/
structure Stands (c₀ : Cluster n) (i : Fin n) (locations : List Id) (s : Sweep n)
    (sent : Id → SentTally) : Prop where
  kept : c₀.Keeps (fun q location => q ≠ i ∧ location ∈ locations) (· ∈ locations) s.cluster
  perm : (gathered s.waiting s.underWay s.ended).Perm locations
  waiting : ∀ location ∈ s.waiting, c₀.Untouched i s.cluster location ∧ sent location = 0
  underWay : ∀ r ∈ s.underWay, c₀.UnderWay i s.cluster r (sent r.location)
  ended : ∀ x ∈ s.ended, c₀.Over i s.cluster x (sent x.report.location)
  tally : (s.cluster.reconciler i).tally = (c₀.reconciler i).tally + (locations.map sent).sum

variable {c₀ c c' : Cluster n} {i : Fin n} {locations waiting : List Id} {s s' : Sweep n}
  {front back underWay : List (Reconciliation n)} {r : Reconciliation n} {ended : List Closing}
  {sent : Id → SentTally} {pace : Pace}

theorem gathered_letIn (location : Id) :
    (gathered waiting (underWay ++ [.planned location]) ended).Perm
      (gathered (location :: waiting) underWay ended) := by
  rw [gathered, gathered, List.map_append, List.append_assoc, List.cons_append]
  exact (List.perm_middle.append_left waiting).trans List.perm_middle

theorem gathered_underWay : (gathered waiting (front ++ r :: back) ended).Perm
    (r.location :: gathered waiting (front ++ back) ended) := by
  rw [gathered, gathered, List.map_append, List.map_append, List.append_assoc, List.append_assoc,
    List.map_cons, List.cons_append]
  exact (List.perm_middle.append_left waiting).trans List.perm_middle

theorem gathered_ended (x : Closing) : (gathered waiting underWay (x :: ended)).Perm
    (x.report.location :: gathered waiting underWay ended) := by
  rw [gathered, gathered, List.map_cons]
  exact (List.perm_middle.append_left waiting).trans List.perm_middle

/-! ### What a step leads to -/

theorem stands_start (hsound : Sound c₀ i locations) :
    Stands c₀ i locations (start locations c₀) fun _ => 0 where
  kept := .refl _ _ c₀
  perm := .of_eq (List.append_nil locations)
  waiting location _ := ⟨⟨fun _ => rfl, fun q => hsound.free q location, Iff.rfl⟩, rfl⟩
  underWay := List.forall_mem_nil _
  ended := List.forall_mem_nil _
  tally := by
    rw [List.sum_map_zero, add_zero]
    rfl

/-- More was counted about one location. -/
theorem sum_update {location : Id} (hmem : location ∈ locations) (hnodup : locations.Nodup)
    (sent : Id → SentTally) (more : SentTally) :
    (locations.map (Function.update sent location (sent location + more))).sum =
      (locations.map sent).sum + more := by
  have hrest : (locations.erase location).map
      (Function.update sent location (sent location + more)) =
        (locations.erase location).map sent := by
    refine List.map_congr_left fun other hother => Function.update_of_ne ?_ _ _
    exact fun heq => hnodup.not_mem_erase (heq ▸ hother)
  rw [← List.sum_map_erase _ hmem, ← List.sum_map_erase _ hmem, hrest, Function.update_self,
    add_right_comm]

/-- A location took a step, and the others stand where they stood. -/
structure Moved (c₀ : Cluster n) (i : Fin n) (locations waiting : List Id)
    (others : List (Reconciliation n)) (ended : List Closing) (location : Id)
    (progress : Progress (Reconciliation n) Closing) (c : Cluster n) (sent : Id → SentTally) :
    Prop where
  kept : c₀.Keeps (fun q location => q ≠ i ∧ location ∈ locations) (· ∈ locations) c
  waiting : ∀ location ∈ waiting, c₀.Untouched i c location ∧ sent location = 0
  others : ∀ r ∈ others, c₀.UnderWay i c r (sent r.location)
  ended : ∀ x ∈ ended, c₀.Over i c x (sent x.report.location)
  tally : (c.reconciler i).tally = (c₀.reconciler i).tally + (locations.map sent).sum
  leads : c₀.Leads i c location (sent location) progress

theorem Stands.moved (hsound : Sound c₀ i locations)
    (h : Stands c₀ i locations ⟨waiting, front ++ r :: back, ended, c⟩ sent) {inOrder : Prop}
    {progress : Progress (Reconciliation n) Closing} (hstep : r.Step i inOrder c progress c') :
    ∃ sent', Moved c₀ i locations waiting (front ++ back) ended r.location progress c' sent' := by
  have hperm := gathered_underWay.symm.trans h.perm
  have hmem : r.location ∈ locations := hperm.subset List.mem_cons_self
  obtain ⟨hnew, -⟩ := List.nodup_cons.mp (hperm.nodup_iff.mpr hsound.nodup)
  rw [gathered, List.mem_append, List.mem_append, not_or, not_or] at hnew
  obtain ⟨hwaiting, hunder, hended⟩ := hnew
  obtain ⟨more, htally, hkeeps, hleads⟩ :=
    (h.underWay r (List.mem_append_right _ List.mem_cons_self)).step
      (h.kept.mono (fun q _ hq => hq.1) fun _ _ => trivial) (h.kept.live hsound.live) hsound.limit
      (hsound.parted _) hstep
  have hT : ∀ other, other ≠ r.location → ∀ q, ¬(q ≠ i ∧ other = r.location) :=
    fun other hne q hq => hne hq.2
  refine ⟨Function.update sent r.location (sent r.location + more), ?_, ?_, ?_, ?_, ?_, ?_⟩
  · exact h.kept.trans (hkeeps.mono (fun q other hq => ⟨hq.1, hq.2 ▸ hmem⟩) fun other heq =>
      heq ▸ hmem)
  · intro location hlocation
    have hne : location ≠ r.location := fun heq => hwaiting (heq ▸ hlocation)
    rw [Function.update_of_ne hne]
    obtain ⟨huntouched, hsent⟩ := h.waiting location hlocation
    exact ⟨huntouched.kept hkeeps (hT location hne) hne, hsent⟩
  · intro r' hr'
    have hne : r'.location ≠ r.location := fun heq =>
      hunder (heq ▸ List.mem_map_of_mem (f := (·.location)) hr')
    rw [Function.update_of_ne hne]
    refine (h.underWay r' ?_).kept hkeeps (hT _ hne) hne
    exact (List.mem_append.mp hr').elim (List.mem_append_left _) fun hback =>
      List.mem_append_right _ (List.mem_cons_of_mem r hback)
  · intro x hx
    have hne : x.report.location ≠ r.location := fun heq =>
      hended (heq ▸ List.mem_map_of_mem (f := (·.report.location)) hx)
    rw [Function.update_of_ne hne]
    exact (h.ended x hx).kept hkeeps (hT _ hne)
  · rw [htally, h.tally, sum_update hmem hsound.nodup, add_assoc]
  · rwa [Function.update_self]

theorem Stands.letIn {location : Id}
    (h : Stands c₀ i locations ⟨location :: waiting, underWay, ended, c⟩ sent) :
    Stands c₀ i locations ⟨waiting, underWay ++ [.planned location], ended, c⟩ sent := by
  obtain ⟨⟨huntouched, hsent⟩, hwaiting⟩ := List.forall_mem_cons.mp h.waiting
  refine ⟨h.kept, (gathered_letIn location).trans h.perm, hwaiting, ?_, h.ended, h.tally⟩
  refine List.forall_mem_append.mpr ⟨h.underWay, List.forall_mem_singleton.mpr ?_⟩
  rw [Reconciliation.location, hsent]
  exact .planned huntouched

/-- Each step leads to where every location would be if it were alone. -/
theorem Stands.step (hsound : Sound c₀ i locations) (h : Stands c₀ i locations s sent)
    (hstep : Step i pace s s') : ∃ sent', Stands c₀ i locations s' sent' := by
  cases hstep with
  | letIn hroom => exact ⟨sent, h.letIn⟩
  | turn front back hstep =>
    obtain ⟨sent', hmoved⟩ := h.moved hsound hstep
    obtain ⟨hlocation, hunder⟩ := hmoved.leads
    obtain ⟨hfront, hback⟩ := List.forall_mem_append.mp hmoved.others
    refine ⟨sent', hmoved.kept, ?_, hmoved.waiting, ?_, hmoved.ended, hmoved.tally⟩
    · refine gathered_underWay.trans (.trans (.of_eq ?_) (gathered_underWay.symm.trans h.perm))
      rw [hlocation]
    · rw [← hlocation] at hunder
      exact List.forall_mem_append.mpr ⟨hfront, List.forall_mem_cons.mpr ⟨hunder, hback⟩⟩
  | finish front back hstep =>
    obtain ⟨sent', hmoved⟩ := h.moved hsound hstep
    obtain ⟨hlocation, hover⟩ := hmoved.leads
    refine ⟨sent', hmoved.kept, ?_, hmoved.waiting, hmoved.others, ?_, hmoved.tally⟩
    · refine (gathered_ended _).trans (.trans (.of_eq ?_) (gathered_underWay.symm.trans h.perm))
      rw [hlocation]
    · rw [← hlocation] at hover
      exact List.forall_mem_cons.mpr ⟨hover, hmoved.ended⟩
  | work work =>
    have hkeeps : ∀ c : Cluster n, c.Keeps (fun _ _ => False) (fun _ => False) { c with work } :=
      fun c => { Cluster.Keeps.refl _ _ c with }
    refine ⟨sent, h.kept.trans ((hkeeps _).mono (fun _ _ => False.elim) fun _ => False.elim),
      h.perm, fun location hlocation => ?_, fun r hr => ?_, fun x hx => ?_, h.tally⟩
    · obtain ⟨huntouched, hsent⟩ := h.waiting location hlocation
      exact ⟨huntouched.kept (hkeeps _) (fun _ => id) id, hsent⟩
    · exact (h.underWay r hr).kept (hkeeps _) (fun _ => id) id
    · exact (h.ended x hx).kept (hkeeps _) fun _ => id

theorem Stands.run (hsound : Sound c₀ i locations) (h : Stands c₀ i locations s sent)
    (hrun : Run i pace s s') : ∃ sent', Stands c₀ i locations s' sent' := by
  induction hrun with
  | refl => exact ⟨sent, h⟩
  | tail _ hstep ih =>
    obtain ⟨sent', hstands⟩ := ih
    exact hstands.step hsound hstep

/-! ### What a tick comes to -/

/-- A tick has come to what was foreseen in `c₀`. -/
structure Foreseen (c₀ : Cluster n) (i : Fin n) (locations : List Id) (s : Sweep n) : Prop where
  ended : s.ended.Perm (locations.map (c₀.closing i))
  reached : ∀ location ∈ locations, ∀ p ∈ c₀.audience i location, ∀ q, c₀.route p = .ok q →
    (s.cluster.replica q).shelf location = (c₀.foreseen i location p).shelf
  elsewhere : ∀ q location,
    (location ∈ locations → ∀ p ∈ c₀.audience i location, c₀.route p ≠ .ok q) →
      (s.cluster.replica q).shelf location = (c₀.replica q).shelf location
  tally : (s.cluster.reconciler i).tally =
    (c₀.reconciler i).tally + (locations.map (c₀.outlay i)).sum

theorem Stands.foreseen (h : Stands c₀ i locations s sent) (hover : s.Over) :
    Foreseen c₀ i locations s := by
  obtain ⟨waiting, underWay, ended, c⟩ := s
  obtain ⟨rfl, rfl⟩ := hover
  have hperm : (ended.map (·.report.location)).Perm locations := h.perm
  have hended : ∀ location ∈ locations, ∃ x ∈ ended, x.report.location = location :=
    fun location hlocation => List.mem_map.mp (hperm.symm.subset hlocation)
  constructor
  · have hclosing : ended.map (fun x => c₀.closing i x.report.location) = ended := by
      refine (List.map_congr_left fun x hx => ?_).trans (List.map_id ended)
      exact (h.ended x hx).closing.symm
    refine .trans (.of_eq ?_) (hperm.map (c₀.closing i))
    rw [List.map_map]
    exact hclosing.symm
  · intro location hlocation p hp q hroute
    obtain ⟨x, hx, rfl⟩ := hended location hlocation
    rw [← Cluster.shelfAt_of_route ((h.kept.route p).trans hroute)]
    exact (h.ended x hx).shelf p hp
  · intro q location hother
    by_cases hlocation : location ∈ locations
    · obtain ⟨x, hx, rfl⟩ := hended location hlocation
      exact (h.ended x hx).elsewhere q (hother hlocation)
    · exact (h.kept.replica q).shelf location fun hmem => hlocation hmem.2
  · have hsent : locations.map sent = locations.map (c₀.outlay i) :=
      List.map_congr_left fun location hlocation => by
        obtain ⟨x, hx, rfl⟩ := hended location hlocation
        exact (h.ended x hx).sent
    rw [h.tally, hsent]

/-- However its steps were ordered, a tick comes to what was foreseen. -/
theorem Completes.foreseen (hsound : Sound c₀ i locations)
    (h : Completes i pace (start locations c₀) s) : Foreseen c₀ i locations s := by
  obtain ⟨sent, hstands⟩ := (stands_start hsound).run hsound h.1
  exact hstands.foreseen h.2

/-- A tick can come to one thing only: the same reports in some order, the same tally, and the same
shelves at all replicas. -/
theorem Foreseen.unique (h : Foreseen c₀ i locations s) (h' : Foreseen c₀ i locations s') :
    s.ended.Perm s'.ended ∧ (s.cluster.reconciler i).tally = (s'.cluster.reconciler i).tally ∧
      ∀ q location,
        (s.cluster.replica q).shelf location = (s'.cluster.replica q).shelf location := by
  refine ⟨h.ended.trans h'.ended.symm, h.tally.trans h'.tally.symm, fun q location => ?_⟩
  by_cases hreached : location ∈ locations ∧ ∃ p ∈ c₀.audience i location, c₀.route p = .ok q
  · obtain ⟨hlocation, p, hp, hroute⟩ := hreached
    rw [h.reached location hlocation p hp q hroute, h'.reached location hlocation p hp q hroute]
  · have hother : location ∈ locations → ∀ p ∈ c₀.audience i location, c₀.route p ≠ .ok q :=
      fun hlocation p hp hroute => hreached ⟨hlocation, p, hp, hroute⟩
    rw [h.elsewhere q location hother, h'.elsewhere q location hother]

end Sweep

end DeltaMesh
