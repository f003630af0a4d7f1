import DeltaMesh.Proofs.Cluster.Call

/-!
# Calls that overlap

Any number of calls of one node go on at once, and any of them may take the next step, be broken
off, or never go on; meanwhile anything else may happen in the cluster that leaves the claims of the
node alone (`Overlap.Step`). The invariant is that the claimed locations are those of the open
calls, no two of which are for the same location (`Overlap.Sound`). Each step keeps it because a
call claims a location that is free and gives back what it has claimed itself (`Call.Step.shift`).

Main statement: no location is ever reconciled twice at once, a call is skipped just if it has found
its location claimed, and no claim outlives the calls (`Overlap.calls_exclusive`).
-/

namespace DeltaMesh

variable {n : Nat}

/-- Calls of a node, and the cluster in which they go on. -/
structure Overlap (n : Nat) where
  calls : List (Call n)
  cluster : Cluster n

namespace Overlap

/-- What may happen next: a call for node `i` comes in, goes on or is broken off, or something
happens that has nothing to do with the locations that the node has claimed. -/
inductive Step (i : Fin n) : Overlap n → Overlap n → Prop
  | arrive (calls : List (Call n)) (c : Cluster n) (location : Id) :
    Step i ⟨calls, c⟩ ⟨calls ++ [.plan location], c⟩
  | go (front back : List (Call n)) {call call' : Call n} {c c' : Cluster n}
    (h : call.Step i c call' c') : Step i ⟨front ++ call :: back, c⟩ ⟨front ++ call' :: back, c'⟩
  | breakOff (front back : List (Call n)) (call : Call n) (c : Cluster n) :
    Step i ⟨front ++ call :: back, c⟩
      ⟨front ++ (call.breakOff i c).1 :: back, (call.breakOff i c).2⟩
  | elsewhere (calls : List (Call n)) {c c' : Cluster n}
    (h : (c'.reconciler i).inFlight = (c.reconciler i).inFlight) : Step i ⟨calls, c⟩ ⟨calls, c'⟩

/-- Any number of steps. -/
abbrev Run (i : Fin n) : Overlap n → Overlap n → Prop := Relation.ReflTransGen (Step i)

/-- The locations of the calls that are open. -/
def claimed (calls : List (Call n)) : List Id := (calls.filter Call.isOpen).map Call.location

end Overlap

/-- What has come of a call agrees with what it found when it began. -/
def Call.Told (call : Call n) : Prop :=
  match call.found with
  | none => (call.stage = .planned ∨ call.stage = .brokenOff) ∧ call.conversations = []
  | some true =>
    (∃ report, call.stage = .reported report ∧ report.skipped = true) ∧ call.conversations = []
  | some false =>
    call.stage ≠ .planned ∧ ∀ report, call.stage = .reported report → report.skipped = false

namespace Overlap

/-- The open calls are for different locations, and those are the locations that are claimed. -/
structure Sound (i : Fin n) (s : Overlap n) : Prop where
  nodup : (claimed s.calls).Nodup
  mem : ∀ location, location ∈ (s.cluster.reconciler i).inFlight ↔ location ∈ claimed s.calls
  told : ∀ call ∈ s.calls, call.Told

variable {i : Fin n} {s s' : Overlap n} {front back calls : List (Call n)} {call call' : Call n}
  {c c' c₀ : Cluster n}

theorem claimed_append (calls calls' : List (Call n)) :
    claimed (calls ++ calls') = claimed calls ++ claimed calls' := by
  rw [claimed, List.filter_append, List.map_append]
  rfl

theorem claimed_planned (location : Id) : claimed ([.plan location] : List (Call n)) = [] := rfl

/-- A call that is open contributes its location to the claimed ones. -/
theorem claimed_middle_of_open (front back : List (Call n)) (hopen : call.isOpen = true) :
    (claimed (front ++ call :: back)).Perm (call.location :: claimed (front ++ back)) := by
  rw [claimed_append, claimed_append, claimed, claimed, List.filter_cons_of_pos hopen,
    List.map_cons]
  exact List.perm_middle

/-- A call that is not contributes nothing. -/
theorem claimed_middle_of_not_open (front back : List (Call n)) (hopen : call.isOpen = false) :
    claimed (front ++ call :: back) = claimed (front ++ back) := by
  rw [claimed_append, claimed_append, claimed, claimed,
    List.filter_cons_of_neg (ne_true_of_eq_false hopen)]
  rfl

/-! ### One step -/

section

variable {claims claims' : Std.ExtTreeSet Id compare}

/-- A call claims a free location, or gives back its own; in both cases the claimed locations are
those of the open calls, each once. -/
theorem exact_shift (hlocation : call'.location = call.location)
    (hshift : Call.Shift call.location call.isOpen claims call'.isOpen claims')
    (hnodup : (claimed (front ++ call :: back)).Nodup)
    (hmem : ∀ location, location ∈ claims ↔ location ∈ claimed (front ++ call :: back)) :
    (claimed (front ++ call' :: back)).Nodup ∧
      ∀ location, location ∈ claims' ↔ location ∈ claimed (front ++ call' :: back) := by
  generalize hopen : call.isOpen = wasOpen, hopen' : call'.isOpen = isOpen at hshift
  cases hshift with
  | keeps =>
    cases wasOpen with
    | true =>
      have hperm : (claimed (front ++ call' :: back)).Perm (claimed (front ++ call :: back)) :=
        (claimed_middle_of_open front back hopen').trans
          (hlocation ▸ (claimed_middle_of_open front back hopen).symm)
      exact ⟨hperm.nodup_iff.mpr hnodup, fun location => (hmem location).trans hperm.mem_iff.symm⟩
    | false =>
      rw [claimed_middle_of_not_open front back hopen']
      rw [claimed_middle_of_not_open front back hopen] at hnodup hmem
      exact ⟨hnodup, hmem⟩
  | claims hfree =>
    have hperm := hlocation ▸ claimed_middle_of_open front back hopen'
    rw [claimed_middle_of_not_open front back hopen] at hnodup hmem
    refine ⟨hperm.nodup_iff.mpr (List.nodup_cons.mpr ⟨fun h => hfree ((hmem _).mpr h), hnodup⟩),
      fun location => ?_⟩
    rw [hperm.mem_iff, Std.ExtTreeSet.mem_insert, Std.LawfulEqOrd.compare_eq_iff_eq, List.mem_cons,
      hmem, eq_comm]
  | returns =>
    have hperm := claimed_middle_of_open front back hopen
    obtain ⟨hnot, hrest⟩ := List.nodup_cons.mp (hperm.nodup_iff.mp hnodup)
    rw [claimed_middle_of_not_open front back hopen']
    refine ⟨hrest, fun location => ?_⟩
    rw [Std.ExtTreeSet.mem_erase, Ne, Std.LawfulEqOrd.compare_eq_iff_eq, hmem, hperm.mem_iff,
      List.mem_cons]
    constructor
    · rintro ⟨hne, rfl | hmem⟩
      · exact absurd rfl hne
      · exact hmem
    · exact fun hmem => ⟨fun heq => hnot (heq ▸ hmem), .inr hmem⟩

end

theorem conversations_of_planned (htold : call.Told) (hstage : call.stage = .planned) :
    call.conversations = [] := by
  rw [Call.Told] at htold
  split at htold
  case h_1 => exact htold.2
  case h_2 => exact htold.2
  case h_3 => exact absurd hstage htold.1

/-- A call that has claimed its location found it free, and one that found it claimed has been
skipped. -/
theorem found_of_open (htold : call.Told) (hopen : call.isOpen = true) :
    call.found = some false := by
  rw [Call.Told] at htold
  rw [Call.isOpen] at hopen
  split at htold
  case h_1 => rcases htold.1 with hstage | hstage <;> (rw [hstage] at hopen; cases hopen)
  case h_2 =>
    obtain ⟨⟨report, hstage, -⟩, -⟩ := htold
    rw [hstage] at hopen
    cases hopen
  case h_3 hfound => exact hfound

/-- A call that found its location free has nothing to answer for unless it reports a skip. -/
theorem told_of_free (hfound : call.found = some false) (hstage : call.stage ≠ .planned)
    (hskipped : ∀ report, call.stage = .reported report → report.skipped = false) : call.Told := by
  rw [Call.Told, hfound]
  exact ⟨hstage, hskipped⟩

/-- What a call has found at its beginning shows in its report; each step keeps it so. -/
theorem told_step (h : call.Step i c call' c') (htold : call.Told) : call'.Told := by
  cases h with
  | skip hstage hclaim =>
    have hconversations := conversations_of_planned htold hstage
    rw [Call.Told, Reconciler.claim?_eq_none hclaim]
    exact ⟨⟨_, rfl, rfl⟩, hconversations⟩
  | claim hstage hclaim =>
    have hfree : (c.reconciler i).inFlight.contains call.location = false :=
      Bool.eq_false_iff.mpr fun hcontains => (Reconciler.claim?_eq_some hclaim).1
        (Std.ExtTreeSet.contains_iff_mem.mp hcontains)
    exact told_of_free (congrArg some hfree) nofun nofun
  | idle hstage _ =>
    have hfound := found_of_open htold (Call.isOpen_of_claimed hstage)
    refine told_of_free hfound nofun ?_
    rintro report ⟨⟩
    rfl
  | begin hstage _ =>
    have hfound := found_of_open htold (Call.isOpen_of_claimed hstage)
    exact told_of_free hfound nofun nofun
  | talk hstage front x back _ =>
    have hfound := found_of_open htold (Call.isOpen_of_talking hstage)
    refine told_of_free hfound ?_ fun report => ?_ <;> (rw [hstage]; nofun)
  | close hstage rows _ =>
    have hfound := found_of_open htold (Call.isOpen_of_talking hstage)
    refine told_of_free hfound nofun ?_
    rintro report ⟨⟩
    exact (Cluster.ofResults_spec _ _ _).2

/-- A call that is broken off will not report, so there is nothing that it could have told wrongly.
-/
theorem told_breakOff (i : Fin n) (c : Cluster n) (htold : call.Told) :
    (call.breakOff i c).1.Told := by
  cases hstage : call.stage with
  | planned =>
    have hconversations := conversations_of_planned htold hstage
    simp only [Call.breakOff, hstage]
    rw [Call.Told] at htold ⊢
    split at htold
    case h_1 hfound =>
      rw [hfound]
      exact ⟨.inr rfl, hconversations⟩
    case h_2 =>
      obtain ⟨⟨report, hover, -⟩, -⟩ := htold
      rw [hstage] at hover
      cases hover
    case h_3 => exact absurd hstage htold.1
  | claimed =>
    have hfound := found_of_open htold (Call.isOpen_of_claimed hstage)
    simp only [Call.breakOff, hstage]
    exact told_of_free hfound (by rintro ⟨⟩) (by rintro _ ⟨⟩)
  | talking =>
    have hfound := found_of_open htold (Call.isOpen_of_talking hstage)
    simp only [Call.breakOff, hstage]
    exact told_of_free hfound (by rintro ⟨⟩) (by rintro _ ⟨⟩)
  | reported report | brokenOff =>
    simp only [Call.breakOff, hstage]
    exact htold

/-- One call has gone on, and the others stand where they stood. What has to be checked is that its
claim has shifted as its stage has. -/
theorem Sound.went (h : Sound i ⟨front ++ call :: back, c⟩)
    (hlocation : call'.location = call.location)
    (hshift : Call.Shift call.location call.isOpen (c.reconciler i).inFlight call'.isOpen
      (c'.reconciler i).inFlight)
    (htold : call'.Told) : Sound i ⟨front ++ call' :: back, c'⟩ := by
  obtain ⟨hnodup, hmem⟩ := exact_shift hlocation hshift h.nodup h.mem
  refine ⟨hnodup, hmem, ?_⟩
  obtain ⟨hfront, hback⟩ := List.forall_mem_append.mp h.told
  exact List.forall_mem_append.mpr
    ⟨hfront, List.forall_mem_cons.mpr ⟨htold, (List.forall_mem_cons.mp hback).2⟩⟩

/-- The step lemma, one case for a call that is planned, goes on, or is broken off. -/
theorem Sound.step (h : Sound i s) (hstep : Step i s s') : Sound i s' := by
  cases hstep with
  | arrive calls c location =>
    have hclaimed : claimed (calls ++ [.plan location]) = claimed calls := by
      rw [claimed_append, claimed_planned, List.append_nil]
    refine ⟨hclaimed.symm ▸ h.nodup, hclaimed.symm ▸ h.mem, List.forall_mem_append.mpr ⟨h.told, ?_⟩⟩
    exact List.forall_mem_singleton.mpr ⟨.inl rfl, rfl⟩
  | @go front back call call' c c' hstep =>
    have htold := h.told call (List.mem_append_right front List.mem_cons_self)
    exact h.went hstep.location hstep.shift (told_step hstep htold)
  | breakOff front back call c =>
    have htold := h.told call (List.mem_append_right front List.mem_cons_self)
    exact h.went (call.location_breakOff i c) (call.shift_breakOff i c) (told_breakOff i c htold)
  | elsewhere calls hsame => exact ⟨h.nodup, fun location => hsame ▸ h.mem location, h.told⟩

/-- By induction over the run, with `Sound.step` for each step. -/
theorem Sound.run (h : Sound i s) (hrun : Run i s s') : Sound i s' := by
  induction hrun with
  | refl => exact h
  | tail _ hstep ih => exact ih.step hstep

/-! ### Every run -/

theorem sound_nil (hfree : (c₀.reconciler i).inFlight = ∅) : Sound i ⟨[], c₀⟩ where
  nodup := List.nodup_nil
  mem _ := iff_of_false (hfree ▸ Std.ExtTreeSet.not_mem_empty) List.not_mem_nil
  told := List.forall_mem_nil _

/-- The open calls about a location are counted by its claims. -/
theorem countP_claimed (calls : List (Call n)) (location : Id) :
    calls.countP (fun call => call.isOpen && call.location = location) =
      (claimed calls).count location := by
  rw [claimed, List.count, List.countP_map, List.countP_filter]
  refine congrArg (List.countP · calls) (funext fun call => ?_)
  rw [Function.comp_apply, Bool.and_comm]
  rfl

/-- A call was skipped if and only if its location was claimed when it began. -/
theorem told_iff (htold : call.Told) : call.found = some true ↔
    ∃ report, call.stage = .reported report ∧ report.skipped = true := by
  rw [Call.Told] at htold
  split at htold
  case h_1 hfound =>
    rw [hfound]
    refine ⟨nofun, fun ⟨report, hover, _⟩ => ?_⟩
    rcases htold.1 with hstage | hstage <;> (rw [hstage] at hover; cases hover)
  case h_2 hfound =>
    rw [hfound]
    exact iff_of_true rfl htold.1
  case h_3 hfound =>
    rw [hfound]
    refine ⟨nofun, fun ⟨report, hover, hskipped⟩ => ?_⟩
    rw [htold.2 report hover] at hskipped
    cases hskipped

/-- However calls of a node follow one another or overlap, and whenever they are broken off: the
claimed locations are those with an open call, and each of them has just one; a call reports that it
was skipped if and only if its location was claimed when it began, and then it has sent nothing; and
without open calls nothing is claimed. -/
theorem calls_exclusive (hfree : (c₀.reconciler i).inFlight = ∅) (hrun : Run i ⟨[], c₀⟩ s) :
    (∀ location, s.calls.countP (fun call => call.isOpen && call.location = location) =
      if location ∈ (s.cluster.reconciler i).inFlight then 1 else 0) ∧
    (∀ call ∈ s.calls, (call.found = some true ↔
        ∃ report, call.stage = .reported report ∧ report.skipped = true) ∧
      (call.found = some true → call.requests = [])) ∧
    ((∀ call ∈ s.calls, call.isOpen = false) → (s.cluster.reconciler i).inFlight = ∅) := by
  have hsound := (sound_nil hfree).run hrun
  refine ⟨fun location => ?_,
    fun call hcall => ⟨told_iff (hsound.told call hcall), fun hfound => ?_⟩, fun hclosed => ?_⟩
  · rw [countP_claimed, hsound.nodup.count]
    exact if_congr (hsound.mem location).symm rfl rfl
  · have htold := hsound.told call hcall
    rw [Call.Told, hfound] at htold
    rw [Call.requests, htold.2, List.flatMap_nil]
  · refine Std.ExtTreeSet.eq_empty_iff_forall_not_mem.mpr fun location hmem => ?_
    obtain ⟨call, hcall, -⟩ := List.mem_map.mp ((hsound.mem location).mp hmem)
    obtain ⟨hcall, hopen⟩ := List.mem_filter.mp hcall
    rw [hclosed call hcall] at hopen
    cases hopen

/-- While a location is claimed a second call for it is skipped, and then the first one is broken
off. -/
theorem calls_exclusive_two_calls :
    let peer : Peer := ⟨.ofNat 1, .v4 [127, 0, 0, 1] (.ofNat 7001)⟩
    let config : ReplicationConfig := {}
    let asking : Reconciler :=
      ⟨config, ⟨config.factor, 0, config.factor.initialAvailability, 0, 0⟩, {}, ∅⟩
    let c : Cluster 1 :=
      .ofNodes #v[.ofStore (.ofPeers peer []) .empty config.blockSize] #v[asking] none
    (c.reconciler 0).inFlight = ∅ ∧ ∃ s, Run 0 ⟨[], c⟩ s ∧
      s.calls.map (·.found) = [some false, some true] ∧ (s.cluster.reconciler 0).inFlight = ∅ := by
  intro peer config asking c
  let location : Id := .ofNat 5
  let claiming : Reconciler := { asking with inFlight := asking.inFlight.insert location }
  let held : Call 1 := { location, stage := .claimed, found := some false }
  let skipped : Call 1 :=
    { location, stage := .reported { location, skipped := true }, found := some true }
  have hfirst : asking.inFlight.contains location = false := Std.ExtTreeSet.contains_empty
  have hsecond : claiming.inFlight.contains location = true :=
    Std.ExtTreeSet.contains_insert_self
  have hclaim : Call.Step 0 (.plan location) c held (c.setReconciler 0 claiming) := by
    have hstep := @Call.Step.claim 1 0 (.plan location) c claiming rfl
      (if_neg (ne_true_of_eq_false hfirst))
    rwa [show (c.reconciler 0).inFlight.contains (Call.plan location : Call 1).location = false
      from hfirst] at hstep
  have hskip : Call.Step 0 (.plan location) (c.setReconciler 0 claiming) skipped
      (c.setReconciler 0 claiming) := by
    have hstep := @Call.Step.skip 1 0 (.plan location) (c.setReconciler 0 claiming) rfl
      (if_pos hsecond)
    rwa [show ((c.setReconciler 0 claiming).reconciler 0).inFlight.contains
      (Call.plan location : Call 1).location = true from hsecond] at hstep
  have hrun : Run 0 ⟨[], c⟩ ⟨[{ held with stage := .brokenOff }, skipped],
      (c.setReconciler 0 claiming).release 0 location⟩ := by
    refine .head (.arrive [] c location) (.head (.go [] [] hclaim) ?_)
    refine .head (.arrive [held] _ location) (.head (.go [held] [] hskip) ?_)
    exact .single (.breakOff [] [skipped] held _)
  refine ⟨rfl, _, hrun, rfl, (calls_exclusive (rfl : (c.reconciler 0).inFlight = ∅) hrun).2.2 ?_⟩
  exact List.forall_mem_cons.mpr ⟨rfl, List.forall_mem_singleton.mpr rfl⟩

end Overlap

end DeltaMesh
