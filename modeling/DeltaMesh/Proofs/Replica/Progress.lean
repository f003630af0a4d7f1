import DeltaMesh.Proofs.Replica.Busy

/-!
# Requests come to an end

Whoever waits for a lock waits for a task that can go on, and every step brings the end nearer. So
the requests at a replica can always be served to the end, in whatever order they go on
(`Busy.Locked.exists_finishes`).
-/

namespace DeltaMesh

namespace Busy

/-- A request goes on. -/
inductive Goes (s : Busy) : Busy → Prop
  | intro (task : Nat) {q : Request} {stage : Stage} {status : Status} {s' : Busy}
      (hat : s.tasks[task]? = some (q, .active stage)) (h : Advance task s stage status s') :
    Goes s (s'.move task q status)

/-- No request is under way. -/
def Idle (s : Busy) : Prop := ∀ (task : Nat) (q : Request) (stage : Stage),
  s.tasks[task]? ≠ some (q, .active stage)

theorem Goes.step {s s' : Busy} (h : Goes s s') : Step s s' := by
  cases h with
  | intro task hat hadvance => exact .advance task hat hadvance

/-! ### What is left to do -/

/-- How many entries of a COPY come after a job. -/
def Job.rest : Job → Nat
  | put _ _ rest _ => rest.length
  | sync .. => 0

/-- A bound for the steps that a request has before it from a stage on. -/
def Stage.remaining : Stage → Nat
  | asks job => 8 * job.rest + 8
  | waits job => 8 * job.rest + 7
  | holds job => 8 * job.rest + 6
  | computes .. => 5
  | computed .. => 4
  | copyLeaves _ rest _ _ => 8 * rest.length + 3
  | syncLeaves .. => 3
  | settles .. => 2
  | ended _ => 1

def Status.remaining : Status → Nat
  | active stage => stage.remaining
  | answered _ | dropped _ => 0

/-- A bound for the steps that all requests have before them. -/
def remaining (s : Busy) : Nat := (s.tasks.map fun p => p.2.remaining).sum

variable {s s' : Busy} {task : Nat} {q : Request} {stage : Stage} {status : Status}

theorem Stage.remaining_copying_le (locations : List Id) (failure : Option StorageError)
    (rest : List (Key × ByteArray)) :
    (copying locations failure rest).remaining ≤ 8 * rest.length + 2 := by
  cases rest with
  | nil => exact Nat.le_refl _
  | cons => exact Nat.le_add_right _ 2

theorem Advance.remaining_lt (h : Advance task s stage status s') :
    status.remaining < stage.remaining := by
  cases h with
  | copyLeave key rest locations failure =>
    exact Nat.lt_succ_of_le (Stage.remaining_copying_le ..)
  | _ =>
    simp only [Status.remaining, Stage.remaining, Job.rest, List.length_nil]
    omega

theorem Goes.remaining_lt (h : Goes s s') : s'.remaining < s.remaining := by
  obtain @⟨task, q, stage, status, s', hat, hadvance⟩ := h
  obtain ⟨hlt, hget⟩ := List.getElem?_eq_some_iff.mp hat
  have hsplit : s.tasks = s.tasks.take task ++ s.tasks[task] :: s.tasks.drop (task + 1) := by
    rw [List.getElem_cons_drop, List.take_append_drop]
  have hless := hadvance.remaining_lt
  rw [Busy.remaining, Busy.remaining, move, hadvance.tasks, List.set_eq_take_append_cons_drop,
    if_pos hlt]
  conv_rhs => rw [hsplit, hget]
  have hself : (Status.active stage).remaining = stage.remaining := rfl
  simp only [List.map_append, List.map_cons, List.sum_append, List.sum_cons, hself]
  omega

/-! ### No one waits forever -/

/-- A request that does not wait for a lock can go on. There is one case for each stage; none is a
dead end. -/
theorem exists_advance (s : Busy) (task : Nat) (hwaits : ∀ job, stage ≠ .waits job) :
    ∃ status s', Advance task s stage status s' := by
  cases stage with
  | asks job => exact ⟨_, _, .ask job⟩
  | waits job => exact absurd rfl (hwaits job)
  | holds job =>
    cases job with
    | put key value rest locations =>
      obtain ⟨⟨written, r⟩, hwrite⟩ : ∃ written, s.replica.write key value = written := ⟨_, rfl⟩
      cases written with
      | ok => exact ⟨_, _, .write rest locations hwrite⟩
      | error => exact ⟨_, _, .writeFails rest locations hwrite⟩
    | sync key expectedHash delta =>
      by_cases hfound : (s.replica.store.get? key).map Id.ofContent = some expectedHash
      · exact ⟨_, _, .find delta hfound rfl⟩
      · exact ⟨_, _, .read delta hfound⟩
  | computes key expectedHash delta stored? => exact ⟨_, _, .compute key expectedHash delta stored?⟩
  | computed key expectedHash delta verdict => exact ⟨_, _, .carryOut expectedHash delta rfl⟩
  | copyLeaves key rest locations failure => exact ⟨_, _, .copyLeave key rest locations failure⟩
  | syncLeaves key result => exact ⟨_, _, .syncLeave key result⟩
  | settles locations failure => exact ⟨_, _, .settle locations failure rfl⟩
  | ended result => exact ⟨_, _, .answer rfl⟩

/-- A request gets the lock that it waits for if nobody holds it. -/
theorem Locked.exists_acquire (h : s.Locked) {job : Job}
    (hat : s.tasks[task]? = some (q, .active (.waits job)))
    (hfree : ∀ other, s.claim? other ≠ some (job.key, .holding)) :
    ∃ locks, s.replica.locks.acquire? task = some locks :=
  h.inOrder.exists_acquire ((h.refers_iff hat).mpr rfl) fun other hrefers =>
    hfree other ((h.claimed ..).mp hrefers)

/-- Either the lock that a request waits for is free, or the one who holds it can go on. -/
theorem Locked.exists_goes (h : s.Locked) (hat : s.tasks[task]? = some (q, .active stage)) :
    ∃ s', Goes s s' := by
  by_cases hwaits : ∃ job, stage = .waits job
  · obtain ⟨job, rfl⟩ := hwaits
    by_cases hheld : ∃ other, s.claim? other = some (job.key, .holding)
    · obtain ⟨other, hclaim⟩ := hheld
      obtain ⟨⟨q', status⟩, hother, hclaim⟩ := Option.bind_eq_some_iff.mp hclaim
      cases status with
      | active stage =>
        have hholds : ∀ job, stage ≠ .waits job := by
          rintro job rfl
          cases (Prod.mk.inj (Option.some.inj hclaim)).2
        obtain ⟨status, s', hadvance⟩ := s.exists_advance other hholds
        exact ⟨_, .intro other hother hadvance⟩
      | answered | dropped => cases hclaim
    · obtain ⟨locks, hacquire⟩ := h.exists_acquire hat fun other hclaim => hheld ⟨other, hclaim⟩
      exact ⟨_, .intro task hat (.take job hacquire)⟩
  · obtain ⟨status, s', hadvance⟩ := s.exists_advance task fun job heq => hwaits ⟨job, heq⟩
    exact ⟨_, .intro task hat hadvance⟩

/-! ### To the end -/

/-- Requests go on: none comes in, and none is dropped. -/
structure Onward (s s' : Busy) : Prop where
  length : s'.tasks.length = s.tasks.length
  active : ∀ (task : Nat) (q : Request) (stage : Stage),
    s.tasks[task]? = some (q, .active stage) →
      ∃ status, s'.tasks[task]? = some (q, status) ∧ ∀ last, status ≠ .dropped last
  kept : ∀ (task : Nat) (q : Request) (status : Status), s.tasks[task]? = some (q, status) →
    (∀ stage, status ≠ .active stage) → s'.tasks[task]? = some (q, status)

theorem Onward.refl (s : Busy) : Onward s s where
  length := rfl
  active _ _ stage hat := ⟨.active stage, hat, fun _ heq => nomatch heq⟩
  kept _ _ _ hat _ := hat

theorem Onward.trans {s'' : Busy} (h : Onward s s') (h' : Onward s' s'') : Onward s s'' where
  length := h'.length.trans h.length
  active task q stage hat := by
    obtain ⟨status, hat', hkept⟩ := h.active task q stage hat
    cases status with
    | active stage' => exact h'.active task q stage' hat'
    | answered response =>
      exact ⟨_, h'.kept task q _ hat' (fun _ heq => nomatch heq), fun _ heq => nomatch heq⟩
    | dropped last => exact absurd rfl (hkept last)
  kept task q status hat hnot := h'.kept task q status (h.kept task q status hat hnot) hnot

theorem Advance.ne_dropped (h : Advance task s stage status s') (last : Stage) :
    status ≠ .dropped last := by
  cases h <;> exact fun heq => nomatch heq

theorem Goes.onward (h : Goes s s') : Onward s s' := by
  obtain @⟨task, q, stage, status, s', hat, hadvance⟩ := h
  have hlt := (List.getElem?_eq_some_iff.mp hat).1
  have hother : ∀ other, other ≠ task →
      (s'.move task q status).tasks[other]? = s.tasks[other]? := by
    intro other hne
    rw [move, hadvance.tasks, List.getElem?_set_ne hne.symm]
  refine ⟨by rw [move, List.length_set, hadvance.tasks], fun other q' stage' hat' => ?_,
    fun other q' status' hat' hnot => ?_⟩
  · by_cases heq : other = task
    · subst heq
      obtain ⟨rfl, -⟩ := Prod.mk.inj (Option.some.inj (hat'.symm.trans hat))
      refine ⟨status, ?_, hadvance.ne_dropped⟩
      rw [move, hadvance.tasks, List.getElem?_set_self hlt]
    · exact ⟨_, (hother other heq).trans hat', fun _ heq => by cases heq⟩
  · refine (hother other ?_).trans hat'
    rintro rfl
    exact hnot stage (Prod.mk.inj (Option.some.inj (hat'.symm.trans hat))).2

/-- All requests that were under way are answered. -/
structure Finishes (s s' : Busy) : Prop where
  goes : Relation.ReflTransGen Goes s s'
  length : s'.tasks.length = s.tasks.length
  answered : ∀ (task : Nat) (q : Request) (stage : Stage),
    s.tasks[task]? = some (q, .active stage) →
      ∃ response, s'.tasks[task]? = some (q, .answered response)
  kept : ∀ (task : Nat) (q : Request) (status : Status), s.tasks[task]? = some (q, status) →
    (∀ stage, status ≠ .active stage) → s'.tasks[task]? = some (q, status)

theorem Finishes.reached {r : Replica} (h : Finishes s s') (hs : Reached r s) : Reached r s' :=
  hs.trans (h.goes.lift id fun _ _ => Goes.step)

/-- Some way of going on comes to a state with no request under way. -/
theorem Locked.exists_idle (h : s.Locked) :
    ∃ s', Relation.ReflTransGen Goes s s' ∧ Onward s s' ∧ s'.Idle := by
  -- by induction on the steps that are left at most
  induction hsize : s.remaining using Nat.strongRecOn generalizing s with
  | ind size ih =>
    by_cases hidle : s.Idle
    · exact ⟨s, .refl, .refl s, hidle⟩
    · simp only [Idle, not_forall, not_not] at hidle
      obtain ⟨task, q, stage, hat⟩ := hidle
      obtain ⟨next, hgoes⟩ := h.exists_goes hat
      obtain ⟨s', hruns, honward, hidle⟩ :=
        ih _ (hsize ▸ hgoes.remaining_lt) (h.step hgoes.step) rfl
      exact ⟨s', .head hgoes hruns, hgoes.onward.trans honward, hidle⟩

/-- The requests that are under way can be served to the end: whoever holds a lock can go on, and a
request that waits for one holds none. -/
theorem Locked.exists_finishes (h : s.Locked) : ∃ s', Finishes s s' := by
  obtain ⟨s', hruns, honward, hidle⟩ := h.exists_idle
  refine ⟨s', hruns, honward.length, fun task q stage hat => ?_, honward.kept⟩
  obtain ⟨status, hat', hkept⟩ := honward.active task q stage hat
  cases status with
  | active stage' => exact absurd hat' (hidle task q stage')
  | answered response => exact ⟨response, hat'⟩
  | dropped last => exact absurd rfl (hkept last)

end Busy

end DeltaMesh
