import DeltaMesh.Proofs.Replica.Answers
import DeltaMesh.Proofs.Replica.Progress

/-!
# What the tracker hears of the values stored

The log of a busy replica tells all that was stored and all that the tracker was told
(`Busy.Reached.records`). A SYNC tells the tracker as soon as it has stored a value, a COPY when it
is done with its entries or has failed at one. So once no request is under way the tracker was told
of every value after it was stored, unless a COPY had stored it that was dropped while it waited for
the lock of a later entry (`Busy.stored_told`); of such a value the tracker never hears
(`Busy.exists_untold`).
-/

namespace DeltaMesh

namespace Busy

/-! ### The log -/

/-- What is stored after something was done. -/
def Mark.store : Mark → Entries → Entries
  | stored _ key value, entries => entries.insert key value
  | told _, entries => entries

/-- What the tracker knows after something was done. -/
def Mark.tell (d : Directory) : Mark → Tracker → Tracker
  | stored .., t => t
  | told location, t => t.notify d location

/-- All that was done from `r` to `r'` with the values and the tracker, latest first. -/
structure Records (marks : List Mark) (r r' : Replica) : Prop where
  directory : r'.directory = r.directory
  entries : r'.store.entries = marks.foldr Mark.store r.store.entries
  tracker : r'.tracker = marks.foldr (Mark.tell r.directory) r.tracker

/-- What is recorded in two stretches one after the other, latest first. -/
theorem Records.trans {marks later : List Mark} {r r' r'' : Replica} (h : Records marks r r')
    (hlater : Records later r' r'') : Records (later ++ marks) r r'' where
  directory := hlater.directory.trans h.directory
  entries := by rw [hlater.entries, List.foldr_append, h.entries]
  tracker := by rw [hlater.tracker, List.foldr_append, h.tracker, h.directory]

/-- A write records that a value was stored, if it was. The tracker has not heard of it yet. -/
theorem records_write {r r' : Replica} {key : Key} {value : ByteArray}
    {result : Except StorageError Unit} (h : r.write key value = (result, r')) (task : Nat) :
    Records (match result with
      | .ok () => [.stored task key value]
      | .error _ => []) r r' := by
  rw [Replica.write, Store.put] at h
  cases hfault : r.store.fault r.store.tried key value with
  | some why =>
    rw [hfault] at h
    obtain ⟨rfl, rfl⟩ := Prod.mk.inj h
    exact ⟨rfl, rfl, rfl⟩
  | none =>
    rw [hfault] at h
    obtain ⟨rfl, rfl⟩ := Prod.mk.inj h
    exact ⟨rfl, rfl, rfl⟩

/-- The end of a SYNC records the value stored and then, the tracker having heard of it, the
location told. -/
theorem records_settleSync {r r' : Replica} {key : Key}
    {verdict : Except ExchangeError (Option ByteArray)} {result : Except ExchangeError Response}
    (h : r.settleSync key verdict = (result, r')) (task : Nat) :
    Records (syncMarks task key verdict result) r r' := by
  match verdict with
  | .error _ | .ok none =>
    obtain ⟨rfl, rfl⟩ := Prod.mk.inj h
    exact ⟨rfl, rfl, rfl⟩
  | .ok (some value) =>
    cases hfault : r.store.fault r.store.tried key value with
    | some why =>
      rw [Replica.settleSync, r.putLocal_of_fault key hfault] at h
      obtain ⟨rfl, rfl⟩ := Prod.mk.inj h
      exact ⟨rfl, rfl, rfl⟩
    | none =>
      rw [Replica.settleSync, r.putLocal_of_no_fault key hfault] at h
      obtain ⟨rfl, rfl⟩ := Prod.mk.inj h
      exact ⟨rfl, rfl, rfl⟩

/-- The end of a COPY tells the tracker of every location that it wrote to, each once. -/
theorem records_settleCopy {r r' : Replica} {locations : List Id} {failure : Option StorageError}
    {result : Except ExchangeError Response} (h : r.settleCopy locations failure = (result, r')) :
    Records ((Replica.distinctLocations locations).map Mark.told).reverse r r' := by
  obtain rfl := settleCopy_eq h
  refine ⟨rfl, ?_, ?_⟩
  · rw [List.foldr_reverse, List.foldl_map]
    exact (List.foldl_fixed _).symm
  · rw [List.foldr_reverse, List.foldl_map]
    rfl

variable {r : Replica} {s s' : Busy} {task : Nat} {q : Request} {stage : Stage} {status : Status}

/-- Every advance of a request adds its marks to the log, and the replica has moved as they say. -/
theorem records_advance (h : Advance task s stage status s') :
    ∃ marks, s'.log = marks ++ s.log ∧ Records marks s.replica s'.replica := by
  cases h with
  | ask | take | read | compute | copyLeave | syncLeave => exact ⟨[], rfl, rfl, rfl, rfl⟩
  | write rest locations hwrite => exact ⟨_, rfl, records_write hwrite task⟩
  | writeFails rest locations hwrite => exact ⟨_, rfl, records_write hwrite task⟩
  | find delta hfound hsettle => exact ⟨_, rfl, records_settleSync hsettle task⟩
  | carryOut expectedHash delta hsettle => exact ⟨_, rfl, records_settleSync hsettle task⟩
  | settle locations failure hsettle => exact ⟨_, rfl, records_settleCopy hsettle⟩
  | answer hrespond =>
    obtain ⟨served, rfl⟩ := respond_eq hrespond
    exact ⟨[], rfl, rfl, rfl, rfl⟩

/-- Every step of a run adds its marks to the log. Arrivals, drops and changes of the locks record
nothing. -/
theorem records_step (h : Step s s') :
    ∃ marks, s'.log = marks ++ s.log ∧ Records marks s.replica s'.replica := by
  cases h with
  | arrive q henter =>
    obtain ⟨-, -, served, rfl⟩ := enter?_eq henter
    exact ⟨[], rfl, rfl, rfl, rfl⟩
  | advance task hat hadvance =>
    obtain ⟨marks, hlog, hrecords⟩ := records_advance hadvance
    exact ⟨marks, hlog, hrecords⟩
  | @drop task q stage hat =>
    refine ⟨[], s.log_abandon task stage, ?_⟩
    show Records [] s.replica (s.abandon task stage).replica
    rw [replica_abandon]
    exact ⟨rfl, rfl, rfl⟩

/-- The values and the tracker are what the log makes of those at the beginning. -/
theorem Reached.records (h : Reached r s) : Records s.log r s.replica := by
  induction h with
  | refl => exact ⟨rfl, rfl, rfl⟩
  | tail _ hstep ih =>
    obtain ⟨marks, hlog, hrecords⟩ := records_step hstep
    rw [hlog]
    exact ih.trans hrecords

/-! ### Stored and not told -/

/-- The locations of the values that a request has stored before it comes to this job. -/
def Job.locations : Job → List Id
  | put _ _ _ locations => locations
  | sync .. => []

/-- Where a request has stored values that the tracker was not told of. -/
def Stage.untold : Stage → List Id
  | asks job | waits job | holds job => job.locations
  | copyLeaves _ _ locations _ | settles locations _ => locations
  | computes .. | computed .. | syncLeaves .. | ended _ => []

def Status.untold : Status → List Id
  | active stage | dropped stage => stage.untold
  | answered _ => []

theorem Stage.untold_copying (locations : List Id) (failure : Option StorageError)
    (rest : List (Key × ByteArray)) : (copying locations failure rest).untold = locations := by
  cases rest <;> rfl

/-- A request has stored a value under this location, and has yet to tell the tracker. -/
def Owes (s : Busy) (task : Nat) (location : Id) : Prop :=
  ∃ q status, s.tasks[task]? = some (q, status) ∧ location ∈ status.untold

/-- The tracker was told of each value in a log after it was stored, or else it is owed to it. -/
def Accounted (owes : Nat → Id → Prop) : List Mark → Prop
  | [] => True
  | .stored task key _ :: older => owes task key.location ∧ Accounted owes older
  | .told location :: older =>
    Accounted (fun task other => other = location ∨ owes task other) older

section

variable {owes owes' : Nat → Id → Prop} {log : List Mark}

/-- A log stays accounted for if more is owed. -/
theorem Accounted.mono (h : Accounted owes log)
    (howes : ∀ task location, owes task location → owes' task location) :
    Accounted owes' log := by
  induction log generalizing owes owes' with
  | nil => trivial
  | cons mark older ih =>
    cases mark with
    | stored task key value => exact ⟨howes task _ h.1, ih h.2 howes⟩
    | told location => exact ih h fun task other => Or.imp_right (howes task other)

/-- Once the tracker has been told of all its locations a request owes nothing about them. -/
theorem Accounted.told_all (locations : List Id)
    (h : Accounted (fun task location => location ∈ locations ∨ owes task location) log) :
    Accounted owes (locations.map Mark.told ++ log) := by
  induction locations generalizing owes with
  | nil => exact h.mono fun _ _ howes => howes.resolve_left List.not_mem_nil
  | cons location locations ih =>
    refine ih (h.mono fun task other howes => ?_)
    rw [List.mem_cons, or_assoc, or_left_comm] at howes
    exact howes

/-- Where a value was stored, the tracker was told of it later or it is owed to it. -/
theorem Accounted.told_or_owes (h : Accounted owes log) {newer older : List Mark} {task : Nat}
    {key : Key} {value : ByteArray} (hlog : log = newer ++ .stored task key value :: older) :
    .told key.location ∈ newer ∨ owes task key.location := by
  induction newer generalizing owes log with
  | nil =>
    subst hlog
    exact .inr h.1
  | cons mark newer ih =>
    subst hlog
    cases mark with
    | stored => exact (ih h.2 rfl).imp_left (List.mem_cons_of_mem _)
    | told location =>
      have hrest : Accounted (fun task other => other = location ∨ owes task other)
        (newer ++ .stored task key value :: older) := h
      rcases ih hrest rfl with htold | heq | howes
      · exact .inl (List.mem_cons_of_mem _ htold)
      · exact .inl (heq ▸ List.mem_cons_self)
      · exact .inr howes

end

section

variable (hat : s.tasks[task]? = some (q, .active stage)) (htasks : s'.tasks = s.tasks)

include hat htasks

theorem owes_self {location : Id} (h : location ∈ status.untold) :
    (s'.move task q status).Owes task location := by
  refine ⟨q, status, ?_, h⟩
  rw [move, htasks, List.getElem?_set_self (List.getElem?_eq_some_iff.mp hat).1]

/-- A task that moves owes what it owed before, or has settled it; no debt is lost otherwise. -/
theorem Owes.moved {other : Nat} {location : Id} (h : s.Owes other location) :
    location ∈ stage.untold ∧ other = task ∨ (s'.move task q status).Owes other location := by
  obtain ⟨q', status', hat', hmem⟩ := h
  by_cases heq : other = task
  · subst heq
    obtain ⟨rfl, rfl⟩ := Prod.mk.inj (Option.some.inj (hat.symm.trans hat'))
    exact .inl ⟨hmem, rfl⟩
  · refine .inr ⟨q', status', ?_, hmem⟩
    rw [move, htasks, List.getElem?_set_ne (Ne.symm heq)]
    exact hat'

/-- What one request does leaves the debts of the others as they are. -/
theorem Owes.kept (huntold : ∀ location ∈ stage.untold, location ∈ status.untold) {other : Nat}
    {location : Id} (h : s.Owes other location) : (s'.move task q status).Owes other location := by
  rcases h.moved hat htasks with ⟨hmem, rfl⟩ | howes
  · exact owes_self hat htasks (huntold location hmem)
  · exact howes

end

/-- The step lemma: a value that an advance stores is owed by the task that stored it, and a debt
disappears only if the location is told. -/
theorem accounted_advance (h : Accounted s.Owes s.log)
    (hat : s.tasks[task]? = some (q, .active stage)) (hadvance : Advance task s stage status s') :
    Accounted (s'.move task q status).Owes s'.log := by
  cases hadvance with
  | ask | take | read | compute | syncLeave | writeFails | find | answer =>
    exact h.mono fun _ _ => Owes.kept hat rfl fun _ => id
  | write rest locations hwrite =>
    exact ⟨owes_self hat rfl List.mem_cons_self,
      h.mono fun _ _ => Owes.kept hat rfl fun _ => List.mem_cons_of_mem _⟩
  | @carryOut key expectedHash delta verdict result r hsettle =>
    -- a SYNC has nothing on its list: what it stores it tells of in the same step
    have hothers : Accounted
        (((s.withReplica r).closes key .ended).move task q (.active (.syncLeaves key result))).Owes
        s.log := h.mono fun _ _ => Owes.kept hat rfl fun _ => id
    match verdict, result with
    | .ok (some value), .ok response =>
      exact ⟨.inl rfl, hothers.mono fun _ _ => .inr⟩
    | .ok (some value), .error why | .ok none, _ | .error why, _ => exact hothers
  | copyLeave key rest locations failure =>
    refine h.mono fun _ _ => Owes.kept hat rfl fun location hmem => ?_
    rw [Status.untold, Stage.untold_copying]
    exact hmem
  | @settle locations failure result r hsettle =>
    -- the list may name a location twice, the tracker is told of it once
    show Accounted _ (_ ++ s.log)
    rw [← List.map_reverse]
    refine Accounted.told_all _ (h.mono fun other location howes => ?_)
    rw [List.mem_reverse, Replica.mem_distinctLocations]
    exact (howes.moved hat rfl).imp_left And.left

/-- What a request that was dropped may owe. -/
structure Tracked (s : Busy) : Prop where
  accounted : Accounted s.Owes s.log
  suspended : ∀ (task : Nat) (q : Request) (last : Stage),
    s.tasks[task]? = some (q, .dropped last) → last.Suspended

/-- The frame of the step lemma, for any request that takes a new status. -/
theorem Tracked.moved (h : Tracked s) (hat : s.tasks[task]? = some (q, .active stage))
    (htasks : s'.tasks = s.tasks) (haccounted : Accounted (s'.move task q status).Owes s'.log)
    (hsuspended : ∀ last, status = .dropped last → last.Suspended) :
    Tracked (s'.move task q status) := by
  refine ⟨haccounted, fun other q' last hdropped => ?_⟩
  rw [move, htasks, List.getElem?_set] at hdropped
  split at hdropped
  case isTrue =>
    rw [if_pos (List.getElem?_eq_some_iff.mp hat).1] at hdropped
    exact hsuspended last (Prod.mk.inj (Option.some.inj hdropped)).2
  case isFalse => exact h.suspended other q' last hdropped

/-- Arrivals, drops, locks and advances all keep every stored value either told or owed. -/
theorem Tracked.step (h : Tracked s) (hstep : Step s s') : Tracked s' := by
  cases hstep with
  | @arrive q stage r henter =>
    have hprefix : ∀ (task : Nat) (p : Request × Status), s.tasks[task]? = some p →
        (s.arrives r q stage).tasks[task]? = some p := fun task p hat =>
      (List.getElem?_append_left (List.getElem?_eq_some_iff.mp hat).1).trans hat
    refine ⟨h.accounted.mono fun task location ⟨q', status, hat, hmem⟩ =>
      ⟨q', status, hprefix task _ hat, hmem⟩, fun task q' last hdropped => ?_⟩
    rw [arrives, List.getElem?_append] at hdropped
    split at hdropped
    case isTrue => exact h.suspended task q' last hdropped
    case isFalse =>
      cases (Prod.mk.inj (List.mem_singleton.mp (List.mem_of_getElem? hdropped))).2
  | advance task hat hadvance =>
    exact h.moved hat hadvance.tasks (accounted_advance h.accounted hat hadvance) fun last heq =>
      absurd heq (hadvance.ne_dropped last)
  | @drop task q stage hat hsuspended =>
    have htasks := s.tasks_abandon task stage
    refine h.moved hat htasks ?_ fun last heq => Status.dropped.inj heq ▸ hsuspended
    rw [log_abandon]
    exact h.accounted.mono fun _ _ => Owes.kept hat htasks fun _ => id

/-- By induction over the run, with `Tracked.step` for each step. -/
theorem Reached.tracked (h : Reached r s) : Tracked s := by
  induction h with
  | refl => exact ⟨trivial, fun _ _ _ hat => nomatch hat⟩
  | tail _ hstep ih => exact ih.step hstep

/-- In whatever order the steps of COPY and SYNC requests come, wherever requests are dropped and
whatever writes fail: once no request is under way, the tracker was told of each value after it was
stored, unless a COPY that had stored it was dropped while it waited for the lock of a later
entry. -/
theorem stored_told (h : Reached r s) (hidle : s.Idle) :
    s.replica.store.entries = s.log.foldr Mark.store r.store.entries ∧
    s.replica.tracker = s.log.foldr (Mark.tell r.directory) r.tracker ∧
    ∀ newer task key value older, s.log = newer ++ Mark.stored task key value :: older →
      .told key.location ∈ newer ∨ ∃ q later value' rest locations,
        s.tasks[task]? = some (q, .dropped (.waits (.put later value' rest locations))) ∧
          key.location ∈ locations := by
  refine ⟨h.records.entries, h.records.tracker, fun newer task key value older hlog => ?_⟩
  refine (h.tracked.accounted.told_or_owes hlog).imp_right ?_
  rintro ⟨q, status, hat, hmem⟩
  cases status with
  | active stage => exact absurd hat (hidle task q stage)
  | answered => cases hmem
  | dropped last =>
    cases h.tracked.suspended task q last hat with
    | waits job =>
      cases job with
      | put later value' rest locations => exact ⟨q, later, value', rest, locations, hat, hmem⟩
      | sync => cases hmem
    | computes | computed => cases hmem

/-! ### A value that the tracker never hears of -/

/-- Some state with these requests and this log can be come to. -/
def Reaches (r : Replica) (tasks : List (Request × Status)) (log : List Mark) : Prop :=
  ∃ s, Reached r s ∧ s.tasks = tasks ∧ s.log = log

namespace Reaches

variable {tasks : List (Request × Status)} {log : List Mark}

theorem arrive (h : Reaches r tasks log) {count : Replica → Replica}
    (henter : ∀ r', enter? r' q = some (stage, count r')) :
    Reaches r (tasks ++ [(q, .active stage)]) log := by
  obtain ⟨s, hreached, rfl, rfl⟩ := h
  exact ⟨_, hreached.tail (.arrive q (henter _)), rfl, rfl⟩

theorem ask (task : Nat) (h : Reaches r tasks log) {job : Job}
    (hat : tasks[task]? = some (q, .active (.asks job))) :
    Reaches r (tasks.set task (q, .active (.waits job))) log := by
  obtain ⟨s, hreached, rfl, rfl⟩ := h
  exact ⟨_, hreached.tail (.advance task hat (.ask job)), rfl, rfl⟩

theorem drop (task : Nat) (h : Reaches r tasks log) {job : Job}
    (hat : tasks[task]? = some (q, .active (.waits job))) :
    Reaches r (tasks.set task (q, .dropped (.waits job))) log := by
  obtain ⟨s, hreached, rfl, rfl⟩ := h
  exact ⟨_, hreached.tail (.drop task hat (.waits job)), rfl, rfl⟩

/-- A COPY that has stored its last value tells the tracker and answers. -/
theorem finish (task : Nat) (h : Reaches r tasks log) {locations : List Id}
    {failure : Option StorageError}
    (hat : tasks[task]? = some (q, .active (.settles locations failure))) :
    ∃ response, Reaches r (tasks.set task (q, .answered response))
      (((Replica.distinctLocations locations).map Mark.told).reverse ++ log) := by
  obtain ⟨s, hreached, rfl, rfl⟩ := h
  obtain ⟨⟨result, told⟩, hsettle⟩ :
    ∃ ended, s.replica.settleCopy locations failure = ended := ⟨_, rfl⟩
  obtain ⟨⟨response, answered⟩, hrespond⟩ :
    ∃ ended, Replica.respond (result, told.pruneLocks) = ended := ⟨_, rfl⟩
  have hends : Advance task s _ _ _ := .settle locations failure hsettle
  have hended := hreached.tail (.advance task hat hends)
  exact ⟨response, _, hended.tail (.advance task (hends.getElem?_tasks hat) (.answer hrespond)),
    List.set_set .., rfl⟩

section

variable (hlocks : KeyLocks.Reached r.locks) (hfree : r.locks.claims = [])

include hlocks hfree

theorem take (task : Nat) (h : Reaches r tasks log) {job : Job}
    (hat : tasks[task]? = some (q, .active (.waits job)))
    (hothers : ∀ p ∈ tasks, p.2.claim? ≠ some (job.key, .holding)) :
    Reaches r (tasks.set task (q, .active (.holds job))) log := by
  obtain ⟨s, hreached, rfl, rfl⟩ := h
  obtain ⟨locks, hacquire⟩ :=
    (hreached.locked hlocks hfree).exists_acquire hat fun other hclaim => by
    obtain ⟨p, hother, hshow⟩ := Option.bind_eq_some_iff.mp hclaim
    exact hothers p (List.mem_of_getElem? hother) hshow
  exact ⟨_, hreached.tail (.advance task hat (.take job hacquire)), rfl, rfl⟩

/-- A COPY that holds a lock stores the value and gives the lock back. -/
theorem store (task : Nat) (hmemory : ∀ tried key value, r.store.fault tried key value = none)
    (h : Reaches r tasks log) {key : Key} {value : ByteArray} {rest : List (Key × ByteArray)}
    {locations : List Id}
    (hat : tasks[task]? = some (q, .active (.holds (.put key value rest locations)))) :
    Reaches r (tasks.set task (q, .active (.copying (key.location :: locations) none rest)))
      (.stored task key value :: log) := by
  obtain ⟨s, hreached, rfl, rfl⟩ := h
  have hwrite : ∃ r', s.replica.write key value = (.ok (), r') := by
    rw [Replica.write, Store.put,
      (hreached.serialized_faithful hlocks hfree hmemory).1.memory]
    exact ⟨_, rfl⟩
  obtain ⟨r', hwrite⟩ := hwrite
  have hstores : Advance task s _ _ _ := .write rest locations hwrite
  have hstored := hreached.tail (.advance task hat hstores)
  exact ⟨_, hstored.tail (.advance task (hstores.getElem?_tasks hat) (.copyLeave ..)),
    List.set_set .., rfl⟩

end

end Reaches

/-- A COPY has stored its first value and waits for the lock of the second key, which another COPY
holds; there it is dropped. When the other one has ended, no request is under way. -/
theorem exists_untold {r : Replica} (hlocks : KeyLocks.Reached r.locks)
    (hfree : r.locks.claims = [])
    (hmemory : ∀ tried key value, r.store.fault tried key value = none)
    {held entries : Entries} {first second : Key} {value value' other : ByteArray}
    (hheld : held.toList = [(second, other)])
    (hentries : entries.toList = [(first, value), (second, value')]) (hne : first ≠ second) :
    ∃ response, Reaches r
      [(.copy held 0, .answered response),
        (.copy entries 0, .dropped (.waits (.put second value' [] [first.location])))]
      [.told second.location, .stored 0 second other, .stored 1 first value] := by
  have hbegins : ∀ r' : Replica, enter? r' (.copy held 0) =
      some (.asks (.put second other [] []), r'.countCopy) := fun r' => by
    rw [enter?, hheld]
    rfl
  have hfollows : ∀ r' : Replica, enter? r' (.copy entries 0) =
      some (.asks (.put first value [(second, value')] []), r'.countCopy) := fun r' => by
    rw [enter?, hentries]
    rfl
  have hholds : Reaches r [(.copy held 0, .active (.holds (.put second other [] [])))] [] := by
    have hwaits := (Reaches.arrive ⟨start r, .refl, rfl, rfl⟩ hbegins).ask 0 rfl
    exact hwaits.take hlocks hfree 0 rfl fun p hp => by
      rw [List.mem_singleton.mp hp]
      exact fun hclaim => nomatch hclaim
  have hwaits : Reaches r [(.copy held 0, .active (.holds (.put second other [] []))),
      (.copy entries 0, .active (.waits (.put second value' [] [first.location])))]
      [.stored 1 first value] := by
    have hfirst := (hholds.arrive hfollows).ask 1 rfl
    refine ((hfirst.take hlocks hfree 1 rfl fun p hp hclaim => ?_).store hlocks hfree 1 hmemory
      rfl).ask 1 rfl
    rcases List.mem_pair.mp hp with rfl | rfl
    · exact hne (Prod.mk.inj (Option.some.inj hclaim)).1.symm
    · cases hclaim
  obtain ⟨response, hended⟩ :=
    ((hwaits.drop 1 rfl).store hlocks hfree 0 hmemory rfl).finish 0 rfl
  exact ⟨response, hended⟩

/-- A replica that has just begun, and two keys under different locations. Of two COPYs the second
one stores its first value and is dropped while it waits for the lock of its other key, which the
first one holds. -/
theorem exists_untold_three :
    let first := Key.firstUnder .zero
    let second := Key.firstUnder .max
    let r := Replica.ofStore (.alone default) .empty 1
    ∃ s, Reached r s ∧ s.Idle ∧ s.log =
      [.told second.location, .stored 0 second ⟨#[4]⟩, .stored 1 first ⟨#[1, 2, 3]⟩] := by
  intro first second r
  have hheld : (Entries.ofPairs [(second, ⟨#[4]⟩)]).toList = [(second, ⟨#[4]⟩)] :=
    Entries.toList_ofPairs_single second ⟨#[4]⟩
  have hentries : (Entries.ofPairs [(first, ⟨#[1, 2, 3]⟩), (second, ⟨#[5, 6]⟩)]).toList =
      [(first, ⟨#[1, 2, 3]⟩), (second, ⟨#[5, 6]⟩)] := by
    decide +kernel
  have hlocks : KeyLocks.Reached r.locks := .refl
  obtain ⟨response, s, hreached, htasks, hlog⟩ :=
    exists_untold hlocks rfl (fun _ _ _ => rfl) hheld hentries (by decide)
  refine ⟨s, hreached, fun task q stage hat => ?_, hlog⟩
  rw [htasks] at hat
  rcases List.mem_pair.mp (List.mem_of_getElem? hat) with heq | heq <;>
    cases (Prod.mk.inj heq).2

/-- What is left to tell is that of the COPY that was dropped; everything else that was stored was
told. -/
theorem stored_told_dropped_copy :
    let first := Key.firstUnder .zero
    ∃ s, Reached (Replica.ofStore (.alone default) .empty 1) s ∧ s.Idle ∧
      s.replica.store.get? first = some ⟨#[1, 2, 3]⟩ ∧
      ∃ q later value rest locations,
        s.tasks[1]? = some (q, .dropped (.waits (.put later value rest locations))) ∧
          first.location ∈ locations := by
  obtain ⟨s, hreached, hidle, hlog⟩ := exists_untold_three
  obtain ⟨hentries, -, htold⟩ := stored_told hreached hidle
  refine ⟨s, hreached, hidle, ?_, ?_⟩
  · rw [Store.get?, hentries, hlog]
    decide +kernel
  · refine (htold [_, _] 1 _ _ [] hlog).resolve_left fun htold => ?_
    rcases List.mem_pair.mp htold with heq | heq
    · exact absurd (Mark.told.inj heq) (by decide)
    · cases heq

/-- A value is stored and in place, nothing is under way, and the tracker was never told of it: the
node owns its location and is not responsible for it. -/
theorem stored_not_told :
    let first := Key.firstUnder .zero
    ∃ s, Reached (Replica.ofStore (.alone default) .empty 1) s ∧ s.Idle ∧
      .stored 1 first ⟨#[1, 2, 3]⟩ ∈ s.log ∧ .told first.location ∉ s.log ∧
      s.replica.store.get? first = some ⟨#[1, 2, 3]⟩ ∧
      s.replica.directory.owner first.location = s.replica.directory.self ∧
      first.location ∉ s.replica.tracker.owned := by
  obtain ⟨s, hreached, hidle, hlog⟩ := exists_untold_three
  have hrecords := hreached.records
  refine ⟨s, hreached, hidle, ?_, ?_, ?_, ?_, ?_⟩
  · rw [hlog]
    exact List.mem_cons_of_mem _ (List.mem_cons_of_mem _ List.mem_cons_self)
  · rw [hlog]
    simp only [List.mem_cons, Mark.told.injEq, reduceCtorEq, List.not_mem_nil, or_false]
    decide
  · rw [Store.get?, hrecords.entries, hlog]
    decide +kernel
  · rw [hrecords.directory]
    decide +kernel
  · rw [hrecords.tracker, hlog]
    decide +kernel

end Busy

end DeltaMesh
