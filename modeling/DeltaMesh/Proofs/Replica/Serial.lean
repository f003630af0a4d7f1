import DeltaMesh.Proofs.Replica.Busy

/-!
# Writers of one key take turns

However the requests at a replica come in between each other, what happens under one key is what
happens when those who took the key's lock are carried out one after the other, in the order in
which they took it.
-/

namespace DeltaMesh

namespace Busy

/-! ### One at a time -/

/-- What is decided about the value under a key. -/
def Work.verdict (key : Key) (blockSize : Nat) (stored? : Option ByteArray) :
    Work → Except ExchangeError (Option ByteArray)
  | put value => .ok (some value)
  | sync expectedHash delta => syncVerdict stored? key expectedHash delta blockSize

/-- The value under a key after it was decided about. -/
def left (stored? : Option ByteArray) : Except ExchangeError (Option ByteArray) → Option ByteArray
  | .ok (some value) => some value
  | .ok none | .error _ => stored?

/-- The value under a key after a section: work that has not ended leaves it as it was. -/
def Section.run (key : Key) (blockSize : Nat) (stored? : Option ByteArray) (sec : Section) :
    Option ByteArray :=
  match sec.fate with
  | .ended => left stored? (sec.work.verdict key blockSize stored?)
  | .underWay | .dropped => stored?

/-- The value under a key after sections, latest first, that are run one after the other. -/
def valueAfter (key : Key) (blockSize : Nat) (first : Option ByteArray) :
    List Section → Option ByteArray
  | [] => first
  | sec :: older => sec.run key blockSize (valueAfter key blockSize first older)

/-- The answer to a SYNC. -/
def syncReply : Except ExchangeError (Option ByteArray) → Response
  | .error why => .failed why.message
  | .ok none => .syncAck .unchanged
  | .ok (some _) => .syncAck .applied

/-- The answer to a request that was carried out or failed. -/
def replyTo : Except ExchangeError Response → Response
  | .ok response => response
  | .error why => .failed why.message

/-- Carrying out a SYNC leaves the value that was decided for, and the answer says so. -/
theorem settleSync_of_memory {r r' : Replica} {key : Key}
    {verdict : Except ExchangeError (Option ByteArray)} {result : Except ExchangeError Response}
    (hmemory : ∀ value, r.store.fault r.store.tried key value = none)
    (h : r.settleSync key verdict = (result, r')) :
    r'.store.get? key = left (r.store.get? key) verdict ∧ replyTo result = syncReply verdict := by
  match verdict with
  | .error _ | .ok none =>
    obtain ⟨rfl, rfl⟩ := Prod.mk.inj h
    exact ⟨rfl, rfl⟩
  | .ok (some value) =>
    rw [Replica.settleSync, r.putLocal_of_no_fault key (hmemory value)] at h
    obtain ⟨rfl, rfl⟩ := Prod.mk.inj h
    exact ⟨Std.ExtTreeMap.getElem?_insert_self, rfl⟩

/-! ### Values -/

/-- What a request has read or computed is what the value under its key is or gives. -/
def Stage.Fresh (r : Replica) : Stage → Prop
  | computes key _ _ stored? => r.store.get? key = stored?
  | computed key expectedHash delta verdict =>
    verdict = syncVerdict (r.store.get? key) key expectedHash delta r.blockSize
  | _ => True

/-- Whether a stage is fresh depends only on the value that the request works on. -/
theorem Stage.Fresh.congr {stage : Stage} {r r' : Replica} (h : stage.Fresh r)
    (hblockSize : r'.blockSize = r.blockSize)
    (hvalue : ∀ key work, stage.work? = some (key, work) →
      r'.store.get? key = r.store.get? key) : stage.Fresh r' := by
  cases stage with
  | computes key expectedHash delta stored? => exact (hvalue key _ rfl).trans h
  | computed key expectedHash delta verdict =>
    rw [Stage.Fresh, hvalue key _ rfl, hblockSize]
    exact h
  | _ => trivial

/-- Nothing was read yet at a stage without work. -/
theorem Stage.fresh_of_work? {stage : Stage} (hwork : stage.work? = none) (r : Replica) :
    stage.Fresh r := by
  cases stage with
  | computes | computed => cases hwork
  | _ => trivial

/-- Work is done while the lock is held. -/
theorem Stage.claim?_of_work? {stage : Stage} {key : Key} {work : Work}
    (h : stage.work? = some (key, work)) : stage.claim? = some (key, .holding) := by
  cases stage <;> cases h <;> rfl

/-- The values under the keys are those that the sections leave, and only the latest section of a
key may be under way. -/
structure Serialized (r : Replica) (s : Busy) : Prop where
  locked : s.Locked
  blockSize : s.replica.blockSize = r.blockSize
  memory : ∀ tried key value, s.replica.store.fault tried key value = none
  worked : ∀ task key work, s.work? task = some (key, work) ↔
    ∃ older, s.sections key = ⟨task, work, .underWay⟩ :: older
  settled : ∀ key, ∀ sec ∈ (s.sections key).tail, sec.fate ≠ .underWay
  serial : ∀ key, s.replica.store.get? key =
    valueAfter key r.blockSize (r.store.get? key) (s.sections key)
  fresh : ∀ (task : Nat) (q : Request) (stage : Stage),
    s.tasks[task]? = some (q, .active stage) → stage.Fresh s.replica

namespace Serialized

variable {r : Replica} {s s' : Busy} {task : Nat} {q : Request} {stage : Stage} {status : Status}
  {key : Key} {work : Work}

/-- The section of a task that has begun its work is the latest one of the key. -/
theorem exists_older (h : Serialized r s) (hat : s.tasks[task]? = some (q, .active stage))
    (hwork : stage.work? = some (key, work)) :
    ∃ older, s.sections key = ⟨task, work, .underWay⟩ :: older :=
  (h.worked task key work).mp ((showing_of_active hat).trans hwork)

/-- Requests work under different keys. -/
theorem key_ne (h : Serialized r s) (hat : s.tasks[task]? = some (q, .active stage))
    (hwork : stage.work? = some (key, work)) {other : Nat} {q' : Request} {stage' : Stage}
    (hother : s.tasks[other]? = some (q', .active stage')) (hne : other ≠ task) {key' : Key}
    {work' : Work} (hwork' : stage'.work? = some (key', work')) : key' ≠ key := by
  rintro rfl
  exact hne (h.locked.exclusive ((showing_of_active hat).trans (Stage.claim?_of_work? hwork))
    ((showing_of_active hother).trans (Stage.claim?_of_work? hwork')))

/-- The requests after one of them has moved: what holds of the one and of the others. -/
theorem forall_active (hat : s.tasks[task]? = some (q, .active stage))
    (htasks : s'.tasks = s.tasks) {P : Stage → Prop}
    (hself : ∀ stage', status = .active stage' → P stage')
    (hothers : ∀ other q' stage', other ≠ task → s.tasks[other]? = some (q', .active stage') →
      P stage') (other : Nat) (q' : Request) (stage' : Stage)
    (hother : (s'.move task q status).tasks[other]? = some (q', .active stage')) : P stage' := by
  have hlt := (List.getElem?_eq_some_iff.mp hat).1
  rw [move, htasks, List.getElem?_set] at hother
  by_cases heq : task = other
  · rw [if_pos heq, if_pos hlt] at hother
    exact hself stage' (Prod.mk.inj (Option.some.inj hother)).2
  · rw [if_neg heq] at hother
    exact hothers other q' stage' (Ne.symm heq) hother

/-- A step that begins no work, ends none and changes no value. -/
theorem kept (h : Serialized r s) (hat : s.tasks[task]? = some (q, .active stage))
    (htasks : s'.tasks = s.tasks) (hlocked : (s'.move task q status).Locked)
    (hstore : s'.replica.store = s.replica.store)
    (hblockSize : s'.replica.blockSize = s.replica.blockSize)
    (hsections : s'.sections = s.sections) (hwork : status.work? = stage.work?)
    (hfresh : ∀ stage', status = .active stage' → stage'.Fresh s.replica) :
    Serialized r (s'.move task q status) where
  locked := hlocked
  blockSize := hblockSize.trans h.blockSize
  memory := hstore ▸ h.memory
  worked other key work := by
    show _ ↔ ∃ older, s'.sections key = _
    rw [hsections, ← h.worked, work?, showing_move hat htasks]
    split
    case isTrue heq =>
      rw [heq, showing_of_active hat, hwork]
      rfl
    case isFalse => rfl
  settled := hsections ▸ h.settled
  serial key := by
    show s'.replica.store.get? key = valueAfter _ _ _ (s'.sections key)
    rw [hstore, hsections]
    exact h.serial key
  fresh := by
    have hcongr : ∀ stage' : Stage, stage'.Fresh s.replica → stage'.Fresh s'.replica :=
      fun stage' hfresh => hfresh.congr hblockSize fun _ _ _ => by rw [hstore]
    exact forall_active hat htasks (fun stage' heq => hcongr _ (hfresh stage' heq))
      fun other q' stage' _ hother => hcongr _ (h.fresh other q' stage' hother)

/-- A task has got the lock of a key. Its section is the latest under the key, and no other one is
under way there, since the lock was free; so what it starts from is what the sections before it have
left. -/
theorem begun (h : Serialized r s) {job : Job} {locks : KeyLocks Nat}
    (hat : s.tasks[task]? = some (q, .active (.waits job)))
    (hacquire : s.replica.locks.acquire? task = some locks) :
    Serialized r (((s.withLocks locks).begins task job).move task q (.active (.holds job))) := by
  -- whoever has work under way holds the lock, and then nobody else could get it
  have hnone : ∀ sec ∈ s.sections job.key, sec.fate ≠ .underWay := by
    intro sec hsec hfate
    cases hsections : s.sections job.key with
    | nil => rw [hsections] at hsec; cases hsec
    | cons latest older =>
      rw [hsections] at hsec
      rcases List.mem_cons.mp hsec with rfl | hsec
      · obtain ⟨other, work, fate⟩ := sec
        obtain rfl : fate = .underWay := hfate
        have hwork := (h.worked other job.key work).mpr ⟨older, hsections⟩
        have hclaim : s.claim? other = some (job.key, .holding) := by
          obtain ⟨⟨q', status⟩, hother, hshow⟩ := Option.bind_eq_some_iff.mp hwork
          cases status with
          | active stage =>
            exact (showing_of_active hother).trans (Stage.claim?_of_work? hshow)
          | _ => cases hshow
        exact h.locked.inOrder.not_refers_of_acquire hacquire
          ((h.locked.refers_iff hat).mpr rfl) ((h.locked.claimed ..).mpr hclaim)
      · exact h.settled job.key sec (hsections ▸ hsec) hfate
  refine ⟨h.locked.advance hat (.take job hacquire), h.blockSize, h.memory, ?_, ?_, ?_, ?_⟩
  · intro other key work
    show _ ↔ ∃ older, Function.update s.sections job.key _ key = _
    have htasks : ((s.withLocks locks).begins task job).tasks = s.tasks := rfl
    rw [work?, showing_move hat htasks]
    by_cases hkey : key = job.key
    · subst hkey
      rw [Function.update_self]
      by_cases heq : other = task
      · subst heq
        rw [if_pos rfl]
        constructor
        · intro hwork
          obtain ⟨-, rfl⟩ := Prod.mk.inj (Option.some.inj hwork)
          exact ⟨_, rfl⟩
        · rintro ⟨older, hlist⟩
          rw [(Section.mk.inj (List.cons.inj hlist).1).2.1.symm]
          rfl
      · rw [if_neg heq]
        refine ⟨fun hwork => ?_, fun ⟨older, hlist⟩ => ?_⟩
        · obtain ⟨older, hlist⟩ := (h.worked other job.key work).mp hwork
          exact absurd rfl (hnone _ (hlist ▸ List.mem_cons_self))
        · exact absurd (Section.mk.inj (List.cons.inj hlist).1).1.symm heq
    · rw [Function.update_of_ne hkey, ← h.worked]
      split
      case isTrue heq =>
        rw [heq, work?, showing_of_active hat]
        refine ⟨fun hwork => ?_, fun hwork => nomatch hwork⟩
        exact absurd (Prod.mk.inj (Option.some.inj hwork)).1.symm hkey
      case isFalse => rfl
  · intro key
    show ∀ sec ∈ (Function.update s.sections job.key _ key).tail, _
    by_cases hkey : key = job.key
    · subst hkey
      rw [Function.update_self]
      exact hnone
    · rw [Function.update_of_ne hkey]
      exact h.settled key
  · intro key
    show s.replica.store.get? key = valueAfter _ _ _ (Function.update s.sections job.key _ key)
    by_cases hkey : key = job.key
    · subst hkey
      rw [Function.update_self]
      exact h.serial job.key
    · rw [Function.update_of_ne hkey]
      exact h.serial key
  · refine forall_active hat rfl (fun stage' heq => ?_) fun other q' stage' _ hother =>
      (h.fresh other q' stage' hother).congr rfl fun _ _ _ => rfl
    obtain rfl := Status.active.inj heq
    trivial

/-- The work that a task has begun meets its fate. The section is the latest under its key, so the
value in place is the one that the serial run ends with. -/
theorem closed (h : Serialized r s) (hat : s.tasks[task]? = some (q, .active stage))
    (hwork : stage.work? = some (key, work)) (fate : Fate) (hfate : fate ≠ .underWay)
    (hlocked : (s'.move task q status).Locked) (htasks : s'.tasks = s.tasks)
    (honly : OnlyUnder key s.replica s'.replica)
    (hsections : s'.sections =
      Function.update s.sections key (closeLatest fate (s.sections key)))
    (hvalue : s'.replica.store.get? key =
      Section.run key s.replica.blockSize (s.replica.store.get? key) ⟨task, work, fate⟩)
    (hstatus : status.work? = none)
    (hfresh : ∀ stage', status = .active stage' → stage'.Fresh s'.replica) :
    Serialized r (s'.move task q status) := by
  -- the section that ends is the latest of its key: what it runs on is the value now
  obtain ⟨older, hlist⟩ := h.exists_older hat hwork
  have hclosed : closeLatest fate (s.sections key) = ⟨task, work, fate⟩ :: older := by
    rw [hlist]
    rfl
  rw [hclosed] at hsections
  refine ⟨hlocked, honly.blockSize.trans h.blockSize, ?_, ?_, ?_, ?_, ?_⟩
  · show ∀ tried key value, s'.replica.store.fault tried key value = none
    rw [honly.fault]
    exact h.memory
  · intro other k work'
    show _ ↔ ∃ older, s'.sections k = _
    rw [work?, showing_move hat htasks, hsections, hstatus]
    by_cases hk : k = key
    · subst hk
      rw [Function.update_self]
      refine ⟨fun hwork' => ?_, fun ⟨older, hlist⟩ => ?_⟩
      · split at hwork'
        case isTrue => cases hwork'
        case isFalse hne =>
          obtain ⟨older', hlist'⟩ := (h.worked other k work').mp hwork'
          rw [hlist] at hlist'
          exact absurd (Section.mk.inj (List.cons.inj hlist').1).1.symm hne
      · exact absurd (Section.mk.inj (List.cons.inj hlist).1).2.2 hfate
    · rw [Function.update_of_ne hk, ← h.worked]
      split
      case isTrue heq =>
        rw [heq, work?, showing_of_active hat]
        refine ⟨fun hnone => (nomatch hnone), fun hwork' => ?_⟩
        exact absurd (Prod.mk.inj (Option.some.inj (hwork.symm.trans hwork'))).1.symm hk
      case isFalse => rfl
  · intro k
    show ∀ sec ∈ (s'.sections k).tail, _
    rw [hsections]
    by_cases hk : k = key
    · subst hk
      rw [Function.update_self]
      have hsettled := h.settled k
      rw [hlist] at hsettled
      exact hsettled
    · rw [Function.update_of_ne hk]
      exact h.settled k
  · intro k
    show s'.replica.store.get? k = valueAfter _ _ _ (s'.sections k)
    rw [hsections]
    by_cases hk : k = key
    · subst hk
      have hserial := h.serial k
      rw [hlist, valueAfter, Section.run] at hserial
      rw [Function.update_self, valueAfter, hvalue, h.blockSize, hserial]
    · rw [Function.update_of_ne hk, honly.others k hk]
      exact h.serial k
  · refine forall_active hat htasks hfresh fun other q' stage' hne hother => ?_
    refine (h.fresh other q' stage' hother).congr honly.blockSize fun key' work' hwork' => ?_
    exact honly.others key' (h.key_ne hat hwork hother hne hwork')

/-- The step lemma: there is one case for each advance, and `begun`, `closed` and `kept` cover what
they have in common. -/
theorem advance (h : Serialized r s) (hat : s.tasks[task]? = some (q, .active stage))
    (hadvance : Advance task s stage status s') : Serialized r (s'.move task q status) := by
  have hlocked := h.locked.advance hat hadvance
  have hfault : ∀ key value, s.replica.store.fault s.replica.store.tried key value = none :=
    fun key value => h.memory _ key value
  cases hadvance with
  | ask job =>
    exact h.kept hat rfl hlocked rfl rfl rfl rfl fun _ heq => Status.active.inj heq ▸ trivial
  | take job hacquire => exact h.begun hat hacquire
  | @write key value rest locations r' hwrite =>
    have honly := (onlyUnder_write hwrite).1
    rw [Replica.write, Store.put, hfault] at hwrite
    refine h.closed hat rfl .ended (by decide) hlocked rfl honly rfl ?_ rfl fun _ heq =>
      Status.active.inj heq ▸ trivial
    obtain ⟨-, rfl⟩ := Prod.mk.inj hwrite
    exact Std.ExtTreeMap.getElem?_insert_self
  | writeFails rest locations hwrite =>
    rw [Replica.write, Store.put, hfault] at hwrite
    cases (Prod.mk.inj hwrite).1
  | @find key expectedHash delta result r' hfound hsettle =>
    have hverdict := syncVerdict_of_found key hfound delta s.replica.blockSize
    refine h.closed hat rfl .ended (by decide) hlocked rfl (onlyUnder_settleSync hsettle).1 rfl ?_
      rfl fun _ heq => Status.active.inj heq ▸ trivial
    refine (settleSync_of_memory (hfault key) hsettle).1.trans ?_
    rw [← hverdict]
    rfl
  | read delta hnew =>
    exact h.kept hat rfl hlocked rfl rfl rfl rfl fun _ heq => Status.active.inj heq ▸ rfl
  | compute key expectedHash delta stored? =>
    refine h.kept hat rfl hlocked rfl rfl rfl rfl fun _ heq => Status.active.inj heq ▸ ?_
    have hfresh : s.replica.store.get? key = stored? := h.fresh task q _ hat
    rw [← hfresh]
    rfl
  | @carryOut key expectedHash delta verdict result r' hsettle =>
    have hverdict : verdict = syncVerdict (s.replica.store.get? key) key expectedHash delta
      s.replica.blockSize := h.fresh task q _ hat
    refine h.closed hat rfl .ended (by decide) hlocked rfl (onlyUnder_settleSync hsettle).1 rfl ?_
      rfl fun _ heq => Status.active.inj heq ▸ trivial
    refine (settleSync_of_memory (hfault key) hsettle).1.trans ?_
    rw [hverdict]
    rfl
  | copyLeave key rest locations failure =>
    have hnone := Stage.work?_copying locations failure rest
    exact h.kept hat rfl hlocked rfl rfl rfl hnone fun _ heq =>
      Status.active.inj heq ▸ Stage.fresh_of_work? hnone _
  | syncLeave =>
    exact h.kept hat rfl hlocked rfl rfl rfl rfl fun _ heq => Status.active.inj heq ▸ trivial
  | settle locations failure hsettle =>
    obtain rfl := settleCopy_eq hsettle
    exact h.kept hat rfl hlocked rfl rfl rfl rfl fun _ heq => Status.active.inj heq ▸ trivial
  | answer hrespond =>
    obtain ⟨served, rfl⟩ := respond_eq hrespond
    exact h.kept hat rfl hlocked rfl rfl rfl rfl fun _ heq => by cases heq

/-- A request that is dropped while it works leaves a section without effect; its value was not
stored yet. -/
theorem drop (h : Serialized r s) (hat : s.tasks[task]? = some (q, .active stage)) :
    Serialized r ((s.abandon task stage).move task q (.dropped stage)) := by
  have hlocked := h.locked.drop hat
  have htasks := s.tasks_abandon task stage
  have hreplica := s.replica_abandon task stage
  cases hwork : stage.work? with
  | none =>
    exact h.kept hat htasks hlocked (by rw [hreplica]; rfl) (by rw [hreplica]; rfl)
      (s.sections_abandon_of_none task hwork) hwork.symm fun _ heq => nomatch heq
  | some begun =>
    obtain ⟨key, work⟩ := begun
    refine h.closed hat hwork .dropped (by decide) hlocked htasks ?_ (sections_abandon hwork) ?_ rfl
      fun _ heq => nomatch heq
    · rw [hreplica]
      exact ⟨rfl, rfl, fun _ _ => rfl⟩
    · rw [hreplica]
      rfl

theorem step (h : Serialized r s) (hstep : Step s s') : Serialized r s' := by
  have hlocked := h.locked.step hstep
  cases hstep with
  | arrive q henter =>
    obtain ⟨-, hwork, served, rfl⟩ := enter?_eq henter
    refine ⟨hlocked, h.blockSize, h.memory, fun task key work => ?_, h.settled, h.serial, ?_⟩
    · rw [work?, showing_arrives hwork]
      exact h.worked task key work
    · intro task q' stage' hat
      rw [arrives, List.getElem?_append] at hat
      split at hat
      case isTrue => exact (h.fresh task q' stage' hat).congr rfl fun _ _ _ => rfl
      case isFalse =>
        obtain ⟨-, hstage⟩ := Prod.mk.inj (List.mem_singleton.mp (List.mem_of_getElem? hat))
        obtain rfl := Status.active.inj hstage
        exact Stage.fresh_of_work? hwork _
  | advance task hat hadvance => exact h.advance hat hadvance
  | drop task hat _ => exact h.drop hat

theorem start (hlocks : KeyLocks.Reached r.locks) (hfree : r.locks.claims = [])
    (hmemory : ∀ tried key value, r.store.fault tried key value = none) :
    Serialized r (Busy.start r) where
  locked := .start hlocks hfree
  blockSize := rfl
  memory := hmemory
  worked _ _ _ := ⟨fun hwork => (nomatch hwork), fun ⟨_, hlist⟩ => (nomatch hlist)⟩
  settled _ _ hsec := nomatch hsec
  serial _ := rfl
  fresh _ _ _ hat := nomatch hat

end Serialized

end Busy

end DeltaMesh
