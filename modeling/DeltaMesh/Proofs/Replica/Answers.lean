import DeltaMesh.Proofs.Replica.Serial
import Mathlib.Data.List.Nodup

/-!
# What requests are told

Every section under a key belongs to a request that asks for this work, and a request that was
answered has had all of its sections.
-/

namespace DeltaMesh

namespace Busy

/-! ### What requests ask for -/

/-- The work that comes with entries of a COPY. -/
def putAll (entries : List (Key × ByteArray)) : List (Key × Work) :=
  entries.map fun entry => (entry.1, .put entry.2)

/-- The work that a request asks for, key by key. -/
def worksOf : Request → List (Key × Work)
  | .info .. => []
  | .copy entries _ => putAll entries.toList
  | .sync key expectedHash _ delta => [(key, .sync expectedHash delta)]

/-- The work that is left to do after a job. -/
def Job.later : Job → List (Key × Work)
  | put _ _ rest _ => putAll rest
  | sync .. => []

/-- A job of a COPY. -/
def Job.isPut : Job → Bool
  | put .. => true
  | sync .. => false

namespace Stage

/-- The work that a request has not begun yet. -/
def ahead : Stage → List (Key × Work)
  | asks job | waits job => (job.key, job.work) :: job.later
  | holds job => job.later
  | copyLeaves _ rest _ _ => putAll rest
  | computes .. | computed .. | syncLeaves .. | settles .. | ended _ => []

/-- Where a SYNC never comes. -/
def copyOnly : Stage → Bool
  | asks job | waits job | holds job => job.isPut
  | copyLeaves .. | settles .. => true
  | computes .. | computed .. | syncLeaves .. | ended _ => false

theorem ahead_copying (locations : List Id) (failure : Option StorageError)
    (rest : List (Key × ByteArray)) : (copying locations failure rest).ahead = putAll rest := by
  cases rest <;> rfl

end Stage

/-- What a request will be answered. -/
def Status.reply? : Status → Option Response
  | active (.syncLeaves _ result) | active (.ended result) => some (replyTo result)
  | answered response => some response
  | _ => none

/-- A request has one critical section for each key that it is about. -/
theorem nodup_worksOf (q : Request) : ((worksOf q).map Prod.fst).Nodup := by
  cases q with
  | info => exact .nil
  | copy entries timestamp =>
    have hkeys : (worksOf (.copy entries timestamp)).map Prod.fst = entries.keys := by
      rw [worksOf, putAll, List.map_map, ← Std.ExtTreeMap.map_fst_toList_eq_keys]
      rfl
    rw [hkeys]
    exact Std.ExtTreeMap.nodup_keys
  | sync => exact List.nodup_singleton _

/-! ### What becomes of the sections of a key -/

/-- How the sections of a key change when a task moves. -/
inductive Turned (task : Nat) (l : List Section) : List Section → Prop
  | same : Turned task l l
  | begun (work : Work) (hnew : ∀ sec ∈ l, sec.task ≠ task) :
    Turned task l (⟨task, work, .underWay⟩ :: l)
  | met {work : Work} {older : List Section} (fate : Fate)
      (h : l = ⟨task, work, .underWay⟩ :: older) : Turned task l (⟨task, work, fate⟩ :: older)

namespace Turned

variable {task : Nat} {l l' : List Section} {sec : Section}

/-- The sections of other tasks stay. -/
theorem mem_iff (h : Turned task l l') (hne : sec.task ≠ task) : sec ∈ l' ↔ sec ∈ l := by
  have hlatest : ∀ work fate, sec ≠ ⟨task, work, fate⟩ := fun _ _ heq => hne (heq ▸ rfl)
  cases h with
  | same => rfl
  | begun work => exact List.mem_cons.trans (or_iff_right (hlatest _ _))
  | met fate heq =>
    rw [heq, List.mem_cons, List.mem_cons, or_iff_right (hlatest _ _), or_iff_right (hlatest _ _)]

/-- What came before a section that has ended stays before it; sections are only added in front. -/
theorem split (h : Turned task l l') {newer older : List Section} (hl : l = newer ++ sec :: older)
    (hfate : sec.fate = .ended) : ∃ newer, l' = newer ++ sec :: older := by
  cases h with
  | same => exact ⟨newer, hl⟩
  | begun work => exact ⟨_ :: newer, by rw [hl]; rfl⟩
  | met fate heq =>
    cases newer with
    | nil =>
      obtain ⟨rfl, -⟩ := List.cons.inj (heq.symm.trans hl)
      cases hfate
    | cons latest newer =>
      obtain ⟨-, rfl⟩ := List.cons.inj (heq.symm.trans hl)
      exact ⟨_ :: newer, rfl⟩

/-- No task has two sections. -/
theorem once (h : Turned task l l') (honce : l.Pairwise fun a b => a.task ≠ b.task) :
    l'.Pairwise fun a b => a.task ≠ b.task := by
  cases h with
  | same => exact honce
  | begun work hnew => exact List.pairwise_cons.mpr ⟨fun sec hsec => (hnew sec hsec).symm, honce⟩
  | met fate heq =>
    rw [heq, List.pairwise_cons] at honce
    exact List.pairwise_cons.mpr honce

/-- In a turn of one task the only new section is one of its own. -/
theorem task_eq_or (h : Turned task l l') (hsec : sec ∈ l') : sec.task = task ∨ sec ∈ l := by
  by_cases heq : sec.task = task
  · exact .inl heq
  · exact .inr ((h.mem_iff heq).mp hsec)

end Turned

/-- One key of all is concerned. -/
theorem turned_update {task : Nat} {sections : Key → List Section} {key : Key} {l : List Section}
    (h : Turned task (sections key) l) (k : Key) :
    Turned task (sections k) (Function.update sections key l k) := by
  by_cases hk : k = key
  · subst hk
    rw [Function.update_self]
    exact h
  · rw [Function.update_of_ne hk]
    exact .same

/-! ### Requests and their sections -/

/-- How far a request has come: it has begun this work, in order, and ended all of it but the
piece that its stage tells of. -/
structure Course (sections : Key → List Section) (task : Nat) (q : Request) (stage : Stage)
    (begun : List (Key × Work)) : Prop where
  works : worksOf q = begun ++ stage.ahead
  fits : stage.copyOnly = true → ∀ key expectedHash timestamp delta,
    q ≠ .sync key expectedHash timestamp delta
  recorded : ∀ key, ∀ sec ∈ sections key, sec.task = task → (key, sec.work) ∈ begun
  current : ∀ key work, stage.work? = some (key, work) → (key, work) ∈ begun
  ended : ∀ key work, (key, work) ∈ begun →
    stage.work? = some (key, work) ∨ ⟨task, work, .ended⟩ ∈ sections key

/-- The answer to a SYNC is the one for the value that the sections before its own have left. -/
def Told (r : Replica) (sections : Key → List Section) (task : Nat) (key : Key) (expectedHash : Id)
    (delta : ByteArray) (response : Response) : Prop :=
  ∃ newer older, sections key = newer ++ ⟨task, .sync expectedHash delta, .ended⟩ :: older ∧
    response = syncReply (syncVerdict (valueAfter key r.blockSize (r.store.get? key) older) key
      expectedHash delta r.blockSize)

/-- The sections of a task are those of its request, and its answer is theirs. -/
structure Follows (r : Replica) (sections : Key → List Section) (task : Nat) (q : Request)
    (status : Status) : Prop where
  recorded : ∀ key, ∀ sec ∈ sections key, sec.task = task → (key, sec.work) ∈ worksOf q
  course : ∀ stage, status = .active stage → ∃ begun, Course sections task q stage begun
  served : ∀ response, status = .answered response →
    ∀ key work, (key, work) ∈ worksOf q → ⟨task, work, .ended⟩ ∈ sections key
  told : ∀ key expectedHash timestamp delta response, q = .sync key expectedHash timestamp delta →
    status.reply? = some response → Told r sections task key expectedHash delta response
  gone : ∀ key expectedHash timestamp delta stage, q = .sync key expectedHash timestamp delta →
    status = .dropped stage → ∀ k, ∀ sec ∈ sections k, sec.task = task → sec.fate = .dropped

section

variable {r : Replica} {sections sections' : Key → List Section} {task other : Nat} {q : Request}
  {stage stage' : Stage} {status : Status} {begun : List (Key × Work)}

theorem Course.mem_worksOf (h : Course sections task q stage begun) {key : Key} {work : Work}
    (hmem : (key, work) ∈ begun) : (key, work) ∈ worksOf q :=
  h.works ▸ List.mem_append_left _ hmem

/-- Another task moves, and adds at most a section of its own. -/
theorem Course.turned (h : Course sections other q stage begun)
    (hturned : ∀ key, Turned task (sections key) (sections' key)) (hne : other ≠ task) :
    Course sections' other q stage begun where
  works := h.works
  fits := h.fits
  recorded key sec hsec heq :=
    h.recorded key sec (((hturned key).mem_iff (heq ▸ hne)).mp hsec) heq
  current := h.current
  ended key work hmem := (h.ended key work hmem).imp_right ((hturned key).mem_iff hne).mpr

/-- The other requests follow their courses as before. -/
theorem Follows.turned (h : Follows r sections other q status)
    (hturned : ∀ key, Turned task (sections key) (sections' key)) (hne : other ≠ task) :
    Follows r sections' other q status where
  recorded key sec hsec heq :=
    h.recorded key sec (((hturned key).mem_iff (heq ▸ hne)).mp hsec) heq
  course stage hstage := by
    obtain ⟨begun, hcourse⟩ := h.course stage hstage
    exact ⟨begun, hcourse.turned hturned hne⟩
  served response hstatus key work hwork :=
    ((hturned key).mem_iff hne).mpr (h.served response hstatus key work hwork)
  told key expectedHash timestamp delta response hq hreply := by
    obtain ⟨newer, older, hsplit, hresponse⟩ :=
      h.told key expectedHash timestamp delta response hq hreply
    obtain ⟨newer', hsplit'⟩ := (hturned key).split hsplit rfl
    exact ⟨newer', older, hsplit', hresponse⟩
  gone key expectedHash timestamp delta stage hq hstatus k sec hsec heq :=
    h.gone key expectedHash timestamp delta stage hq hstatus k sec
      (((hturned k).mem_iff (heq ▸ hne)).mp hsec) heq

/-- A request goes on to a stage with the same work. -/
theorem Course.kept (h : Course sections task q stage begun) (stage' : Stage)
    (hahead : stage'.ahead = stage.ahead) (hwork : stage'.work? = stage.work?)
    (hfits : stage'.copyOnly = true → stage.copyOnly = true) :
    Course sections task q stage' begun where
  works := hahead ▸ h.works
  fits hcopy := h.fits (hfits hcopy)
  recorded := h.recorded
  current := hwork ▸ h.current
  ended := hwork ▸ h.ended

/-- A request goes on, and the answer that it may have by now is its own. -/
theorem Course.follows (h : Course sections task q stage begun)
    (htold : ∀ key expectedHash timestamp delta response,
      q = .sync key expectedHash timestamp delta → (Status.active stage).reply? = some response →
      Told r sections task key expectedHash delta response) :
    Follows r sections task q (.active stage) where
  recorded key sec hsec heq := h.mem_worksOf (h.recorded key sec hsec heq)
  course _ hstage := Status.active.inj hstage ▸ ⟨begun, h⟩
  served _ hstatus := nomatch hstatus
  told := htold
  gone _ _ _ _ _ _ hstatus := nomatch hstatus

/-- A request goes on, and its answer is still open. -/
theorem Course.follows_of_open (h : Course sections task q stage begun)
    (hopen : (Status.active stage).reply? = none) : Follows r sections task q (.active stage) :=
  h.follows fun _ _ _ _ _ _ hreply => by
    rw [hopen] at hreply
    cases hreply

/-- A request comes to no key twice. -/
theorem Course.not_mem_begun {job : Job} (h : Course sections task q (.waits job) begun)
    (work : Work) : (job.key, work) ∉ begun := by
  intro hmem
  have hnodup := nodup_worksOf q
  rw [h.works, List.map_append] at hnodup
  exact List.disjoint_of_nodup_append hnodup (List.mem_map_of_mem hmem) List.mem_cons_self

/-- A request gets the lock of its next key, and with it begins a section there. Sections that it
has ended before are under other keys. -/
theorem Course.take {job : Job} (h : Course sections task q (.waits job) begun) :
    Course (Function.update sections job.key (⟨task, job.work, .underWay⟩ :: sections job.key))
      task q (.holds job) (begun ++ [(job.key, job.work)]) where
  works := by
    rw [h.works, List.append_assoc]
    rfl
  fits := h.fits
  recorded key sec hsec heq := by
    by_cases hkey : key = job.key
    · subst hkey
      rw [Function.update_self, List.mem_cons] at hsec
      rcases hsec with rfl | hsec
      · exact List.mem_append_right _ (List.mem_singleton_self _)
      · exact absurd (h.recorded _ sec hsec heq) (h.not_mem_begun _)
    · rw [Function.update_of_ne hkey] at hsec
      exact List.mem_append_left _ (h.recorded key sec hsec heq)
  current key work hwork := by
    obtain ⟨rfl, rfl⟩ := Prod.mk.inj (Option.some.inj hwork)
    exact List.mem_append_right _ (List.mem_singleton_self _)
  ended key work hmem := by
    rcases List.mem_append.mp hmem with hmem | hmem
    · have hended := (h.ended key work hmem).resolve_left (nomatch ·)
      have hkey : key ≠ job.key := by
        rintro rfl
        exact h.not_mem_begun _ hmem
      rw [Function.update_of_ne hkey]
      exact .inr hended
    · obtain ⟨rfl, rfl⟩ := Prod.mk.inj (List.mem_singleton.mp hmem)
      exact .inl rfl

/-- A request ends the work that it has begun: its section under the key, which was under way, has
ended. -/
theorem Course.close (h : Course sections task q stage begun) {key : Key} {work : Work}
    (hwork : stage.work? = some (key, work)) {older : List Section}
    (hlist : sections key = ⟨task, work, .underWay⟩ :: older) (hnone : stage'.work? = none)
    (hahead : stage'.ahead = stage.ahead)
    (hfits : stage'.copyOnly = true → stage.copyOnly = true) :
    Course (Function.update sections key (⟨task, work, .ended⟩ :: older)) task q stage' begun where
  works := hahead ▸ h.works
  fits hcopy := h.fits (hfits hcopy)
  recorded k sec hsec heq := by
    by_cases hk : k = key
    · subst hk
      rw [Function.update_self, List.mem_cons] at hsec
      rcases hsec with rfl | hsec
      · exact h.current k work hwork
      · exact h.recorded k sec (hlist ▸ List.mem_cons_of_mem _ hsec) heq
    · rw [Function.update_of_ne hk] at hsec
      exact h.recorded k sec hsec heq
  current k work' hwork' := by rw [hnone] at hwork'; cases hwork'
  ended k work' hmem := by
    refine .inr ?_
    by_cases hk : k = key
    · subst hk
      rw [Function.update_self]
      rcases h.ended k work' hmem with hwork' | hended
      · obtain ⟨-, rfl⟩ := Prod.mk.inj (Option.some.inj (hwork.symm.trans hwork'))
        exact List.mem_cons_self
      · rw [hlist, List.mem_cons] at hended
        rcases hended with heq | hended
        · cases heq
        · exact List.mem_cons_of_mem _ hended
    · rw [Function.update_of_ne hk]
      refine (h.ended k work' hmem).resolve_left fun hwork' => hk ?_
      exact (Prod.mk.inj (Option.some.inj (hwork'.symm.trans hwork))).1

/-- A request that has nothing left to do is answered. -/
theorem Course.served (h : Course sections task q stage begun) (hahead : stage.ahead = [])
    (hnone : stage.work? = none) {key : Key} {work : Work} (hmem : (key, work) ∈ worksOf q) :
    ⟨task, work, .ended⟩ ∈ sections key := by
  rw [h.works, hahead, List.append_nil] at hmem
  exact (h.ended key work hmem).resolve_left fun hwork => by rw [hnone] at hwork; cases hwork

/-- A SYNC that is dropped before its work has ended leaves no other sections, since it works under
one key only. -/
theorem Course.gone (h : Course sections task q stage begun) (hsuspended : stage.Suspended)
    {key : Key} {expectedHash : Id} {timestamp : Int64} {delta : ByteArray}
    (hq : q = .sync key expectedHash timestamp delta) {k : Key} {sec : Section}
    (hsec : sec ∈ sections k) (htask : sec.task = task) :
    ∃ work, stage.work? = some (k, work) := by
  have hrecorded := h.recorded k sec hsec htask
  have hkey : ∀ {k : Key} {work : Work}, (k, work) ∈ begun → k = key := by
    intro k work hmem
    have hworks := h.mem_worksOf hmem
    rw [hq, worksOf, List.mem_singleton] at hworks
    exact (Prod.mk.inj hworks).1
  -- while it waits its one piece of work is still ahead, and it would have no section
  have hnext : ∀ job, stage ≠ .waits job := by
    rintro job rfl
    have hworks := congrArg List.length h.works
    rw [hq, List.length_append] at hworks
    have hpos := List.length_pos_of_mem hrecorded
    simp only [worksOf, Stage.ahead, List.length_cons, List.length_nil] at hworks
    omega
  have hheld : ∃ work, stage.work? = some (key, work) := by
    cases hsuspended with
    | waits job => exact absurd rfl (hnext job)
    | computes k' expectedHash' delta' stored? =>
      exact ⟨_, by rw [← hkey (h.current k' _ rfl)]; rfl⟩
    | computed k' expectedHash' delta' verdict =>
      exact ⟨_, by rw [← hkey (h.current k' _ rfl)]; rfl⟩
  exact hkey hrecorded ▸ hheld

end

/-- Every request and its sections. -/
structure Faithful (r : Replica) (s : Busy) : Prop where
  once : ∀ key, (s.sections key).Pairwise fun a b => a.task ≠ b.task
  known : ∀ key, ∀ sec ∈ s.sections key, sec.task < s.tasks.length
  follows : ∀ (task : Nat) (q : Request) (status : Status), s.tasks[task]? = some (q, status) →
    Follows r s.sections task q status

namespace Faithful

variable {r : Replica} {s s' : Busy} {task : Nat} {q : Request} {stage : Stage} {status : Status}

/-- One task has moved; the others are as faithful as they were, because at most one section of this
task is new. -/
theorem moved (h : Faithful r s) (hat : s.tasks[task]? = some (q, .active stage))
    (htasks : s'.tasks = s.tasks) (hturned : ∀ key, Turned task (s.sections key) (s'.sections key))
    (hself : Follows r s'.sections task q status) : Faithful r (s'.move task q status) := by
  have hlt := (List.getElem?_eq_some_iff.mp hat).1
  refine ⟨fun key => (hturned key).once (h.once key), fun key sec hsec => ?_, ?_⟩
  · rw [move, List.length_set, htasks]
    exact ((hturned key).task_eq_or hsec).elim (fun heq => heq ▸ hlt) (h.known key sec)
  · intro other q' status' hother
    rw [move, htasks, List.getElem?_set] at hother
    by_cases heq : task = other
    · rw [if_pos heq, if_pos hlt] at hother
      obtain ⟨rfl, rfl⟩ := Prod.mk.inj (Option.some.inj hother)
      exact heq ▸ hself
    · rw [if_neg heq] at hother
      exact (h.follows other q' status' hother).turned hturned (Ne.symm heq)

/-- The work of a task under a key is done. If it was a SYNC its answer is the one that the serial
run gives: the value it started from is still in place, as the lock was held all the time. -/
theorem closed (h : Faithful r s) (hserial : Serialized r s)
    (hat : s.tasks[task]? = some (q, .active stage)) {stage' : Stage}
    (hadvance : Advance task s stage (.active stage') s') {key : Key} {work : Work}
    (hwork : stage.work? = some (key, work))
    (hsections : s'.sections = (s.closes key .ended).sections) (hnone : stage'.work? = none)
    (hahead : stage'.ahead = stage.ahead)
    (hfits : stage'.copyOnly = true → stage.copyOnly = true)
    (hreply : ∀ response, (Status.active stage').reply? = some response →
      ∀ expectedHash delta, work = .sync expectedHash delta →
        response = syncReply (syncVerdict (s.replica.store.get? key) key expectedHash delta
          s.replica.blockSize)) : Faithful r (s'.move task q (.active stage')) := by
  obtain ⟨begun, hcourse⟩ := (h.follows task q _ hat).course stage rfl
  obtain ⟨older, hlist⟩ := hserial.exists_older hat hwork
  have hclosed : s'.sections = Function.update s.sections key (⟨task, work, .ended⟩ :: older) := by
    rw [hsections, closes, hlist]
    rfl
  refine h.moved hat hadvance.tasks (fun k => ?_) ?_
  · rw [hclosed]
    exact turned_update (hlist ▸ .met .ended rfl) k
  · rw [hclosed]
    refine (hcourse.close hwork hlist hnone hahead hfits).follows ?_
    intro key' expectedHash timestamp delta response hq hresponse
    have hmem := hcourse.mem_worksOf (hcourse.current key work hwork)
    rw [hq, worksOf, List.mem_singleton] at hmem
    obtain ⟨rfl, rfl⟩ := Prod.mk.inj hmem
    refine ⟨[], older, Function.update_self .., ?_⟩
    rw [hreply response hresponse expectedHash delta rfl, hserial.serial, hlist, hserial.blockSize]
    rfl

/-- The step lemma, one case for every kind of advance: the answers recorded so far are those of the
serial run. -/
theorem advance (h : Faithful r s) (hserial : Serialized r s)
    (hat : s.tasks[task]? = some (q, .active stage))
    (hadvance : Advance task s stage status s') : Faithful r (s'.move task q status) := by
  obtain ⟨begun, hcourse⟩ := (h.follows task q _ hat).course stage rfl
  have htold := (h.follows task q _ hat).told
  cases hadvance with
  | ask job =>
    exact h.moved hat rfl (fun _ => .same)
      ((hcourse.kept (.waits job) rfl rfl id).follows_of_open rfl)
  | take job hacquire =>
    refine h.moved hat rfl (fun k => turned_update (.begun _ fun sec hsec heq => ?_) k)
      (hcourse.take.follows_of_open rfl)
    exact hcourse.not_mem_begun _ (hcourse.recorded _ sec hsec heq)
  | @write key value rest locations r' hwrite =>
    exact h.closed hserial hat (.write rest locations hwrite) rfl rfl rfl rfl id
      fun _ hreply => by cases hreply
  | @writeFails key value rest locations why r' hwrite =>
    rw [Replica.write, Store.put, hserial.memory] at hwrite
    cases (Prod.mk.inj hwrite).1
  | @find key expectedHash delta result r' hfound hsettle =>
    refine h.closed hserial hat (.find delta hfound hsettle) rfl rfl rfl rfl id
      fun response hreply _ _ hwork => ?_
    obtain ⟨rfl, rfl⟩ := Work.sync.inj hwork
    obtain ⟨-, hresult⟩ := settleSync_of_memory (fun value => hserial.memory _ key value) hsettle
    refine (Option.some.inj hreply).symm.trans (hresult.trans ?_)
    exact congrArg syncReply (syncVerdict_of_found key hfound delta _).symm
  | @read key expectedHash delta hnew =>
    exact h.moved hat rfl (fun _ => .same)
      ((hcourse.kept (.computes key expectedHash delta _) rfl rfl id).follows_of_open rfl)
  | compute key expectedHash delta stored? =>
    exact h.moved hat rfl (fun _ => .same)
      ((hcourse.kept (.computed key expectedHash delta _) rfl rfl id).follows_of_open rfl)
  | @carryOut key expectedHash delta verdict result r' hsettle =>
    have hverdict : verdict = syncVerdict (s.replica.store.get? key) key expectedHash delta
      s.replica.blockSize := hserial.fresh task q _ hat
    refine h.closed hserial hat (.carryOut expectedHash delta hsettle) rfl rfl rfl rfl id
      fun response hreply _ _ hwork => ?_
    obtain ⟨rfl, rfl⟩ := Work.sync.inj hwork
    obtain ⟨-, hresult⟩ := settleSync_of_memory (fun value => hserial.memory _ key value) hsettle
    rw [← hverdict]
    exact (Option.some.inj hreply).symm.trans hresult
  | copyLeave key rest locations failure =>
    refine h.moved hat rfl (fun _ => .same) ((hcourse.kept (.copying locations failure rest)
      (Stage.ahead_copying ..) (Stage.work?_copying ..) fun _ => rfl).follows_of_open ?_)
    cases rest <;> rfl
  | syncLeave key result =>
    exact h.moved hat rfl (fun _ => .same) ((hcourse.kept (.ended result) rfl rfl id).follows htold)
  | @settle locations failure result r' hsettle =>
    exact h.moved hat rfl (fun _ => .same)
      ((hcourse.kept (.ended result) rfl rfl fun _ => rfl).follows
        fun key expectedHash timestamp delta _ hq _ =>
          absurd hq (hcourse.fits rfl key expectedHash timestamp delta))
  | @answer result response r' hrespond =>
    have hresponse : response = replyTo result := by
      cases result <;> exact (Prod.mk.inj hrespond).1.symm
    refine h.moved hat rfl (fun _ => .same) ⟨(h.follows task q _ hat).recorded,
      fun _ hstatus => (by cases hstatus), fun _ _ key work hmem => hcourse.served rfl rfl hmem,
      fun key expectedHash timestamp delta _ hq hreply => ?_,
      fun _ _ _ _ _ _ hstatus => (by cases hstatus)⟩
    obtain rfl := Option.some.inj hreply
    exact htold key expectedHash timestamp delta _ hq (congrArg some hresponse.symm)

/-- A request that is dropped has no answer to be faithful to, but its sections are recorded. -/
theorem drop (h : Faithful r s) (hserial : Serialized r s)
    (hat : s.tasks[task]? = some (q, .active stage)) (hsuspended : stage.Suspended) :
    Faithful r ((s.abandon task stage).move task q (.dropped stage)) := by
  obtain ⟨begun, hcourse⟩ := (h.follows task q _ hat).course stage rfl
  have hrecorded := (h.follows task q _ hat).recorded
  have htasks := s.tasks_abandon task stage
  cases hwork : stage.work? with
  | none =>
    have hsections := s.sections_abandon_of_none task hwork
    refine h.moved hat htasks (fun _ => hsections ▸ .same) ?_
    rw [hsections]
    refine ⟨hrecorded, fun _ hstatus => (nomatch hstatus), fun _ hstatus => (nomatch hstatus),
      fun _ _ _ _ _ _ hreply => (nomatch hreply), fun _ _ _ _ _ hq _ k sec hsec htask => ?_⟩
    obtain ⟨work, hbegun⟩ := hcourse.gone hsuspended hq hsec htask
    rw [hwork] at hbegun
    cases hbegun
  | some begun =>
    obtain ⟨key, work⟩ := begun
    obtain ⟨older, hlist⟩ := hserial.exists_older hat hwork
    have hsections : (s.abandon task stage).sections =
        Function.update s.sections key (⟨task, work, .dropped⟩ :: older) := by
      rw [sections_abandon hwork, hlist]
      rfl
    -- the section that is dropped is the only one of the task under this key
    have honce := h.once key
    rw [hlist, List.pairwise_cons] at honce
    refine h.moved hat htasks (fun k => ?_) ?_
    · rw [hsections]
      exact turned_update (hlist ▸ .met .dropped rfl) k
    rw [hsections]
    refine ⟨?_, fun _ hstatus => (nomatch hstatus), fun _ hstatus => (nomatch hstatus),
      fun _ _ _ _ _ _ hreply => (nomatch hreply), fun _ _ _ _ _ hq _ k sec hsec htask => ?_⟩
    · intro k sec hsec htask
      by_cases hk : k = key
      · subst hk
        rw [Function.update_self, List.mem_cons] at hsec
        rcases hsec with rfl | hsec
        · exact hrecorded k ⟨task, work, .underWay⟩ (hlist ▸ List.mem_cons_self) rfl
        · exact hrecorded k sec (hlist ▸ List.mem_cons_of_mem _ hsec) htask
      · rw [Function.update_of_ne hk] at hsec
        exact hrecorded k sec hsec htask
    · by_cases hk : k = key
      · subst hk
        rw [Function.update_self, List.mem_cons] at hsec
        rcases hsec with rfl | hsec
        · rfl
        · exact absurd htask.symm (honce.1 sec hsec)
      · rw [Function.update_of_ne hk] at hsec
        obtain ⟨work', hbegun⟩ := hcourse.gone hsuspended hq hsec htask
        exact absurd (Prod.mk.inj (Option.some.inj (hbegun.symm.trans hwork))).1 hk

/-- A request that comes in has done nothing yet: its number is new, and all sections are those of
requests that came in before. -/
theorem arrive (h : Faithful r s) {replica replica' : Replica}
    (henter : enter? replica q = some (stage, replica')) :
    Faithful r (s.arrives replica' q stage) where
  once := h.once
  known key sec hsec := by
    rw [arrives, List.length_append]
    exact Nat.lt_add_right _ (h.known key sec hsec)
  follows task q' status hat := by
    rw [arrives, List.getElem?_append] at hat
    split at hat
    case isTrue => exact h.follows task q' status hat
    case isFalse hge =>
      obtain ⟨rfl, rfl⟩ := Prod.mk.inj (List.mem_singleton.mp (List.mem_of_getElem? hat))
      -- its place is new, and sections are those of requests that came in before
      have hnone : ∀ key, ∀ sec ∈ s.sections key, sec.task ≠ task := fun key sec hsec heq =>
        hge (heq ▸ h.known key sec hsec)
      have hcourse : Course s.sections task q' stage [] := by
        refine ⟨?_, ?_, fun key sec hsec heq => absurd heq (hnone key sec hsec), ?_,
          fun _ _ hmem => absurd hmem List.not_mem_nil⟩
        · cases q' with
          | info => cases henter
          | copy entries =>
            obtain ⟨rfl, -⟩ := Prod.mk.inj (Option.some.inj henter)
            exact (Stage.ahead_copying ..).symm
          | sync =>
            obtain ⟨rfl, -⟩ := Prod.mk.inj (Option.some.inj henter)
            rfl
        · rintro hcopy key expectedHash timestamp delta rfl
          obtain ⟨rfl, -⟩ := Prod.mk.inj (Option.some.inj henter)
          cases hcopy
        · intro key work hwork
          rw [(enter?_eq henter).2.1] at hwork
          cases hwork
      refine hcourse.follows fun _ _ _ _ _ hq hreply => ?_
      subst hq
      obtain ⟨rfl, -⟩ := Prod.mk.inj (Option.some.inj henter)
      cases hreply

/-- Every step of a run keeps the record faithful. -/
theorem step (h : Faithful r s) (hserial : Serialized r s) (hstep : Step s s') :
    Faithful r s' := by
  cases hstep with
  | arrive q henter => exact h.arrive henter
  | advance task hat hadvance => exact h.advance hserial hat hadvance
  | drop task hat hsuspended => exact h.drop hserial hat hsuspended

/-- A task has at most one section under a key. -/
theorem eq_of_task_eq (h : Faithful r s) {key : Key} {sec sec' : Section}
    (hsec : sec ∈ s.sections key) (hsec' : sec' ∈ s.sections key) (htask : sec.task = sec'.task) :
    sec = sec' :=
  List.inj_on_of_nodup_map (List.pairwise_map.mpr (h.once key)) hsec hsec' htask

theorem start (r : Replica) : Faithful r (Busy.start r) where
  once _ := .nil
  known _ _ hsec := nomatch hsec
  follows _ _ _ hat := nomatch hat

end Faithful

/-- By induction over the run. The two invariants go together, because what a request answers
depends on what the sections before it have left. -/
theorem Reached.serialized_faithful {r : Replica} {s : Busy} (hlocks : KeyLocks.Reached r.locks)
    (hfree : r.locks.claims = [])
    (hmemory : ∀ tried key value, r.store.fault tried key value = none) (h : Reached r s) :
    Serialized r s ∧ Faithful r s := by
  induction h with
  | refl => exact ⟨.start hlocks hfree hmemory, .start r⟩
  | tail _ hstep ih => exact ⟨ih.1.step hstep, ih.2.step ih.1 hstep⟩

end Busy

end DeltaMesh
