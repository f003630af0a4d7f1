import DeltaMesh.Proofs.Replica.Answers
import DeltaMesh.Proofs.Replica.Steps
import DeltaMesh.Proofs.Wire.Payload

/-!
# Concurrent writes are serializable

Whatever COPY and SYNC requests are under way at a replica that keeps its values in memory, and
wherever some of them were dropped, the value under each key and the answers to SYNC requests are
those of one section after the other, in the order in which the lock of the key was taken
(`Busy.serializable`).

Of several copies of one SYNC the first to get the lock stores the value and the others find it in
place (`Busy.Repeated.outcome`). If the value was in place before, all of them do.
-/

namespace DeltaMesh

namespace Busy

/-! ### Copies of one SYNC -/

/-- A SYNC of a key that announces this hash and carries this delta, whenever it was sent. -/
def IsCopy (key : Key) (expectedHash : Id) (delta : ByteArray) (q : Request) : Prop :=
  ∃ timestamp, q = .sync key expectedHash timestamp delta

/-- All that was asked for under a key are copies of one SYNC, and all of them were answered. -/
structure Repeated (key : Key) (expectedHash : Id) (delta : ByteArray) (s : Busy) : Prop where
  alike : ∀ p ∈ s.tasks, ∀ work, (key, work) ∈ worksOf p.1 → IsCopy key expectedHash delta p.1
  answered : ∀ p ∈ s.tasks, IsCopy key expectedHash delta p.1 →
    ∃ response, p.2 = .answered response

/-- One copy of a SYNC has stored the value, and all others have found it in place. -/
def OneApplied (key : Key) (expectedHash : Id) (delta : ByteArray) (s : Busy) : Prop :=
  ∃ (first : Nat) (q : Request), IsCopy key expectedHash delta q ∧
    s.tasks[first]? = some (q, .answered (.syncAck .applied)) ∧
    ∀ (other : Nat) (q' : Request) (status : Status), other ≠ first →
      IsCopy key expectedHash delta q' → s.tasks[other]? = some (q', status) →
        status = .answered (.syncAck .unchanged)

/-- All copies of a SYNC have found the value in place. -/
def NoneApplied (key : Key) (expectedHash : Id) (delta : ByteArray) (s : Busy) : Prop :=
  ∀ (task : Nat) (q : Request) (status : Status), IsCopy key expectedHash delta q →
    s.tasks[task]? = some (q, status) → status = .answered (.syncAck .unchanged)

section

variable {r : Replica} {s : Busy} {key : Key} {expectedHash : Id} {delta value : ByteArray}
  {stored? : Option ByteArray} {blockSize : Nat} {l : List Section}

/-- Once a copy of a SYNC was carried out the value that it announces is in place, and stays there
under further copies. -/
theorem found_valueAfter (hvalue : Rebuilds stored? delta blockSize value)
    (hhash : Id.ofContent value = expectedHash)
    (hl : ∀ sec ∈ l, sec.work = .sync expectedHash delta ∧ sec.fate = .ended)
    (hfirst : l = [] → stored?.map Id.ofContent = some expectedHash) :
    (valueAfter key blockSize stored? l).map Id.ofContent = some expectedHash := by
  induction l with
  | nil => exact hfirst rfl
  | cons sec older ih =>
    obtain ⟨hwork, hfate⟩ := hl sec List.mem_cons_self
    have ih := ih fun sec hsec => hl sec (List.mem_cons_of_mem _ hsec)
    rw [valueAfter, Section.run, hfate, hwork]
    show (left _ (syncVerdict _ key expectedHash delta blockSize)).map Id.ofContent = _
    by_cases hfound : (valueAfter key blockSize stored? older).map Id.ofContent = some expectedHash
    · rw [syncVerdict_of_found key hfound]
      exact hfound
    · cases older with
      | nil =>
        rw [valueAfter] at hfound ⊢
        rw [syncVerdict_of_rebuilds hfound hvalue hhash]
        exact congrArg some hhash
      | cons => exact absurd (ih fun heq => absurd heq (List.cons_ne_nil _ _)) hfound

/-- A section of a task is the first one of its key if and only if it has none before it. -/
theorem older_eq_nil_iff {sec : Section} {newer older : List Section}
    (honce : l.Pairwise fun a b => a.task ≠ b.task) (hl : l = newer ++ sec :: older) :
    older = [] ↔ l.getLast?.map Section.task = some sec.task := by
  subst hl
  have hlater := (List.pairwise_cons.mp (List.pairwise_append.mp honce).2.1).1
  rw [List.getLast?_append, List.getLast?_cons]
  cases hlast : older.getLast? with
  | none => exact iff_of_true (List.getLast?_eq_none_iff.mp hlast) rfl
  | some last =>
    have hmem := List.mem_of_getLast? hlast
    refine iff_of_false (List.ne_nil_of_mem hmem) fun heq => ?_
    exact hlater last hmem (Option.some.inj heq).symm

/-- Under the key of a SYNC that comes in several copies there is nothing but their sections. -/
theorem Repeated.sections (h : Repeated key expectedHash delta s) (hfaithful : Faithful r s)
    {sec : Section} (hsec : sec ∈ s.sections key) :
    (sec.work = .sync expectedHash delta ∧ sec.fate = .ended) ∧
      ∃ q status, IsCopy key expectedHash delta q ∧ s.tasks[sec.task]? = some (q, status) := by
  obtain ⟨⟨q, status⟩, hat⟩ : ∃ p, s.tasks[sec.task]? = some p :=
    ⟨_, List.getElem?_eq_getElem (hfaithful.known key sec hsec)⟩
  have hmem := List.mem_of_getElem? hat
  have hfollows := hfaithful.follows sec.task q status hat
  have hwork := hfollows.recorded key sec hsec rfl
  have hcopy := h.alike _ hmem _ hwork
  obtain ⟨response, rfl⟩ := h.answered _ hmem hcopy
  have hserved := hfollows.served response rfl key _ hwork
  -- a task has one section under a key, so the section that has ended is this one
  have hended := congrArg Section.fate (hfaithful.eq_of_task_eq hserved hsec rfl)
  refine ⟨⟨?_, hended.symm⟩, q, _, hcopy, hat⟩
  obtain ⟨timestamp, rfl⟩ := hcopy
  exact (Prod.mk.inj (List.mem_singleton.mp hwork)).2

/-- What the copies of a SYNC are answered. If the value was in place from the beginning, then none
of them is applied; otherwise one of them is, and all others find the value in place. -/
theorem Repeated.outcome (h : Repeated key expectedHash delta s) (hfaithful : Faithful r s)
    (hcopy : ∃ p ∈ s.tasks, IsCopy key expectedHash delta p.1)
    (hvalue : Rebuilds (r.store.get? key) delta r.blockSize value)
    (hhash : Id.ofContent value = expectedHash) :
    if (r.store.get? key).map Id.ofContent = some expectedHash then
      NoneApplied key expectedHash delta s
    else OneApplied key expectedHash delta s := by
  have htold : ∀ (task : Nat) (q : Request) (status : Status), IsCopy key expectedHash delta q →
      s.tasks[task]? = some (q, status) → ∃ newer older, s.sections key =
        newer ++ ⟨task, .sync expectedHash delta, .ended⟩ :: older ∧ status = .answered (syncReply
          (syncVerdict (valueAfter key r.blockSize (r.store.get? key) older) key expectedHash delta
            r.blockSize)) := by
    rintro task q status ⟨timestamp, rfl⟩ hat
    obtain ⟨response, rfl⟩ := h.answered _ (List.mem_of_getElem? hat) ⟨timestamp, rfl⟩
    obtain ⟨newer, older, hsplit, rfl⟩ := (hfaithful.follows task _ _ hat).told key expectedHash
      timestamp delta response rfl rfl
    exact ⟨newer, older, hsplit, rfl⟩
  have hfound : ∀ {newer older : List Section} {sec : Section},
      s.sections key = newer ++ sec :: older →
      (older = [] → (r.store.get? key).map Id.ofContent = some expectedHash) →
      (valueAfter key r.blockSize (r.store.get? key) older).map Id.ofContent = some expectedHash :=
    fun hsplit hfirst => found_valueAfter hvalue hhash
      (fun sec hsec => (h.sections hfaithful (hsplit ▸ List.mem_append_right _
        (List.mem_cons_of_mem _ hsec))).1) hfirst
  split
  case isTrue hheld =>
    intro task q status hcopy hat
    obtain ⟨newer, older, hsplit, rfl⟩ := htold task q status hcopy hat
    rw [syncVerdict_of_found key (hfound hsplit fun _ => hheld)]
    rfl
  case isFalse hother =>
    obtain ⟨first, hfirst⟩ : ∃ first, (s.sections key).getLast? = some first := by
      obtain ⟨p, hp, hcopy⟩ := hcopy
      obtain ⟨task, hat⟩ := List.mem_iff_getElem?.mp hp
      obtain ⟨newer, older, hsplit, -⟩ := htold task p.1 p.2 hcopy hat
      refine ⟨_, List.getLast?_eq_some_getLast (fun hnil => ?_)⟩
      rw [hsplit] at hnil
      exact List.append_ne_nil_of_right_ne_nil _ (List.cons_ne_nil _ _) hnil
    have hnil : ∀ {newer older : List Section} {task : Nat} {work : Work} {fate : Fate},
        s.sections key = newer ++ ⟨task, work, fate⟩ :: older →
          (older = [] ↔ first.task = task) := by
      intro newer older task work fate hsplit
      rw [older_eq_nil_iff (hfaithful.once key) hsplit, hfirst]
      exact Option.some_inj
    -- the copy with the first section finds the old value, all others what it has left
    obtain ⟨-, q, status, hcopy, hat⟩ := h.sections hfaithful (List.mem_of_getLast? hfirst)
    refine ⟨first.task, q, hcopy, ?_, fun other q' status' hne hcopy' hat' => ?_⟩
    · obtain ⟨newer, older, hsplit, rfl⟩ := htold first.task q status hcopy hat
      rw [(hnil hsplit).mpr rfl, valueAfter, syncVerdict_of_rebuilds hother hvalue hhash] at hat
      exact hat
    · obtain ⟨newer, older, hsplit, rfl⟩ := htold other q' status' hcopy' hat'
      rw [syncVerdict_of_found key (hfound hsplit fun heq => ?_)]
      · rfl
      · exact absurd ((hnil hsplit).mp heq).symm hne

theorem Repeated.not_oneApplied (h : Repeated key expectedHash delta s) (hfaithful : Faithful r s)
    (hvalue : Rebuilds (r.store.get? key) delta r.blockSize value)
    (hhash : Id.ofContent value = expectedHash)
    (hheld : (r.store.get? key).map Id.ofContent = some expectedHash) :
    ¬OneApplied key expectedHash delta s := by
  rintro ⟨first, q, hcopy, hat, -⟩
  have houtcome := h.outcome hfaithful ⟨_, List.mem_of_getElem? hat, hcopy⟩ hvalue hhash
  rw [if_pos hheld] at houtcome
  cases houtcome first q _ hcopy hat

end

/-! ### Any requests -/

/-- What a replica has come to from `r` is what its sections come to one after the other. -/
structure Serializable (r : Replica) (s : Busy) : Prop where
  /-- At most one task holds the lock of a key. -/
  exclusive : ∀ key task other, s.replica.locks.Refers task key .holding →
    s.replica.locks.Refers other key .holding → other = task
  /-- Whoever took the lock of a key before the latest one did has ended or was dropped. -/
  settled : ∀ key, ∀ sec ∈ (s.sections key).tail, sec.fate ≠ .underWay
  /-- The value under a key is the one that its sections leave, one after the other. -/
  serial : ∀ key, s.replica.store.get? key =
    valueAfter key r.blockSize (r.store.get? key) (s.sections key)
  once : ∀ key, (s.sections key).Pairwise fun a b => a.task ≠ b.task
  /-- The sections of a task do what its request asks for. -/
  asked : ∀ key, ∀ sec ∈ s.sections key,
    ∃ q status, s.tasks[sec.task]? = some (q, status) ∧ (key, sec.work) ∈ worksOf q
  /-- A request that was answered has ended all of its sections. -/
  served : ∀ (task : Nat) (q : Request) (response : Response),
    s.tasks[task]? = some (q, .answered response) →
      ∀ key work, (key, work) ∈ worksOf q → ⟨task, work, .ended⟩ ∈ s.sections key
  /-- A SYNC is answered what its section tells after all those before it. -/
  told : ∀ (task : Nat) (key : Key) (expectedHash : Id) (timestamp : Int64) (delta : ByteArray)
    (response : Response),
    s.tasks[task]? = some (.sync key expectedHash timestamp delta, .answered response) →
      Told r s.sections task key expectedHash delta response
  /-- A SYNC that was dropped has ended no section: it has changed no value. -/
  undone : ∀ (task : Nat) (key : Key) (expectedHash : Id) (timestamp : Int64) (delta : ByteArray)
    (last : Stage), s.tasks[task]? = some (.sync key expectedHash timestamp delta, .dropped last) →
      ∀ k, ∀ sec ∈ s.sections k, sec.task = task → sec.fate = .dropped
  /-- A request that was dropped neither holds a lock nor waits for one. -/
  released : ∀ (task : Nat) (q : Request) (last : Stage),
    s.tasks[task]? = some (q, .dropped last) →
      ∀ key grip, ¬s.replica.locks.Refers task key grip
  /-- Of the copies of one SYNC exactly one is applied, unless the value was in place before. -/
  copies : ∀ (key : Key) (expectedHash : Id) (delta value : ByteArray),
    Repeated key expectedHash delta s → (∃ p ∈ s.tasks, IsCopy key expectedHash delta p.1) →
    Rebuilds (r.store.get? key) delta r.blockSize value → Id.ofContent value = expectedHash →
      if (r.store.get? key).map Id.ofContent = some expectedHash then
        NoneApplied key expectedHash delta s
      else OneApplied key expectedHash delta s
  /-- No request waits for ever for another one. -/
  finishes : ∃ s', Finishes s s'

section

variable {r : Replica} {s : Busy} (hlocks : KeyLocks.Reached r.locks)
  (hfree : r.locks.claims = [])
  (hmemory : ∀ tried key value, r.store.fault tried key value = none)

include hlocks hfree hmemory

/-- In whatever order the steps of COPY and SYNC requests come, and wherever requests are dropped,
what happens under each key is what happens when those who took its lock are carried out one at a
time in that order. -/
theorem serializable (h : Reached r s) : Serializable r s := by
  obtain ⟨hserial, hfaithful⟩ := h.serialized_faithful hlocks hfree hmemory
  refine ⟨fun key task other htask hother => hserial.locked.inOrder.eq_of_refers htask hother,
    hserial.settled, hserial.serial, hfaithful.once, fun key sec hsec => ?_,
    fun task q response hat => (hfaithful.follows task q _ hat).served response rfl,
    fun task key expectedHash timestamp delta response hat => ?_,
    fun task key expectedHash timestamp delta last hat => ?_,
    fun task q last hat key grip hrefers => ?_,
    fun key expectedHash delta value hrepeated hcopy hvalue hhash =>
      hrepeated.outcome hfaithful hcopy hvalue hhash,
    hserial.locked.exists_finishes⟩
  · obtain ⟨⟨q, status⟩, hat⟩ : ∃ p, s.tasks[sec.task]? = some p :=
      ⟨_, List.getElem?_eq_getElem (hfaithful.known key sec hsec)⟩
    exact ⟨q, status, hat, (hfaithful.follows _ q status hat).recorded key sec hsec rfl⟩
  · exact (hfaithful.follows task _ _ hat).told key expectedHash timestamp delta response rfl rfl
  · exact (hfaithful.follows task _ _ hat).gone key expectedHash timestamp delta last rfl rfl
  · have hclaim := (hserial.locked.claimed task key grip).mp hrefers
    rw [claim?, showing_of_active hat] at hclaim
    cases hclaim

end

/-! ### Copies that come in together -/

/-- Copies of a SYNC that come in together can all be answered, so that what is said about them is
said about something. -/
theorem exists_repeated {r : Replica} (hlocks : KeyLocks.Reached r.locks)
    (hfree : r.locks.claims = []) (key : Key) (expectedHash : Id) (timestamp : Int64)
    (delta : ByteArray) (n : Nat) : ∃ s, Reached r s ∧ Repeated key expectedHash delta s ∧
      s.tasks.map Prod.fst = List.replicate n (.sync key expectedHash timestamp delta) := by
  let q : Request := .sync key expectedHash timestamp delta
  let begun : Request × Status := (q, .active (.asks (.sync key expectedHash delta)))
  have hbegun : Reached r { start r with tasks := List.replicate n begun } := by
    induction n with
    | zero => exact .refl
    | succ n ih =>
      rw [List.replicate_succ']
      exact ih.tail (.arrive q rfl)
  obtain ⟨s, hfinishes⟩ := (hbegun.locked hlocks hfree).exists_finishes
  have hlength : s.tasks.length = n := hfinishes.length.trans List.length_replicate
  have hserved : ∀ p ∈ s.tasks, p.1 = q ∧ ∃ response, p.2 = .answered response := by
    intro p hp
    obtain ⟨task, hat⟩ := List.mem_iff_getElem?.mp hp
    have hlt := hlength ▸ (List.getElem?_eq_some_iff.mp hat).1
    obtain ⟨response, hanswered⟩ := hfinishes.answered task q (.asks (.sync key expectedHash delta))
      (List.getElem?_replicate_of_lt hlt)
    obtain rfl := Option.some.inj (hanswered.symm.trans hat)
    exact ⟨rfl, response, rfl⟩
  refine ⟨s, hfinishes.reached hbegun, ⟨?_, ?_⟩, ?_⟩
  · exact fun p hp _ _ => ⟨timestamp, (hserved p hp).1⟩
  · exact fun p hp _ => (hserved p hp).2
  · refine List.eq_replicate_iff.mpr ⟨by rw [List.length_map, hlength], fun q' hq' => ?_⟩
    obtain ⟨p, hp, rfl⟩ := List.mem_map.mp hq'
    exact (hserved p hp).1

/-- Instructions that fit into a payload are read from it, and replayed. -/
theorem rebuilds_encodeDelta {stored? : Option ByteArray} {d : Delta} {blockSize : Nat}
    {value : ByteArray} (hsize : (Wire.putDelta d).size ≤ Wire.maxInflated)
    (hvalue : rebuild (stored?.getD .empty) d blockSize = .ok value) :
    Rebuilds stored? (Wire.encodeDelta d) blockSize value :=
  have hshort := Nat.lt_of_le_of_lt hsize (by decide : Wire.maxInflated < UInt32.size)
  ⟨d, (Wire.carried_delta d hshort).ok hsize, hvalue⟩

/-- Where the value is not in place yet one of the copies is applied. -/
theorem Serializable.oneApplied {r : Replica} {s : Busy} {key : Key} {expectedHash : Id}
    {delta value : ByteArray} (h : Serializable r s) (hrepeated : Repeated key expectedHash delta s)
    (hcopy : ∃ p ∈ s.tasks, IsCopy key expectedHash delta p.1)
    (hvalue : Rebuilds (r.store.get? key) delta r.blockSize value)
    (hhash : Id.ofContent value = expectedHash)
    (hother : (r.store.get? key).map Id.ofContent ≠ some expectedHash) :
    OneApplied key expectedHash delta s := by
  have hcopies := h.copies key expectedHash delta value hrepeated hcopy hvalue hhash
  rwa [if_neg hother] at hcopies

/-- Two copies of a SYNC that puts two bytes in place of the first block of a value. -/
theorem serializable_twice :
    let key := Key.firstUnder .zero
    let base : ByteArray := ⟨#[5, 1, 1, 2]⟩
    let value : ByteArray := ⟨#[3, 7, 1, 2]⟩
    let delta := Wire.encodeDelta [.literal ⟨#[3, 7]⟩, .reference 1]
    let q : Request := .sync key (.ofContent value) 0 delta
    let r := Replica.ofStore (.alone default)
      { Store.empty with entries := .ofPairs [(key, base)] } 2
    r.store.get? key = some base ∧ Rebuilds (some base) delta 2 value ∧
      ∃ s, Reached r s ∧ s.tasks.map Prod.fst = [q, q] ∧
        OneApplied key (.ofContent value) delta s := by
  intro key base value delta q r
  have hlocks : KeyLocks.Reached r.locks := .refl
  have hheld : r.store.get? key = some base := Entries.getElem?_single key base
  have hvalue : Rebuilds (some base) delta 2 value :=
    rebuilds_encodeDelta (by decide) (by decide +kernel)
  obtain ⟨s, hreached, hrepeated, htasks⟩ :=
    exists_repeated hlocks rfl key (.ofContent value) 0 delta 2
  refine ⟨hheld, hvalue, s, hreached, htasks, ?_⟩
  have hserializable := serializable hlocks rfl (fun _ _ _ => rfl) hreached
  have hmem : q ∈ s.tasks.map Prod.fst := by
    rw [htasks]
    exact List.mem_cons_self
  obtain ⟨p, hp, hq⟩ := List.mem_map.mp hmem
  have hrebuilds : Rebuilds (r.store.get? key) delta r.blockSize value := by
    rw [hheld]
    exact hvalue
  have hother : (r.store.get? key).map Id.ofContent ≠ some (.ofContent value) := by
    rw [hheld]
    decide +kernel
  exact hserializable.oneApplied hrepeated ⟨p, hp, 0, hq⟩ hrebuilds rfl hother

/-- A SYNC whose instructions make the value that it announces out of the one that is stored, and
it is not applied: the two are the same. -/
theorem repeated_not_applied :
    let key := Key.firstUnder .zero
    let value : ByteArray := ⟨#[3, 7, 1, 2]⟩
    let delta := Wire.encodeDelta [.literal ⟨#[3, 7]⟩, .reference 1]
    let r := Replica.ofStore (.alone default)
      { Store.empty with entries := .ofPairs [(key, value)] } 2
    Rebuilds (r.store.get? key) delta r.blockSize value ∧
      ∃ s, Reached r s ∧ Repeated key (.ofContent value) delta s ∧
        s.tasks.map Prod.fst = [.sync key (.ofContent value) 0 delta] ∧
        ¬OneApplied key (.ofContent value) delta s := by
  intro key value delta r
  have hlocks : KeyLocks.Reached r.locks := .refl
  have hstored : r.store.get? key = some value := Entries.getElem?_single key value
  have hvalue : Rebuilds (r.store.get? key) delta r.blockSize value := by
    rw [hstored]
    exact rebuilds_encodeDelta (by decide) (by decide +kernel)
  obtain ⟨s, hreached, hrepeated, htasks⟩ :=
    exists_repeated hlocks rfl key (.ofContent value) 0 delta 1
  refine ⟨hvalue, s, hreached, hrepeated, htasks, ?_⟩
  obtain ⟨-, hfaithful⟩ := hreached.serialized_faithful hlocks rfl fun _ _ _ => rfl
  exact hrepeated.not_oneApplied hfaithful hvalue rfl (by rw [hstored]; rfl)

end Busy

end DeltaMesh
