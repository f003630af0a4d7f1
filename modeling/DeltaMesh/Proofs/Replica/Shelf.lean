import DeltaMesh.Proofs.Replica.Effect

/-!
# One location at a replica

The values that a replica holds under a location, and whether it is responsible for it, make up its
`Shelf` for the location. A request about one location is answered from that shelf and changes no
other one. In its first turn it is either done or leaves something to compute
(`Replica.turn_received`); then it is settled what the answer will be and what will be stored
(`Replica.Promises`), and the next turn keeps to that (`Replica.turn_promised`), whatever is done on
other shelves meanwhile.
-/

namespace DeltaMesh

/-- What a replica has of one location. -/
@[ext]
structure Shelf where
  held : Key → Option ByteArray
  /-- The replica is responsible for the location. -/
  owned : Prop

/-- The shelf when values were stored, at a replica that finds itself to be the owner if `mine`. -/
def Shelf.after (s : Shelf) (mine : Prop) (left : Key → Option ByteArray) : Shelf where
  held k := (left k).or (s.held k)
  owned := (∃ k value, left k = some value) ∧ mine ∨ (∀ k, left k = none) ∧ s.owned

theorem Shelf.after_none (s : Shelf) (mine : Prop) : s.after mine (fun _ => none) = s :=
  Shelf.ext (funext fun _ => Option.none_or) (propext (by simp [Shelf.after]))

/-- The request is about values under the location only. -/
def Request.About (location : Id) (q : Request) : Prop := ∀ k, q.Concerns k → k.location = location

namespace Replica

variable {r r' r'' : Replica} {location : Id} {left : Key → Option ByteArray} {task bound : Nat}

/-- What the replica has of a location. -/
def shelf (r : Replica) (location : Id) : Shelf where
  held k := if k.location = location then r.store.get? k else none
  owned := location ∈ r.tracker.owned

/-- In the eyes of the replica it owns the location. -/
def Owns (r : Replica) (location : Id) : Prop :=
  (r.directory.owner location).id = r.directory.self.id

/-- No one refers to the locks of keys under the location. -/
def Free (r : Replica) (location : Id) : Prop := ∀ k, k.location = location → r.locks.on k = []

theorem held_shelf {k : Key} (hk : k.location = location) :
    (r.shelf location).held k = r.store.get? k := if_pos hk

/-- Two replicas that have the same of every location hold the same values and are responsible for
the same locations. -/
theorem eq_of_shelves (h : ∀ location, r'.shelf location = r.shelf location) :
    r'.store.entries = r.store.entries ∧ r'.tracker.owned = r.tracker.owned := by
  constructor
  · refine Std.ExtTreeMap.ext_getElem? fun k => ?_
    have hheld := congrFun (congrArg Shelf.held (h k.location)) k
    rwa [held_shelf rfl, held_shelf rfl] at hheld
  · exact Std.ExtTreeSet.ext_mem fun location => iff_of_eq (congrArg Shelf.owned (h location))

/-- A request about the location is answered from its shelf. -/
theorem answer_shelf {q : Request} (habout : q.About location) :
    q.answer r.blockSize (r.shelf location).held = q.answer r.blockSize r.store.get? :=
  Request.answer_congr fun k hk => held_shelf (habout k hk)

/-- What a request about a location does depends only on the values under it. -/
theorem leaves_shelf {q : Request} (habout : q.About location) :
    q.leaves r.blockSize (r.shelf location).held = q.leaves r.blockSize r.store.get? :=
  Request.leaves_congr fun k hk => held_shelf (habout k hk)

/-- Nothing has changed but under the locations `L`. -/
structure Keeps (L : Id → Prop) (r r' : Replica) : Prop where
  directory : r'.directory = r.directory
  blockSize : r'.blockSize = r.blockSize
  fault : r'.store.fault = r.store.fault
  shelf : ∀ location, ¬L location → r'.shelf location = r.shelf location
  locks : ∀ k, ¬L k.location → r'.locks.on k = r.locks.on k

namespace Keeps

variable {L : Id → Prop}

theorem refl (L : Id → Prop) (r : Replica) : Keeps L r r :=
  ⟨rfl, rfl, rfl, fun _ _ => rfl, fun _ _ => rfl⟩

theorem trans (h : Keeps L r r') (h' : Keeps L r' r'') : Keeps L r r'' where
  directory := h'.directory.trans h.directory
  blockSize := h'.blockSize.trans h.blockSize
  fault := h'.fault.trans h.fault
  shelf location hlocation := (h'.shelf location hlocation).trans (h.shelf location hlocation)
  locks k hk := (h'.locks k hk).trans (h.locks k hk)

theorem mono {L' : Id → Prop} (h : Keeps L r r') (hL : ∀ location, L location → L' location) :
    Keeps L' r r' :=
  { h with
    shelf := fun location hlocation => h.shelf location fun hmem => hlocation (hL location hmem)
    locks := fun k hk => h.locks k fun hmem => hk (hL k.location hmem) }

/-- Ownership is read off the directory, which stays. -/
theorem owns (h : Keeps L r r') (location : Id) : r'.Owns location ↔ r.Owns location := by
  rw [Owns, Owns, h.directory]

/-- Locks of locations that are not touched stay free. -/
theorem free (h : Keeps L r r') (hlocation : ¬L location) (hfree : r.Free location) :
    r'.Free location := fun k hk => (h.locks k (hk ▸ hlocation)).trans (hfree k hk)

end Keeps

/-- What is left behind is under the location. -/
def Under (location : Id) (left : Key → Option ByteArray) : Prop :=
  ∀ k value, left k = some value → k.location = location

theorem under_syncLeaves {key : Key} (hkey : key.location = location)
    (verdict : Except ExchangeError (Option ByteArray)) :
    Under location (syncLeaves key verdict) := fun k value hk => by
  rw [syncLeaves] at hk
  split at hk
  case isTrue heq => exact heq ▸ hkey
  case isFalse => cases hk

namespace Stored

/-- What is left under a location replaces what was there, and the tracker looks at the location if
anything was stored. -/
theorem shelf_self (h : Stored left r r') (hleft : Under location left) :
    r'.shelf location = (r.shelf location).after (r.Owns location) left := by
  refine Shelf.ext (funext fun k => ?_) (propext ?_)
  · show (if k.location = location then r'.store.get? k else none) =
      (left k).or (if k.location = location then r.store.get? k else none)
    by_cases hk : k.location = location
    · rw [if_pos hk, if_pos hk, h.held]
    · have hnone : left k = none :=
        Option.eq_none_iff_forall_ne_some.mpr fun value hvalue => hk (hleft k value hvalue)
      rw [if_neg hk, if_neg hk, hnone, Option.none_or]
  · have htouches : Touches left location ↔ ∃ k value, left k = some value :=
      ⟨fun ⟨k, value, hk, _⟩ => ⟨k, value, hk⟩,
        fun ⟨k, value, hk⟩ => ⟨k, value, hk, hleft k value hk⟩⟩
    have hnone : (¬∃ k value, left k = some value) ↔ ∀ k, left k = none := by
      simp [Option.eq_none_iff_forall_ne_some]
    rw [show (r'.shelf location).owned ↔ _ from h.mem_owned, htouches, hnone]
    rfl

/-- The shelves of other locations stay as they are. -/
theorem shelf_of_ne (h : Stored left r r') (hleft : Under location left) {other : Id}
    (hne : other ≠ location) : r'.shelf other = r.shelf other := by
  have huntouched : ∀ k value, left k = some value → k.location ≠ other := fun k value hk heq =>
    hne (heq.symm.trans (hleft k value hk))
  refine Shelf.ext (funext fun k => ?_) (propext ?_)
  · show (if k.location = other then r'.store.get? k else none) =
      if k.location = other then r.store.get? k else none
    split
    case isTrue hk =>
      have hnone : left k = none :=
        Option.eq_none_iff_forall_ne_some.mpr fun value hvalue => huntouched k value hvalue hk
      rw [h.held, hnone, Option.none_or]
    case isFalse => rfl
  · exact h.spared other fun ⟨k, value, hk, heq⟩ => huntouched k value hk heq

/-- Only the shelf of the location changes. -/
theorem keeps (h : Stored left r r') (hleft : Under location left)
    (hlocks : ∀ k, k.location ≠ location → r'.locks.on k = r.locks.on k) :
    r.Keeps (· = location) r' where
  directory := h.directory
  blockSize := h.blockSize
  fault := h.fault
  shelf _ hother := h.shelf_of_ne hleft hother
  locks := hlocks

end Stored

/-! ### The turns of a request -/

/-- It is settled how a request will be answered, and what it will leave under the location. -/
inductive Promises (location : Id) (task : Nat) (r : Replica) :
    Service → Response → (Key → Option ByteArray) → Prop
  | signing {answer : Response} (hfree : r.Free location) :
    Promises location task r (.signing answer) answer fun _ => none
  | rebuilding {key : Key} {verdict : Except ExchangeError (Option ByteArray)} {lock : Nat}
    (hkey : key.location = location) (hlock : r.locks.on key = [⟨task, key, lock, .holding⟩])
    (hfree : ∀ k, k.location = location → k ≠ key → r.locks.on k = []) :
    Promises location task r (.rebuilding key verdict) (syncAnswer verdict)
      (syncLeaves key verdict)

/-- A promise rests on the locks of the location only, so it is kept while others are dealt with. -/
theorem Promises.kept {L : Id → Prop} {service : Service} {response : Response}
    (h : r.Promises location task service response left) (hkeeps : r.Keeps L r')
    (hlocation : ¬L location) : r'.Promises location task service response left := by
  cases h with
  | signing hfree => exact .signing (hkeeps.free hlocation hfree)
  | rebuilding hkey hlock hfree =>
    refine .rebuilding hkey ((hkeeps.locks _ (hkey ▸ hlocation)).trans hlock) fun k hk hne => ?_
    exact (hkeeps.locks k (hk ▸ hlocation)).trans (hfree k hk hne)

/-- What becomes in its first turn of a request that is to be answered with `response` and to leave
`left` behind: this is done, or promised. -/
structure Taken (location : Id) (task : Nat) (response : Response) (left : Key → Option ByteArray)
    (r : Replica) (ended : Service.Stop × Replica) : Prop where
  keeps : r.Keeps (· = location) ended.2
  sound : ended.2.locks.Sound (task + 1)
  stop : ended.1 = .answered response ∧
        ended.2.shelf location = (r.shelf location).after (r.Owns location) left ∧
        ended.2.Free location ∨
      ∃ effort rest, ended.1 = .computing effort rest ∧
        ended.2.shelf location = r.shelf location ∧
        ended.2.Promises location task rest response left

/-- INFO takes one or two turns and leaves every shelf as it was. -/
theorem taken_info (key : Key) (hfree : r.Free location) (hsound : r.locks.Sound task) (hash : Id)
    (timestamp : Int64) :
    r.Taken location task (infoAnswer (r.store.get? key) hash timestamp r.blockSize) (fun _ => none)
      (r.turn task (.received (.info key hash timestamp))) := by
  have hkeeps : ∀ served, r.Keeps (· = location) { r with served } := fun _ =>
    ⟨rfl, rfl, rfl, fun _ _ => rfl, fun _ _ => rfl⟩
  have hsame : r.shelf location =
      (r.shelf location).after (r.Owns location) fun _ => none := (Shelf.after_none _ _).symm
  have hsound' := hsound.mono (Nat.le_succ task)
  cases hheld : r.store.get? key with
  | none =>
    obtain ⟨served, hturn⟩ := turn_info_nothing task hheld hash timestamp
    rw [hturn]
    exact ⟨hkeeps served, hsound', .inl ⟨rfl, hsame, hfree⟩⟩
  | some value =>
    by_cases hhash : Id.ofContent value = hash
    · subst hhash
      obtain ⟨served, hturn⟩ := turn_info_same task hheld timestamp
      rw [hturn, infoAnswer, if_pos rfl]
      exact ⟨hkeeps served, hsound', .inl ⟨rfl, hsame, hfree⟩⟩
    · obtain ⟨served, hturn⟩ := turn_info_other task hheld hhash timestamp
      rw [hturn, infoAnswer, if_neg hhash]
      exact ⟨hkeeps served, hsound', .inr ⟨_, _, rfl, rfl, .signing hfree⟩⟩

/-- COPY takes one turn while the location is free, and leaves all its values. -/
theorem taken_copy {entries : Entries} (hentries : ∀ k ∈ entries, k.location = location)
    (hfree : r.Free location) (hsound : r.locks.Sound task)
    (hfault : ∀ tried key value, r.store.fault tried key value = none) (timestamp : Int64) :
    r.Taken location task (.copyAck entries.size.toUInt32) (entries[·]?)
      (r.turn task (.received (.copy entries timestamp))) := by
  have hfreed : ∀ k ∈ entries, r.locks.on k = [] := fun k hk => hfree k (hentries k hk)
  obtain ⟨hanswer, hserves⟩ := serve_copy entries timestamp hsound hfault hfreed
  have hunder : Under location (entries[·]?) := fun k value hk => hentries k <| by
    rw [Std.ExtTreeMap.mem_iff_isSome_getElem?, show entries[k]? = some value from hk]
    rfl
  have hlocks : ∀ k, (r.serve task (.copy entries timestamp)).2.locks.on k = r.locks.on k :=
    fun k => by rw [KeyLocks.on, hserves.claims, ← KeyLocks.on]
  rw [turn_copy_eq_serve entries timestamp hsound fun p hp =>
    hfreed p.1 (Entries.mem_of_mem_toList hp), hanswer]
  exact ⟨hserves.keeps hunder fun k _ => hlocks k, (hserves.sound task hsound).mono (Nat.le_succ _),
    .inl ⟨rfl, hserves.shelf_self hunder, fun k hk => (hlocks k).trans (hfree k hk)⟩⟩

/-- SYNC leaves the rebuilt value if its delta rebuilds the announced one, and otherwise nothing. -/
theorem taken_sync {key : Key} (hkey : key.location = location) (hfree : r.Free location)
    (hsound : r.locks.Sound task) (hfault : ∀ tried key value, r.store.fault tried key value = none)
    {hash : Id} {delta : ByteArray} {verdict : Except ExchangeError (Option ByteArray)}
    (hverdict : syncVerdict (r.store.get? key) key hash delta r.blockSize = verdict)
    (timestamp : Int64) : r.Taken location task (syncAnswer verdict) (syncLeaves key verdict)
      (r.turn task (.received (.sync key hash timestamp delta))) := by
  have hunder := under_syncLeaves hkey verdict
  by_cases hnone : verdict = .ok none
  · -- the value is in place, and the lock is given back at once
    obtain ⟨locks, htaken⟩ := hsound.take (hfree key hkey)
    obtain ⟨r', hrespond, hstored, -, hlocks⟩ :=
      respond_settleSync (r := { r with locks }) hfault key
      verdict (locks.release task).prune
    have hturn : r.turn task (.received (.sync key hash timestamp delta)) =
        (.answered (syncAnswer verdict), r') := by
      subst hnone
      rw [turn, turnSync]
      simp only [htaken.inTurn, hverdict]
      exact congrArg (fun p => (Service.Stop.answered p.1, p.2)) hrespond
    have hon : ∀ k, r'.locks.on k = r.locks.on k := fun k => by
      rw [hlocks]
      exact htaken.alike.on_eq k
    have hstored : Stored (syncLeaves key verdict) r r' :=
      ⟨hstored.directory, hstored.blockSize, hstored.fault, hstored.held, hstored.looked,
        hstored.spared⟩
    rw [hturn]
    exact ⟨hstored.keeps hunder fun k _ => hon k,
      hlocks ▸ (htaken.released.prune.mono (Nat.le_succ _)),
      .inl ⟨rfl, hstored.shelf_self hunder, fun k hk => (hon k).trans (hfree k hk)⟩⟩
  · obtain ⟨locks, lock, hturn, hmoves, hsound', hlock⟩ :=
      turn_sync hsound (hfree key hkey) hverdict hnone timestamp
    rw [hturn]
    refine ⟨⟨rfl, rfl, rfl, fun _ _ => rfl, fun k hk => hmoves.locks k fun heq => hk (heq ▸ hkey)⟩,
      hsound', .inr ⟨_, _, rfl, rfl, .rebuilding hkey hlock fun k hk hne => ?_⟩⟩
    exact (hmoves.locks k hne).trans (hfree k hk)

/-- The first turn of a request about the location: it is answered, or promises its answer for the
next turn. -/
theorem turn_received {q : Request} (habout : q.About location) (hfree : r.Free location)
    (hsound : r.locks.Sound task)
    (hfault : ∀ tried key value, r.store.fault tried key value = none) :
    r.Taken location task (q.answer r.blockSize (r.shelf location).held)
      (q.leaves r.blockSize (r.shelf location).held) (r.turn task (.received q)) := by
  rw [answer_shelf habout, leaves_shelf habout]
  cases q with
  | info key hash timestamp => exact taken_info key hfree hsound hash timestamp
  | copy entries timestamp => exact taken_copy habout hfree hsound hfault timestamp
  | sync key hash timestamp delta =>
    exact taken_sync (habout key rfl) hfree hsound hfault rfl timestamp

/-- In its second turn a request is answered as was promised, provided that nobody has touched its
location in between. -/
theorem turn_promised {service : Service} {response : Response}
    (h : r.Promises location task service response left) (hsound : r.locks.Sound bound)
    (hfault : ∀ tried key value, r.store.fault tried key value = none) :
    ∃ r', r.turn task service = (.answered response, r') ∧ r.Keeps (· = location) r' ∧
      r'.locks.Sound bound ∧
      r'.shelf location = (r.shelf location).after (r.Owns location) left ∧ r'.Free location := by
  cases h with
  | signing hfree => exact ⟨r, rfl, .refl _ r, hsound, (Shelf.after_none _ _).symm, hfree⟩
  | @rebuilding key verdict lock hkey hlock hfree =>
    have hunder := under_syncLeaves hkey verdict
    obtain ⟨hsound', hfreed, hother⟩ := locks_given_back hsound hlock
    obtain ⟨r', hrespond, hstored, -, hlocks⟩ := respond_settleSync hfault key verdict
      (r.locks.release task).prune
    have hturn : r.turn task (.rebuilding key verdict) = (.answered (syncAnswer verdict), r') := by
      have hback : ((r.settleSync key verdict).2.giveBack task).pruneLocks =
          { (r.settleSync key verdict).2 with locks := (r.locks.release task).prune } := by
        rw [giveBack, pruneLocks, locks_settleSync]
      rw [← hback] at hrespond
      exact congrArg (fun p => (Service.Stop.answered p.1, p.2)) hrespond
    refine ⟨r', hturn, hstored.keeps hunder fun k hk => ?_, hlocks ▸ hsound',
      hstored.shelf_self hunder, fun k hk => ?_⟩
    · rw [hlocks, hother k fun heq => hk (heq ▸ hkey)]
    · rw [hlocks]
      by_cases hk' : k = key
      · exact hk' ▸ hfreed
      · exact (hother k hk').trans (hfree k hk hk')

end Replica

end DeltaMesh
