import DeltaMesh.Proofs.Exchange.HandOver
import DeltaMesh.Proofs.Exchange.Transcript
import Mathlib.Data.List.Chain

/-!
# The batches of a hand-over

The values of a hand-over that a request can carry go out in rows. The rows are determined by what
they are (`Exchange.packs_iff`): together they are the values in their order, none is empty, a row
of several values has at most `maxBatch` value bytes, and it would have more with the first value of
the row after it. Whoever answers, the conversation sends a row only when all the rows before it
were acknowledged, stops at the first one that is not, and counts the values that it has passed over
for their size (`HandOverCourse`).

Main statements: `Exchange.packs_iff` and `Exchange.handOverCourse_transcript`.
-/

namespace DeltaMesh

namespace Exchange

open Entries (bytesOf bytesOf_concat)

/-! ### Rows as large as can be -/

/-- The rows are the values in their order, cut as late as can be. -/
structure Packs (values : List (Key × ByteArray)) (rows : List (List (Key × ByteArray))) :
    Prop where
  whole : rows.flatten = values
  sendable : ∀ row ∈ rows, Sendable row
  /-- A row has no room for the first value of the next one. -/
  full : rows.IsChain fun row next => ∀ p ∈ next.head?, maxBatch < bytesOf row + p.2.size

variable {row rest values : List (Key × ByteArray)} {rows : List (List (Key × ByteArray))}

/-- The first row begins with the values that wait, as nothing is ever taken out of a row. -/
theorem head?_rowsOnto (values : List (Key × ByteArray)) (hrow : row ≠ []) :
    ∃ more rows, rowsOnto row values = (row ++ more) :: rows := by
  induction values generalizing row with
  | nil => exact ⟨[], [], by rw [rowsOnto, if_neg (by simpa using hrow), List.append_nil]⟩
  | cons p values ih =>
    rw [rowsOnto]
    split
    case isTrue => exact ⟨[], _, by rw [List.append_nil]⟩
    case isFalse =>
      have hne : row ++ [p] ≠ [] := by simp
      obtain ⟨more, rows, h⟩ := ih hne
      exact ⟨p :: more, rows, by rw [h, List.append_assoc, List.singleton_append]⟩

/-- A row ends where the next value has no room: together they would have more than `maxBatch`
bytes. -/
theorem full_rowsOnto (row values : List (Key × ByteArray)) :
    (rowsOnto row values).IsChain fun row next =>
      ∀ p ∈ next.head?, maxBatch < bytesOf row + p.2.size := by
  induction values generalizing row with
  | nil =>
    rw [rowsOnto]
    split
    case isTrue => exact .nil
    case isFalse => exact .singleton _
  | cons p values ih =>
    rw [rowsOnto]
    split
    case isTrue hlarge =>
      refine List.isChain_cons.mpr ⟨fun next hnext p' hp' => ?_, ih [p]⟩
      obtain ⟨more, rows, h⟩ := head?_rowsOnto values (List.cons_ne_nil p [])
      rw [h, List.head?_cons, Option.mem_some_iff] at hnext
      rw [← hnext, List.singleton_append, List.head?_cons, Option.mem_some_iff] at hp'
      exact hp' ▸ hlarge.2
    case isFalse => exact ih (row ++ [p])

theorem packs_rowsOf (values : List (Key × ByteArray)) : Packs values (rowsOf values) :=
  ⟨flatten_rowsOf values, sendable_of_mem_rowsOf, full_rowsOnto [] values⟩

theorem rowsOf_cons (p : Key × ByteArray) (values : List (Key × ByteArray)) :
    rowsOf (p :: values) = rowsOnto [p] values := by
  rw [rowsOf, rowsOnto, if_neg (by simp), List.nil_append]

/-- Values join a row that has room for them, and the next one begins another row. -/
theorem rowsOnto_append {later : List (Key × ByteArray)} (hrow : row ≠ [])
    (hsmall : rest = [] ∨ bytesOf (row ++ rest) ≤ maxBatch)
    (hfull : ∀ p ∈ later.head?, maxBatch < bytesOf (row ++ rest) + p.2.size) :
    rowsOnto row (rest ++ later) = (row ++ rest) :: rowsOf later := by
  have hempty : row.isEmpty = false := by simpa using hrow
  induction rest generalizing row with
  | nil =>
    rw [List.append_nil] at hfull ⊢
    cases later with
    | nil => simp [rowsOf, rowsOnto, hempty]
    | cons p later =>
      rw [List.nil_append, rowsOnto, if_pos ⟨hempty, hfull p rfl⟩, rowsOf_cons]
  | cons p rest ih =>
    have hsmall := hsmall.resolve_left (List.cons_ne_nil p rest)
    rw [List.append_cons] at hsmall hfull ⊢
    have hroom : bytesOf row + p.2.size ≤ maxBatch := by
      rw [← bytesOf_concat row p.1 p.2]
      exact Nat.le_trans (Entries.bytesOf_le_append _ rest) hsmall
    rw [List.cons_append, rowsOnto, if_neg fun h => Nat.not_lt.mpr hroom h.2]
    exact ih (by simp) (.inr hsmall) hfull (by simp)

/-- The rows of a hand-over are determined by what they are: rows that hold the values in order,
that are small or of one value, and none of which has room for the value behind it. -/
theorem packs_iff : Packs values rows ↔ rows = rowsOf values := by
  refine ⟨fun h => ?_, fun h => h ▸ packs_rowsOf values⟩
  obtain ⟨rfl, hsendable, hchain⟩ := h
  induction rows with
  | nil => rfl
  | cons row rows ih =>
    obtain ⟨hrow, hrows⟩ := List.forall_mem_cons.mp hsendable
    obtain ⟨hnext, hfull⟩ := List.isChain_cons.mp hchain
    obtain ⟨p, rest, rfl⟩ := List.exists_cons_of_ne_nil hrow.nonempty
    rw [List.flatten_cons, List.cons_append, rowsOf_cons, rowsOnto_append (List.cons_ne_nil p []),
      ← ih hrows hfull, List.singleton_append]
    · refine hrow.small.symm.imp_left fun hsingle => ?_
      simpa using hsingle
    · intro p' hp'
      cases rows with
      | nil => cases hp'
      | cons next rows =>
        have hne := (hrows next List.mem_cons_self).nonempty
        rw [List.flatten_cons, List.head?_append_of_ne_nil next hne] at hp'
        exact hnext next rfl p' hp'

end Exchange

/-! ### How a hand-over goes -/

/-- The request that sends a row, and what came back. -/
def Inquiry.row (t : Terms) (owner : Peer) (row : List (Key × ByteArray)) (reply : Reply) :
    Inquiry :=
  ⟨owner, .copy (.ofPairs row) t.now, reply⟩

/-- A value that a request can carry. -/
def Terms.allows (t : Terms) (p : Key × ByteArray) : Bool := p.2.size ≤ t.limit

/-- How the hand-over of `values` can go that go out in `rows`, after `waiting`, whose values wait
to be sent, when `stored` values were stored before; `acks` are the rows that were acknowledged, and
with which numbers. -/
inductive HandOverCourse (t : Terms) (owner : Peer) (waiting : List (Key × ByteArray))
    (stored : Nat) (values : List (Key × ByteArray)) (rows : List (List (Key × ByteArray))) :
    Transcript (Except ReplicationError Nat) → Prop
  /-- Every row is acknowledged. -/
  | complete (acks : List (List (Key × ByteArray) × UInt32)) {sent : SentTally}
    (hrows : rows = acks.map Prod.fst) (hpushes : sent.pushes = 1)
    (hfailures : sent.failures = values.countP (!t.allows ·)) :
    HandOverCourse t owner waiting stored values rows
      ⟨.ok (stored + (acks.map (·.2.toNat)).sum),
        acks.map fun a => .row t owner a.1 (.ok (.copyAck a.2)), sent⟩
  /-- Some row is not, and none is sent after it. The values were looked at as far as those of that
  row go, and on to the next one that is not too large. -/
  | stopped (acks : List (List (Key × ByteArray) × UInt32)) (row : List (Key × ByteArray))
    (later : List (List (Key × ByteArray))) (reached ahead : List (Key × ByteArray)) {reply : Reply}
    {why : ReplicationError} {sent : SentTally} (hunmet : Unmet .copy reply why)
    (hrows : rows = acks.map Prod.fst ++ row :: later) (hvalues : values = reached ++ ahead)
    (hreached : (acks.map Prod.fst).flatten ++ row = waiting ++ reached.filter t.allows)
    (hahead : ∀ p ∈ ahead.head?, t.allows p) (hpushes : sent.pushes = 0)
    (hfailures : sent.failures = reached.countP (!t.allows ·)) :
    HandOverCourse t owner waiting stored values rows
      ⟨.error why, (acks.map fun a => .row t owner a.1 (.ok (.copyAck a.2))) ++
        [.row t owner row reply], sent⟩

namespace HandOverCourse

variable {t : Terms} {owner : Peer} {row rest : List (Key × ByteArray)} {p : Key × ByteArray}
  {stored : Nat} {rows : List (List (Key × ByteArray))}
  {record : Transcript (Except ReplicationError Nat)} {sent : SentTally}

/-- A value that is too large for a request is passed over and counted, wherever it stands. -/
theorem skip (hlarge : t.allows p = false)
    (h : HandOverCourse t owner row stored rest rows record) :
    HandOverCourse t owner row stored (p :: rest) rows
      { record with sent := SentTally.record 0 .valueSkipped + record.sent } := by
  have hcount : ∀ values : List (Key × ByteArray),
      1 + values.countP (!t.allows ·) = (p :: values).countP (!t.allows ·) := by
    intro values
    rw [List.countP_cons_of_pos (by simpa using hlarge), Nat.add_comm]
  cases h with
  | complete acks hrows hpushes hfailures =>
    refine .complete acks hrows ((Nat.zero_add _).trans hpushes) ?_
    exact (congrArg (1 + ·) hfailures).trans (hcount rest)
  | stopped acks row' later reached ahead hunmet hrows hvalues hreached hahead hpushes hfailures =>
    refine .stopped acks row' later (p :: reached) ahead hunmet hrows ?_ ?_ hahead
      ((Nat.zero_add _).trans hpushes) ?_
    · rw [hvalues, List.cons_append]
    · rw [hreached, List.filter_cons_of_neg (by simpa using hlarge)]
    · exact (congrArg (1 + ·) hfailures).trans (hcount reached)

section

variable (hsmall : t.allows p = true)

include hsmall

theorem countP_small (values : List (Key × ByteArray)) :
    (p :: values).countP (!t.allows ·) = values.countP (!t.allows ·) :=
  List.countP_cons_of_neg (by simpa using hsmall)

/-- A value joins those that wait; nothing is sent yet. -/
theorem join (h : HandOverCourse t owner (row ++ [p]) stored rest rows record) :
    HandOverCourse t owner row stored (p :: rest) rows record := by
  cases h with
  | complete acks hrows hpushes hfailures =>
    exact .complete acks hrows hpushes (hfailures.trans (countP_small hsmall rest).symm)
  | stopped acks row' later reached ahead hunmet hrows hvalues hreached hahead hpushes hfailures =>
    refine .stopped acks row' later (p :: reached) ahead hunmet hrows ?_ ?_ hahead hpushes
      (hfailures.trans (countP_small hsmall reached).symm)
    · rw [hvalues, List.cons_append]
    · rw [hreached, List.filter_cons_of_pos hsmall, List.append_assoc, List.singleton_append]

/-- The values that wait are acknowledged, and a value waits in their place, since it had no room
among them. -/
theorem flush (count : UInt32) (bytes : Nat)
    (h : HandOverCourse t owner [p] (stored + count.toNat) rest rows record) :
    HandOverCourse t owner row stored (p :: rest) (row :: rows)
      ⟨record.result, .row t owner row (.ok (.copyAck count)) :: record.asked,
        SentTally.record 0 (.copied bytes) + record.sent⟩ := by
  cases h with
  | complete acks hrows hpushes hfailures =>
    rw [Nat.add_assoc]
    refine .complete ((row, count) :: acks) (congrArg (row :: ·) hrows)
      ((Nat.zero_add _).trans hpushes) ?_
    exact (Nat.zero_add _).trans (hfailures.trans (countP_small hsmall rest).symm)
  | stopped acks row' later reached ahead hunmet hrows hvalues hreached hahead hpushes hfailures =>
    refine .stopped ((row, count) :: acks) row' later (p :: reached) ahead hunmet
      (congrArg (row :: ·) hrows) ?_ ?_ hahead ((Nat.zero_add _).trans hpushes) ?_
    · rw [hvalues, List.cons_append]
    · rw [List.map_cons, List.flatten_cons, List.append_assoc, hreached,
        List.filter_cons_of_pos hsmall, List.singleton_append]
    · exact (Nat.zero_add _).trans (hfailures.trans (countP_small hsmall reached).symm)

end

/-- The values that wait are not acknowledged. -/
theorem refused {reply : Reply} {why : ReplicationError} (hunmet : Unmet .copy reply why)
    (later : List (List (Key × ByteArray))) (hnext : ∀ p ∈ rest.head?, t.allows p)
    (hpushes : sent.pushes = 0) (hfailures : sent.failures = 0) :
    HandOverCourse t owner row stored rest (row :: later)
      ⟨.error why, [.row t owner row reply], sent⟩ :=
  .stopped [] row later [] rest hunmet rfl rfl (List.append_nil row).symm hnext hpushes hfailures

end HandOverCourse

namespace Exchange

open Entries (bytesOf bytesOf_concat)

variable (t : Terms) (owner : Peer) (transport : Transport)

/-- A row is acknowledged, and the conversation goes on, or the hand-over ends there with the
reason. -/
theorem transcript_afterCopies (row : List (Key × ByteArray)) (bytes : Nat)
    (goOn : Nat → Exchange (Except ReplicationError Nat)) (before : List (Peer × Request)) :
    let record := (ask owner (.copy (.ofPairs row) t.now) (afterCopies bytes goOn)).transcript
      transport before
    (∃ count more, record = ⟨((goOn count.toNat).transcript transport more).result,
      .row t owner row (.ok (.copyAck count)) ::
        ((goOn count.toNat).transcript transport more).asked,
      SentTally.record 0 (.copied bytes) + ((goOn count.toNat).transcript transport more).sent⟩) ∨
    ∃ reply why sent, Unmet .copy reply why ∧
      record = ⟨.error why, [.row t owner row reply], sent⟩ ∧ sent.pushes = 0 ∧
        sent.failures = 0 := by
  simp only [transcript]
  generalize transport (before ++ [(owner, .copy (.ofPairs row) t.now)]) = reply
  rcases reply with why | (_ | count | _ | reason)
  case ok.copyAck => exact .inl ⟨count, _, rfl⟩
  case error => exact .inr ⟨_, _, _, .network why, rfl, rfl, rfl⟩
  case ok.failed => exact .inr ⟨_, _, _, .remote reason, rfl, rfl, rfl⟩
  case ok.info | ok.syncAck =>
    refine .inr ⟨_, _, _, .unexpected ?_, rfl, rfl, rfl⟩
    rintro ⟨⟩

/-- Whatever comes back, a hand-over goes on from the values that wait in one of these ways. -/
theorem handOverCourse_handOverOnto (rest row : List (Key × ByteArray)) (stored : Nat)
    (before : List (Peer × Request)) :
    HandOverCourse t owner row stored rest (rowsOnto row (rest.filter t.allows))
      ((handOverOnto t owner (.ofPairs row) (bytesOf row) stored rest).run.transcript transport
        before) := by
  induction rest generalizing row stored before with
  | nil =>
    rw [run_handOverOnto_nil, Entries.isEmpty_ofPairs, List.filter_nil, rowsOnto]
    split
    case isTrue => exact .complete [] rfl rfl rfl
    case isFalse =>
      obtain ⟨count, more, hrecord⟩ | ⟨reply, why, sent, hunmet, hrecord, hpushes, hfailures⟩ :=
        transcript_afterCopies t owner transport row _ _ before
      · rw [hrecord]
        exact .complete [(row, count)] rfl rfl rfl
      · rw [hrecord]
        exact .refused hunmet [] (by rintro _ ⟨⟩) hpushes hfailures
  | cons p rest ih =>
    rw [run_handOverOnto_cons, Entries.isEmpty_ofPairs]
    split
    case isTrue hlarge =>
      have hallows : t.allows p = false := by simpa [Terms.allows] using hlarge
      rw [List.filter_cons_of_neg (by simp [hallows])]
      exact (ih row stored before).skip hallows
    case isFalse hlarge =>
      have hallows : t.allows p = true := by simpa [Terms.allows] using hlarge
      rw [List.filter_cons_of_pos hallows, rowsOnto]
      split
      case isTrue hfull =>
        rw [if_pos (by simpa using hfull)]
        obtain ⟨count, more, hrecord⟩ | ⟨reply, why, sent, hunmet, hrecord, hpushes, hfailures⟩ :=
          transcript_afterCopies t owner transport row _ _ before
        · rw [hrecord]
          exact .flush hallows count _ (ih [p] (stored + count.toNat) more)
        · rw [hrecord]
          exact .refused hunmet _ (fun p' hp' => Option.some.inj hp' ▸ hallows) hpushes hfailures
      case isFalse hroom =>
        rw [if_neg (by simpa using hroom), ← Entries.ofPairs_concat, ← bytesOf_concat]
        exact .join hallows (ih (row ++ [p]) stored before)

/-- Whatever comes back, a hand-over sends its rows in order, up to the first one that is not
acknowledged. -/
theorem handOverCourse_transcript (values : List (Key × ByteArray))
    (before : List (Peer × Request)) :
    HandOverCourse t owner [] 0 values (rowsOf (values.filter t.allows))
      ((handOver t owner values).run.transcript transport before) :=
  handOverCourse_handOverOnto t owner transport values [] 0 before

end Exchange

end DeltaMesh
