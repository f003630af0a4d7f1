import DeltaMesh.Proofs.Replica.Turn

/-!
# A COPY stops at the first write that fails

Whatever the replica holds, whichever of its writes fail and whatever a COPY carries, the answer,
the values held, the tracker and the counts agree on which write was the first to fail
(`CopyOutcome`), and no lock is left over.

Main statement: `serve_copy_outcome`.
-/

namespace DeltaMesh

/-! ### What becomes of the replica -/

/-- The values of `row` are stored at `r'` in place of what `r` held under their keys, and the
tracker was told of their locations, of each once and of no other. -/
structure Replica.Overwritten (row : List (Key × ByteArray)) (r r' : Replica) : Prop where
  entries : r'.store.entries = r.store.entries.insertMany row
  told : ∃ locations : List Id, locations.Pairwise (fun a b => compare a b = .lt) ∧
    (∀ location, location ∈ locations ↔ ∃ p ∈ row, p.1.location = location) ∧
    r'.tracker = locations.foldl (fun t location => t.notify r.directory location) r.tracker
  directory : r'.directory = r.directory

/-- How a COPY ends: with which answer, and with which replica `r'` in place of `r`. -/
inductive CopyOutcome (r : Replica) (entries : Entries) : Response → Replica → Prop
  /-- Every value is stored. -/
  | complete {r' : Replica} (haccepts : r.store.Accepts entries.toList)
    (hstored : r.Overwritten entries.toList r')
    (hserved : r'.served = { r.served with copies := r.served.copies + 1 }) :
    CopyOutcome r entries (.copyAck entries.size.toUInt32) r'
  /-- The write of one value fails, and those before it in key order are stored. -/
  | failed {r' : Replica} {stored rest : List (Key × ByteArray)} {key : Key} {value : ByteArray}
    {why : StorageError} (hentries : entries.toList = stored ++ (key, value) :: rest)
    (haccepts : r.store.Accepts stored)
    (hfault : r.store.fault (r.store.tried + stored.length) key value = some why)
    (hstored : r.Overwritten stored r')
    (hserved : r'.served =
      { r.served with copies := r.served.copies + 1, failures := r.served.failures + 1 }) :
    CopyOutcome r entries (.failed (ExchangeError.storage why).message) r'

namespace Replica

variable {r r' : Replica} {task : Nat} {row : List (Key × ByteArray)}

/-- The end of a COPY tells the tracker of the values it has stored. -/
theorem overwritten_of_notifyAll
    (hentries : r'.store.entries = r.store.entries.insertMany row)
    (htracker : r'.tracker =
      r.tracker.notifyAll r.directory (distinctLocations (row.map (·.1.location))))
    (hdirectory : r'.directory = r.directory) : r.Overwritten row r' := by
  refine ⟨hentries, ⟨_, Std.ExtTreeSet.ordered_toList, fun location => ?_, htracker⟩, hdirectory⟩
  rw [← distinctLocations, mem_distinctLocations, List.mem_map]

theorem copyOutcome_serve (r : Replica) (task : Nat) (entries : Entries) (timestamp : Int64) :
    CopyOutcome r entries (r.serve task (.copy entries timestamp)).1
      (r.serve task (.copy entries timestamp)).2 := by
  obtain ⟨stored, failure, tried, locks, hhalts, hstore, -⟩ :=
    storeEntries_halts task entries.toList r.countCopy
  rw [serve, answerCopy, hstore]
  simp only [settleCopy, foldl_notify]
  generalize hrow : entries.toList = row at hhalts
  cases hhalts with
  | complete haccepts =>
    subst hrow
    rw [List.length_map, Std.ExtTreeMap.length_toList]
    exact .complete haccepts (overwritten_of_notifyAll rfl rfl rfl) rfl
  | failed haccepts hfault =>
    exact .failed hrow haccepts hfault (overwritten_of_notifyAll rfl rfl rfl) rfl

/-- A COPY ends as its outcome says, for every replica and all entries, and leaves no lock over. If
a write fails, then the entries before it stay and the tracker has heard of their locations, each
once. -/
theorem serve_copy_outcome (r : Replica) (task : Nat) (entries : Entries) (timestamp : Int64) :
    CopyOutcome r entries (r.serve task (.copy entries timestamp)).1
        (r.serve task (.copy entries timestamp)).2 ∧
      (r.locks.Sound task → r.locks.size = 0 →
        (r.serve task (.copy entries timestamp)).2.locks.size = 0) := by
  refine ⟨r.copyOutcome_serve task entries timestamp, fun hsound hempty => ?_⟩
  have hnone : r.locks.table = ∅ := Std.ExtTreeMap.eq_empty_iff_size_eq_zero.mpr hempty
  have hclaims : r.locks.claims = [] := List.eq_nil_iff_forall_not_mem.mpr fun c hc => by
    have hentered := hsound.entered c hc
    rw [hnone, Std.ExtTreeMap.getElem?_empty] at hentered
    cases hentered
  have hfree : ∀ k, r.locks.on k = [] := fun k => by rw [KeyLocks.on, hclaims, List.filter_nil]
  obtain ⟨-, htable, -⟩ := locks_serve (.copy entries timestamp) hsound fun k _ => hfree k
  rw [KeyLocks.size, htable, if_neg (by rintro ⟨⟩), KeyLocks.prune, hnone]
  rfl

/-- Of two values the second one cannot be written; the first one stays, and the tracker has heard
of its location. -/
theorem serve_copy_outcome_broken :
    let first := Key.firstUnder .zero
    let second := Key.firstUnder .max
    let r := Replica.ofStore (.alone default) (.brokenAt second.location (.io .notFound)) 1
    let entries := Entries.ofPairs [(first, .empty), (second, .empty)]
    let ended := r.serve 0 (.copy entries 0)
    r.locks.Sound 0 ∧ ended.1 = .failed (ExchangeError.storage (.io .notFound)).message ∧
      r.Overwritten [(first, .empty)] ended.2 ∧ ended.2.locks.size = 0 := by
  intro first second r entries ended
  have hsound : r.locks.Sound 0 := .empty 0
  have hlist : entries.toList = [(first, .empty), (second, .empty)] := by decide +kernel
  obtain ⟨houtcome, hlocks⟩ := serve_copy_outcome r 0 entries 0
  have hended : ended.1 = .failed (ExchangeError.storage (.io .notFound)).message ∧
      r.Overwritten [(first, .empty)] ended.2 := by
    change CopyOutcome r entries ended.1 ended.2 at houtcome
    generalize ended.1 = answer, ended.2 = r' at houtcome ⊢
    cases houtcome with
    | complete haccepts => exact nomatch haccepts 1 second .empty (by rw [hlist]; rfl)
    | @failed r' stored rest key value why hentries haccepts hfault hstored =>
      rcases stored with _ | ⟨p, _ | ⟨p', stored⟩⟩
      · obtain ⟨rfl, rfl⟩ := Prod.mk.inj (List.cons.inj (hlist.symm.trans hentries)).1
        cases hfault
      · obtain ⟨rfl, heq⟩ := List.cons.inj (hlist.symm.trans hentries)
        obtain ⟨rfl, rfl⟩ := Prod.mk.inj (List.cons.inj heq).1
        exact ⟨by rw [← Option.some.inj hfault], hstored⟩
      · exact absurd (congrArg List.length (hlist.symm.trans hentries)) (by simp)
  exact ⟨hsound, hended.1, hended.2, hlocks hsound rfl⟩

end Replica

end DeltaMesh
