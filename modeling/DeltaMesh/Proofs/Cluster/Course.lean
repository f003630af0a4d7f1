import DeltaMesh.Cluster.Reconciliation
import DeltaMesh.Proofs.Cluster.Advance
import Mathlib.Algebra.BigOperators.Group.List.Basic

/-!
# The course of a location

The reconciliation of a location is prepared, its conversations take their steps in some order, and
it is closed (`Reconciliation.Step`). When it begins it is settled what it will come to: a report,
what each replica has of the location afterwards, and what the node counts (`Cluster.closing`,
`Cluster.foreseen`, `Cluster.outlay`). Conversations about a location never meet, since no two of
them are with the same replica (`Cluster.Parted`); so each step leads to where the location would be
if it were alone, whichever conversation takes it (`Cluster.UnderWay.step`).
-/

namespace DeltaMesh

variable {n : Nat}

/-! ### One location -/

/-- What came of a location: the report, and the results at each replica, closest first. -/
structure Closing where
  report : LocationReport
  rows : List (List ValueResult)

namespace Reconciliation

/-- The location that is reconciled. -/
def location : Reconciliation n → Id
  | planned location | talking location _ => location

/-- What `begin` does before the first conversation goes on. -/
def prepare (i : Fin n) (location : Id) (c : Cluster n) :
    Progress (Reconciliation n) Closing × Cluster n :=
  match (c.reconciler i).claim? location with
  | none => (.over ⟨{ location, skipped := true }, []⟩, c)
  | some q =>
    let replicas := (c.replica i).directory.replicas location q.factor
    let values := (c.replica i).store.entries.under location
    if replicas.isEmpty ∨ values.isEmpty then
      (.over ⟨{ location, replicas := replicas.length }, []⟩, c)
    else
      (.underWay (.talking location
        (replicas.map fun p => .ofExchange (reconcileReplica (q.terms c.now) p values))),
        c.setReconciler i q)

/-- What `carryOn` does when all conversations are over. -/
def close (i : Fin n) (location : Id) (rows : List (List ValueResult)) (c : Cluster n) :
    Closing × Cluster n :=
  (⟨.ofResults location rows.length rows.flatten, rows⟩,
    { c.setReconciler i ((c.reconciler i).unclaim location) with
      meter := { c.meter with reconciliations := c.meter.reconciliations + 1 } })

/-- A step of a reconciliation. If the conversations go on `inOrder`, each waits for those before it
to end. -/
inductive Step (i : Fin n) (inOrder : Prop) :
    Reconciliation n → Cluster n → Progress (Reconciliation n) Closing → Cluster n → Prop
  | prepare (location : Id) (c : Cluster n) :
    Step i inOrder (.planned location) c (prepare i location c).1 (prepare i location c).2
  | talk (location : Id) {front : List (Talk n (List ValueResult))}
    (talk : Talk n (List ValueResult)) (back : List (Talk n (List ValueResult))) (c : Cluster n)
    (horder : inOrder → ∀ t ∈ front, ∃ results, t = .finished results) :
    Step i inOrder (.talking location (front ++ talk :: back)) c
      (.underWay (.talking location (front ++ (c.advance i talk).1 :: back))) (c.advance i talk).2
  | close (location : Id) (rows : List (List ValueResult)) (c : Cluster n) :
    Step i inOrder (.talking location (rows.map .finished)) c
      (.over (close i location rows c).1) (close i location rows c).2

end Reconciliation

namespace Cluster

open Reconciliation (prepare close)

variable (c : Cluster n) (i : Fin n) (location : Id)

/-! ### What is foreseen -/

/-- The replicas of a location, as node `i` finds them. -/
def replicasOf : List Peer :=
  (c.replica i).directory.replicas location (c.reconciler i).factor

/-- What the conversation of node `i` with a replica will come to if it begins like this. -/
def foreseen (p : Peer) : Ending (List ValueResult) :=
  (reconcileReplica ((c.reconciler i).terms c.now) p
    ((c.replica i).store.entries.under location)).play (c.meet p location) (c.shelfAt p location)

/-- The replicas that node `i` will talk to. -/
def audience : List Peer :=
  match (prepare i location c).1 with
  | .over _ => []
  | .underWay _ => c.replicasOf i location

/-- What will come of the location. -/
def closing : Closing :=
  match (prepare i location c).1 with
  | .over x => x
  | .underWay _ =>
    (close i location ((c.replicasOf i location).map fun p => (c.foreseen i location p).result) c).1

/-- What node `i` will have counted. -/
def outlay : SentTally := ((c.audience i location).map fun p => (c.foreseen i location p).sent).sum

/-- What there is when a location is prepared: a report, or planned conversations and a claim. -/
inductive Prepared : Progress (Reconciliation n) Closing × Cluster n → Prop
  | reported {x : Closing} (hx : x.report.location = location) : Prepared (.over x, c)
  | begun {q : Reconciler} (hkeeps : (c.reconciler i).Keeps q)
    (htally : q.tally = (c.reconciler i).tally)
    (hinFlight : ∀ other, other ≠ location →
      (other ∈ q.inFlight ↔ other ∈ (c.reconciler i).inFlight)) :
    Prepared (.underWay (.talking location ((c.replicasOf i location).map fun p =>
      .ofExchange (reconcileReplica ((c.reconciler i).terms c.now) p
        ((c.replica i).store.entries.under location)))), c.setReconciler i q)

/-- How a reconciliation begins: it is reported at once, or its location is claimed. -/
theorem prepared : c.Prepared i location (prepare i location c) := by
  rw [prepare]
  split
  case h_1 => exact .reported rfl
  case h_2 q hclaim =>
    have hq := hclaim
    rw [Reconciler.claim?] at hq
    split at hq
    case isTrue => cases hq
    case isFalse =>
      dsimp only
      split
      case isTrue => exact .reported rfl
      case isFalse =>
        obtain rfl := Option.some.inj hq
        refine .begun ⟨rfl, rfl, rfl⟩ rfl fun other hother => ?_
        rw [Std.ExtTreeSet.mem_insert, Std.LawfulEqOrd.compare_eq_iff_eq,
          or_iff_right fun heq => hother heq.symm]

theorem fst_prepare : (prepare i location c).1 =
    if (c.reconciler i).inFlight.contains location then .over ⟨{ location, skipped := true }, []⟩
    else if (c.replicasOf i location).isEmpty ∨
        ((c.replica i).store.entries.under location).isEmpty then
      .over ⟨{ location, replicas := (c.replicasOf i location).length }, []⟩
    else .underWay (.talking location ((c.replicasOf i location).map fun p =>
      .ofExchange (reconcileReplica ((c.reconciler i).terms c.now) p
        ((c.replica i).store.entries.under location)))) := by
  rw [prepare, Reconciler.claim?]
  cases (c.reconciler i).inFlight.contains location with
  | true => rfl
  | false =>
    simp only [Bool.false_eq_true, if_false]
    exact apply_ite Prod.fst _ _ _

variable {c i location} {c₀ c' : Cluster n} {T : Fin n → Id → Prop} {F : Id → Prop}

/-- What the node itself has does not change. -/
theorem Keeps.entries (h : c₀.Keeps T F c) (hi : ∀ other, ¬T i other) :
    (c.replica i).store.entries = (c₀.replica i).store.entries :=
  (Replica.eq_of_shelves fun other => (h.replica i).shelf other (hi other)).1

/-- What a node brings to its conversations does not change while they last. -/
theorem Keeps.terms (h : c₀.Keeps T F c) :
    (c.reconciler i).terms c.now = (c₀.reconciler i).terms c₀.now := by
  rw [Reconciler.terms, Reconciler.terms, (h.reconciler i).config, h.now]

/-- The list of replicas of a location stays while conversations go on: neither the directory nor
the factor changes. -/
theorem Keeps.replicasOf (h : c₀.Keeps T F c) :
    c.replicasOf i location = c₀.replicasOf i location := by
  rw [Cluster.replicasOf, Cluster.replicasOf, (h.replica i).directory, (h.reconciler i).factor]

/-- A location is prepared in the same way as long as the node has the same and has not claimed
it. -/
theorem Keeps.prepare (h : c₀.Keeps T F c) (hi : ∀ other, ¬T i other)
    (hclaimed : location ∈ (c.reconciler i).inFlight ↔ location ∈ (c₀.reconciler i).inFlight) :
    (Reconciliation.prepare i location c).1 = (Reconciliation.prepare i location c₀).1 := by
  have hcontains : (c.reconciler i).inFlight.contains location =
      (c₀.reconciler i).inFlight.contains location := by
    rw [Bool.eq_iff_iff, Std.ExtTreeSet.contains_iff_mem, Std.ExtTreeSet.contains_iff_mem]
    exact hclaimed
  rw [fst_prepare, fst_prepare, hcontains, h.replicasOf, h.entries hi, h.terms]

/-! ### The conversations about a location -/

/-- No two replicas of the location are the same, and none of them is node `i`. -/
structure Parted (c : Cluster n) (i : Fin n) (location : Id) : Prop where
  apart : (c.replicasOf i location).Pairwise fun p p' => ∀ j, c.route p = .ok j → c.route p' ≠ .ok j
  others : ∀ p ∈ c.replicasOf i location, c.route p ≠ .ok i

/-- Conversations with these peers go on and will come to what was foreseen in `c₀`; `rest` is what
node `i` has still to count. -/
inductive Course (c₀ : Cluster n) (i : Fin n) (location : Id) (c : Cluster n) :
    List Peer → List (Talk n (List ValueResult)) → SentTally → Prop
  | nil : Course c₀ i location c [] [] 0
  | cons {p : Peer} {peers : List Peer} {talk : Talk n (List ValueResult)}
    {talks : List (Talk n (List ValueResult))} {ending : Ending (List ValueResult)}
    {rest : SentTally} (hfirst : c.Foretells p location talk ending)
    (hresult : ending.result = (c₀.foreseen i location p).result)
    (hshelf : ending.shelf = (c₀.foreseen i location p).shelf)
    (hrest : Course c₀ i location c peers talks rest) :
    Course c₀ i location c (p :: peers) (talk :: talks) (ending.sent + rest)

namespace Course

variable {peers : List Peer} {talks front back : List (Talk n (List ValueResult))}
  {talk : Talk n (List ValueResult)} {rest : SentTally}

/-- The course of a reconciliation goes on undisturbed by whatever leaves its shelves alone. -/
theorem kept (h : Course c₀ i location c peers talks rest) (hkeeps : c.Keeps T F c')
    (hapart : ∀ p ∈ peers, ∀ j, c.route p = .ok j → ¬T j location) :
    Course c₀ i location c' peers talks rest := by
  induction h with
  | nil => exact .nil
  | cons hfirst hresult hshelf hrest ih =>
    obtain ⟨hp, hpeers⟩ := List.forall_mem_cons.mp hapart
    exact .cons (hfirst.kept hkeeps hp) hresult hshelf (ih hpeers)

/-- A step of one of the conversations. Only the shelf at its own replica may change, and the others
are kept because no two peers of a location lead to the same replica. -/
theorem advance (h : Course c₀ i location c peers (front ++ talk :: back) rest) (hlive : c.Live)
    (hapart : peers.Pairwise fun p p' => ∀ j, c.route p = .ok j → c.route p' ≠ .ok j) :
    ∃ p ∈ peers, ∃ sent rest', rest = sent + rest' ∧
      Course c₀ i location (c.advance i talk).2 peers (front ++ (c.advance i talk).1 :: back)
        rest' ∧
      ((c.advance i talk).2.reconciler i).tally = (c.reconciler i).tally + sent ∧
      (∀ j, ((c.advance i talk).2.reconciler j).inFlight = (c.reconciler j).inFlight) ∧
      c.Keeps (c.niche p location) (fun _ => False) (c.advance i talk).2 := by
  induction front generalizing peers rest with
  | nil =>
    cases h with
    | @cons p peers _ _ ending rest hfirst hresult hshelf hrest =>
      obtain ⟨hp, -⟩ := List.pairwise_cons.mp hapart
      obtain ⟨sent, ending', hadvanced⟩ := hfirst.advance i hlive
      refine ⟨p, List.mem_cons_self, sent, ending'.sent + rest, ?_, ?_, hadvanced.tally,
        hadvanced.inFlight, hadvanced.keeps⟩
      · rw [hadvanced.rest, add_assoc]
      · refine .cons hadvanced.foretells (hadvanced.result.trans hresult)
          (hadvanced.shelf.trans hshelf)
          (hrest.kept hadvanced.keeps fun p' hp' j hroute hniche => ?_)
        exact hp p' hp' j hniche.1 hroute
  | cons first front ih =>
    cases h with
    | @cons p peers _ _ ending rest hfirst hresult hshelf hrest =>
      obtain ⟨hp, hpeers⟩ := List.pairwise_cons.mp hapart
      obtain ⟨p', hp', sent, rest', heq, hcourse, htally, hinFlight, hkeeps⟩ := ih hrest hpeers
      refine ⟨p', List.mem_cons_of_mem p hp', sent, ending.sent + rest', ?_, ?_, htally, hinFlight,
        hkeeps⟩
      · rw [heq, add_left_comm]
      · refine .cons (hfirst.kept hkeeps fun j hroute hniche => ?_) hresult hshelf hcourse
        exact hp p' hp' j hroute hniche.1

/-- Conversations that have not begun yet have their whole course ahead, provided that nobody has
touched the shelves of the location since. -/
theorem start (hlimit : (c₀.reconciler i).config.maxValueSize < Wire.lengthBound)
    (hmeet : ∀ p ∈ peers, c.meet p location = c₀.meet p location)
    (hshelf : ∀ p ∈ peers, c.shelfAt p location = c₀.shelfAt p location)
    (hfree : ∀ p ∈ peers, ∀ j, c.route p = .ok j → (c.replica j).Free location) :
    Course c₀ i location c peers
      (peers.map fun p => .ofExchange (reconcileReplica ((c₀.reconciler i).terms c₀.now) p
        ((c₀.replica i).store.entries.under location)))
      (peers.map fun p => (c₀.foreseen i location p).sent).sum := by
  induction peers with
  | nil => exact .nil
  | cons p peers ih =>
    obtain ⟨hmeet, hmeets⟩ := List.forall_mem_cons.mp hmeet
    obtain ⟨hshelf, hshelves⟩ := List.forall_mem_cons.mp hshelf
    obtain ⟨hfree, hfrees⟩ := List.forall_mem_cons.mp hfree
    have hsends : (reconcileReplica ((c₀.reconciler i).terms c₀.now) p
        ((c₀.replica i).store.entries.under location)).Sends (Request.Suits location) :=
      Exchange.sends_reconcileReplica _ p fun pair hpair =>
        covers_suits pair.2 (Entries.mem_under.mp hpair).1 hlimit
    have hfirst : c.Foretells p location (.ofExchange _) _ :=
      .resting (Exchange.asks_reconcileReplica _ p _) hsends hfree
    rw [hmeet, hshelf] at hfirst
    exact .cons hfirst rfl rfl (ih hmeets hshelves hfrees)

/-- Conversations that are over have come to what was foreseen for them, and so have the shelves of
their peers. -/
theorem finished {rows : List (List ValueResult)}
    (h : Course c₀ i location c peers (rows.map .finished) rest) :
    rest = 0 ∧ rows = peers.map (fun p => (c₀.foreseen i location p).result) ∧
      ∀ p ∈ peers, c.shelfAt p location = (c₀.foreseen i location p).shelf := by
  induction rows generalizing peers rest with
  | nil =>
    cases h with
    | nil => exact ⟨rfl, rfl, List.forall_mem_nil _⟩
  | cons row rows ih =>
    cases h with
    | cons hfirst hresult hshelf hrest =>
      cases hfirst with
      | finished hfree =>
        obtain ⟨rfl, hrows, hshelves⟩ := ih hrest
        refine ⟨zero_add 0, ?_, List.forall_mem_cons.mpr ⟨hshelf, hshelves⟩⟩
        rw [List.map_cons, ← hrows, ← hresult]

end Course

/-! ### How far a location has come -/

/-- Nothing has happened to the location since `c₀`. -/
structure Untouched (c₀ : Cluster n) (i : Fin n) (c : Cluster n) (location : Id) : Prop where
  shelf : ∀ q, (c.replica q).shelf location = (c₀.replica q).shelf location
  free : ∀ q, (c.replica q).Free location
  inFlight : location ∈ (c.reconciler i).inFlight ↔ location ∈ (c₀.reconciler i).inFlight

/-- Replicas other than these peers have what they had of the location. -/
def Elsewhere (c₀ c : Cluster n) (location : Id) (peers : List Peer) : Prop :=
  ∀ q, (∀ p ∈ peers, c₀.route p ≠ .ok q) →
    (c.replica q).shelf location = (c₀.replica q).shelf location

/-- The reconciliation is under way, and `sent` is what node `i` has counted. -/
inductive UnderWay (c₀ : Cluster n) (i : Fin n) (c : Cluster n) :
    Reconciliation n → SentTally → Prop
  | planned {location : Id} (h : Untouched c₀ i c location) :
    UnderWay c₀ i c (.planned location) 0
  | talking {location : Id} {talks : List (Talk n (List ValueResult))} {sent rest : SentTally}
    {r : Reconciliation n} (hprepared : (prepare i location c₀).1 = .underWay r)
    (hcourse : Course c₀ i location c (c₀.replicasOf i location) talks rest)
    (helsewhere : Elsewhere c₀ c location (c₀.replicasOf i location))
    (hsent : sent + rest = c₀.outlay i location) :
    UnderWay c₀ i c (.talking location talks) sent

/-- The reconciliation is over, and has come to what was foreseen. -/
structure Over (c₀ : Cluster n) (i : Fin n) (c : Cluster n) (x : Closing) (sent : SentTally) :
    Prop where
  closing : x = c₀.closing i x.report.location
  shelf : ∀ p ∈ c₀.audience i x.report.location,
    c.shelfAt p x.report.location = (c₀.foreseen i x.report.location p).shelf
  elsewhere : Elsewhere c₀ c x.report.location (c₀.audience i x.report.location)
  sent : sent = c₀.outlay i x.report.location

/-- What a step of a reconciliation of the location leads to. -/
def Leads (c₀ : Cluster n) (i : Fin n) (c : Cluster n) (location : Id) (sent : SentTally) :
    Progress (Reconciliation n) Closing → Prop
  | .underWay r => r.location = location ∧ UnderWay c₀ i c r sent
  | .over x => x.report.location = location ∧ Over c₀ i c x sent

section

variable {sent : SentTally}

/-- A location that nobody has touched is still untouched. -/
theorem Untouched.kept (h : Untouched c₀ i c location) (hkeeps : c.Keeps T F c')
    (hT : ∀ q, ¬T q location) (hF : ¬F location) : Untouched c₀ i c' location where
  shelf q := ((hkeeps.replica q).shelf location (hT q)).trans (h.shelf q)
  free q := (hkeeps.replica q).free (hT q) (h.free q)
  inFlight := (hkeeps.inFlight i location hF).trans h.inFlight

/-- What is stored elsewhere under the location has not changed either. -/
theorem Elsewhere.kept {peers : List Peer} (h : Elsewhere c₀ c location peers)
    (hkeeps : c.Keeps T F c') (hT : ∀ q, (∀ p ∈ peers, c₀.route p ≠ .ok q) → ¬T q location) :
    Elsewhere c₀ c' location peers := fun q hq =>
  ((hkeeps.replica q).shelf location (hT q hq)).trans (h q hq)

theorem UnderWay.kept {r : Reconciliation n} (h : UnderWay c₀ i c r sent)
    (hkeeps : c.Keeps T F c') (hT : ∀ q, ¬T q r.location) (hF : ¬F r.location) :
    UnderWay c₀ i c' r sent := by
  cases h with
  | planned h => exact .planned (h.kept hkeeps hT hF)
  | talking hprepared hcourse helsewhere hsent =>
    exact .talking hprepared (hcourse.kept hkeeps fun _ _ j _ => hT j)
      (helsewhere.kept hkeeps fun q _ => hT q) hsent

theorem Over.kept {x : Closing} (h : Over c₀ i c x sent) (hkeeps : c.Keeps T F c')
    (hT : ∀ q, ¬T q x.report.location) : Over c₀ i c' x sent where
  closing := h.closing
  shelf p hp := (hkeeps.shelfAt fun j _ => hT j).trans (h.shelf p hp)
  elsewhere := h.elsewhere.kept hkeeps fun q _ => hT q
  sent := h.sent

/-- A node that claims a location or gives it back keeps everything else, its other claims included.
-/
theorem keeps_setReconciler (i : Fin n) {q : Reconciler} (hq : (c.reconciler i).Keeps q)
    (hinFlight : ∀ other, ¬F other →
      (other ∈ q.inFlight ↔ other ∈ (c.reconciler i).inFlight)) :
    c.Keeps T F (c.setReconciler i q) :=
  { Keeps.refl T F c with
    reconciler := (c.changes_setReconciler (T := fun _ _ => False) (D := True) i hq).reconciler
    inFlight := fun j other hother => by
      by_cases hj : j = i
      · subst hj
        rw [reconciler_set_self]
        exact hinFlight other hother
      · rw [reconciler_set_of_ne c q hj] }

/-! ### One step of a reconciliation -/

theorem audience_of_over {x : Closing} (h : (prepare i location c₀).1 = .over x) :
    c₀.audience i location = [] ∧ c₀.closing i location = x ∧ c₀.outlay i location = 0 := by
  have haudience : c₀.audience i location = [] := by rw [audience, h]
  exact ⟨haudience, by rw [closing, h], by rw [outlay, haudience]; rfl⟩

theorem audience_of_underWay {r : Reconciliation n} (h : (prepare i location c₀).1 = .underWay r) :
    c₀.audience i location = c₀.replicasOf i location := by
  rw [audience, h]

/-- A location is prepared: it is skipped, or empty, or its conversations stand at their beginnings
with everything foreseen before them. -/
theorem leads_prepare (hkept : c₀.Keeps (fun q _ => q ≠ i) (fun _ => True) c)
    (hlimit : (c₀.reconciler i).config.maxValueSize < Wire.lengthBound)
    (h : Untouched c₀ i c location) :
    c.Keeps (fun _ _ => False) (· = location) (prepare i location c).2 ∧
      (((prepare i location c).2).reconciler i).tally = (c.reconciler i).tally ∧
      Leads c₀ i (prepare i location c).2 location 0 (prepare i location c).1 := by
  have hfirst := hkept.prepare (fun _ hne => hne rfl) h.inFlight
  have hprepared := c.prepared i location
  generalize prepare i location c = ended at hfirst hprepared
  cases hprepared with
  | @reported x hx =>
    obtain ⟨haudience, hclosing, houtlay⟩ := audience_of_over hfirst.symm
    subst hx
    refine ⟨.refl _ _ c, rfl, rfl, hclosing.symm, ?_, fun q _ => h.shelf q, houtlay.symm⟩
    rw [haudience]
    exact List.forall_mem_nil _
  | @begun q hq htally hinFlight =>
    have hclaimed : c.Keeps (fun _ _ => False) (· = location) (c.setReconciler i q) :=
      keeps_setReconciler i hq hinFlight
    have hshelf : ∀ p, c.shelfAt p location = c₀.shelfAt p location := fun p => by
      rw [shelfAt, shelfAt, hkept.route]
      cases c₀.route p with
      | error why => rfl
      | ok j => exact h.shelf j
    refine ⟨hclaimed, by rw [reconciler_set_self, htally], rfl, ?_⟩
    rw [hkept.replicasOf, hkept.terms, hkept.entries fun _ hne => hne rfl] at hfirst ⊢
    refine .talking hfirst.symm ((Course.start hlimit (fun p _ => hkept.meet p location)
      (fun p _ => hshelf p) fun _ _ j _ => h.free j).kept hclaimed fun _ _ _ _ hnot => hnot)
      (fun q _ => h.shelf q) ?_
    rw [zero_add, outlay, audience_of_underWay hfirst.symm]

/-- One of the conversations about a location takes a step, and the location stays on its course.
What the node counts in the step is added to what has been sent so far. -/
theorem leads_talk (hkept : c₀.Keeps (fun q _ => q ≠ i) (fun _ => True) c) (hlive : c.Live)
    (hparted : c₀.Parted i location) {front back : List (Talk n (List ValueResult))}
    {talk : Talk n (List ValueResult)}
    (h : UnderWay c₀ i c (.talking location (front ++ talk :: back)) sent) :
    ∃ more, ((c.advance i talk).2.reconciler i).tally = (c.reconciler i).tally + more ∧
      c.Keeps (fun q other => q ≠ i ∧ other = location) (fun _ => False) (c.advance i talk).2 ∧
      UnderWay c₀ i (c.advance i talk).2
        (.talking location (front ++ (c.advance i talk).1 :: back)) (sent + more) := by
  cases h with
  | talking hprepared hcourse helsewhere hsent =>
    have hapart : (c₀.replicasOf i location).Pairwise fun p p' =>
        ∀ j, c.route p = .ok j → c.route p' ≠ .ok j := hparted.apart.imp fun hne j => by
      rw [hkept.route, hkept.route]
      exact hne j
    obtain ⟨p, hp, more, rest', rfl, hcourse', htally, -, hkeeps⟩ := hcourse.advance hlive hapart
    have hroute : ∀ q, c.niche p location q location → c₀.route p = .ok q := fun q hq =>
      (hkept.route p).symm.trans hq.1
    refine ⟨more, htally, hkeeps.mono (fun q other hq => ⟨?_, hq.2⟩) fun _ => id, ?_⟩
    · rintro rfl
      exact hparted.others p hp ((hkept.route p).symm.trans hq.1)
    · refine .talking hprepared hcourse' (helsewhere.kept hkeeps fun q hq hniche => ?_) ?_
      · exact hq p hp (hroute q hniche)
      · rw [add_assoc]
        exact hsent

/-- Counting results changes neither the location of a report nor whether it was skipped. -/
theorem ofResults_spec (location : Id) (replicas : Nat) (results : List ValueResult) :
    (LocationReport.ofResults location replicas results).location = location ∧
      (LocationReport.ofResults location replicas results).skipped = false := by
  suffices ∀ report : LocationReport,
      (results.foldl LocationReport.record report).location = report.location ∧
        (results.foldl LocationReport.record report).skipped = report.skipped from this _
  induction results with
  | nil => exact fun _ => ⟨rfl, rfl⟩
  | cons result results ih =>
    intro report
    obtain ⟨hlocation, hskipped⟩ := ih (report.record result)
    rcases result with why | (_ | _ | _) <;> exact ⟨hlocation, hskipped⟩

/-- When all conversations about a location are over it is closed with the report that was foreseen,
and its claim is given back. -/
theorem leads_close {rows : List (List ValueResult)}
    (h : UnderWay c₀ i c (.talking location (rows.map .finished)) sent) :
    c.Keeps (fun _ _ => False) (· = location) (close i location rows c).2 ∧
      ((close i location rows c).2.reconciler i).tally = (c.reconciler i).tally ∧
      (close i location rows c).1.report.location = location ∧
      Over c₀ i (close i location rows c).2 (close i location rows c).1 sent := by
  have hback : c.Keeps (fun _ _ => False) (· = location)
      (c.setReconciler i ((c.reconciler i).unclaim location)) :=
    keeps_setReconciler i ⟨rfl, rfl, rfl⟩ fun other hother => by
      rw [Reconciler.unclaim, Std.ExtTreeSet.mem_erase, Ne, Std.LawfulEqOrd.compare_eq_iff_eq,
        and_iff_right fun heq => hother heq.symm]
  have hkeeps : c.Keeps (fun _ _ => False) (· = location) (close i location rows c).2 :=
    { hback with }
  have hlocation : (close i location rows c).1.report.location = location :=
    (ofResults_spec location _ _).1
  refine ⟨hkeeps, ?_, hlocation, ?_⟩
  · show ((c.setReconciler i _).reconciler i).tally = _
    rw [reconciler_set_self]
    rfl
  · cases h with
    | talking hprepared hcourse helsewhere hsent =>
      obtain ⟨rfl, hrows, hshelf⟩ := hcourse.finished
      have haudience := audience_of_underWay hprepared
      constructor
      · rw [hlocation, closing, hprepared, ← hrows]
        rfl
      · rw [hlocation, haudience]
        exact fun p hp => (hkeeps.shelfAt fun _ _ => id).trans (hshelf p hp)
      · rw [hlocation, haudience]
        exact helsewhere.kept hkeeps fun _ _ => id
      · rw [hlocation, ← hsent, add_zero]

/-- A step of a reconciliation changes nothing about other locations, and leads to where the
location would be if it were alone. -/
theorem UnderWay.step (hkept : c₀.Keeps (fun q _ => q ≠ i) (fun _ => True) c) (hlive : c.Live)
    (hlimit : (c₀.reconciler i).config.maxValueSize < Wire.lengthBound) {r : Reconciliation n}
    (hparted : c₀.Parted i r.location) (h : UnderWay c₀ i c r sent) {inOrder : Prop}
    {progress : Progress (Reconciliation n) Closing} (hstep : r.Step i inOrder c progress c') :
    ∃ more, (c'.reconciler i).tally = (c.reconciler i).tally + more ∧
      c.Keeps (fun q other => q ≠ i ∧ other = r.location) (· = r.location) c' ∧
      Leads c₀ i c' r.location (sent + more) progress := by
  cases hstep with
  | prepare location c =>
    cases h with
    | planned h =>
      obtain ⟨hkeeps, htally, hleads⟩ := leads_prepare hkept hlimit h
      refine ⟨0, htally.trans (add_zero _).symm,
        hkeeps.mono (fun _ _ => False.elim) fun _ => id, ?_⟩
      rwa [add_zero]
  | talk location talk back c horder =>
    obtain ⟨more, htally, hkeeps, hunder⟩ := leads_talk hkept hlive hparted h
    exact ⟨more, htally, hkeeps.mono (fun _ _ => id) fun _ => False.elim, rfl, hunder⟩
  | close location rows c =>
    obtain ⟨hkeeps, htally, hlocation, hover⟩ := leads_close h
    refine ⟨0, htally.trans (add_zero _).symm, hkeeps.mono (fun _ _ => False.elim) fun _ => id,
      hlocation, ?_⟩
    rwa [add_zero]

end

end Cluster

end DeltaMesh
