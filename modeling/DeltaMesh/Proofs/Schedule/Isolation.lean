import DeltaMesh.Proofs.Reconciler.Report
import DeltaMesh.Proofs.Schedule.AnyOrder

/-!
# Peers that are cut off

Two ticks of a node that begin alike, but with other peers cut off, come to the same as far as the
peers are concerned that both of them reach (`Cluster.agreesOn_cutOff`). A peer that is cut off
keeps what it has, and no value is brought to it; each of these failures is in the report of its
location (`Cluster.Accounts`).
-/

namespace DeltaMesh

variable {n : Nat}

namespace Cluster

open Reconciliation (prepare close)

variable {c c₀ : Cluster n} {i : Fin n} {p : Peer} {location : Id} {t : Tick n}
  {U U' : Std.ExtTreeSet Id compare}

/-- The cluster when these peers are cut off, and no others. -/
def cutOff (c : Cluster n) (U : Std.ExtTreeSet Id compare) : Cluster n :=
  { c with network := { c.network with unreachable := U } }

theorem Undisturbed.cutOff (h : c.Undisturbed i) (U : Std.ExtTreeSet Id compare) :
    (c.cutOff U).Undisturbed i :=
  { h with }

/-- Whom a node can reach is nothing to the beginning of a tick: the factor, the locations and the
window are found without any request. -/
theorem begin_cutOff (h : Tick.begin i c = .ok (t, c₀)) (U : Std.ExtTreeSet Id compare) :
    Tick.begin i (c.cutOff U) = .ok (t, c₀.cutOff U) := by
  rw [Tick.begin] at h ⊢
  have hsame : ((c.cutOff U).reconciler i).recompute ((c.cutOff U).replica i).directory.size =
      (c.reconciler i).recompute (c.replica i).directory.size := rfl
  rw [hsame]
  cases hrecompute : (c.reconciler i).recompute (c.replica i).directory.size with
  | error why =>
    rw [hrecompute] at h
    cases h
  | ok q =>
    rw [hrecompute] at h
    obtain ⟨rfl, rfl⟩ := Prod.mk.inj (Except.ok.inj h)
    rfl

/-! ### What is foreseen -/

/-- A peer that is cut off cannot be reached. -/
theorem route_of_mem (h : p.id ∈ U) : (c.cutOff U).route p = .error (.unreachable p.shortText) :=
  if_pos (Std.ExtTreeSet.contains_iff_mem.mpr h)

/-- All others are reached as if nobody were. -/
theorem route_of_not_mem (h : p.id ∉ U) : (c.cutOff U).route p = (c.cutOff ∅).route p := by
  have hfalse : ¬U.contains p.id = true := fun hmem => h (Std.ExtTreeSet.contains_iff_mem.mp hmem)
  have hnone : ¬(∅ : Std.ExtTreeSet Id compare).contains p.id = true := fun hmem =>
    Std.ExtTreeSet.not_mem_empty (Std.ExtTreeSet.contains_iff_mem.mp hmem)
  rw [route, route]
  exact (if_neg hfalse).trans (if_neg hnone).symm

/-- What a conversation will come to depends on whether its own peer can be reached. -/
theorem foreseen_cutOff (h : p.id ∉ U) :
    (c.cutOff U).foreseen i location p = (c.cutOff ∅).foreseen i location p := by
  have hmeet : (c.cutOff U).meet p location = (c.cutOff ∅).meet p location := by
    funext q s
    rw [meet, meet, route_of_not_mem h]
    rfl
  have hshelf : (c.cutOff U).shelfAt p location = (c.cutOff ∅).shelfAt p location := by
    rw [shelfAt, shelfAt, route_of_not_mem h]
    rfl
  rw [foreseen, foreseen, hmeet, hshelf]
  rfl

/-- With a replica that is cut off every value of the location fails, and with that error. -/
theorem foreseen_of_mem (h : p.id ∈ U) : ((c.cutOff U).foreseen i location p).result =
    ((c.replica i).store.entries.under location).map fun _ =>
      .error (.network (.unreachable p.shortText)) := by
  have hgone : ∀ q s, (c.cutOff U).meet p location q s = (.error (.unreachable p.shortText), s) :=
    fun q s => by rw [meet, route_of_mem h]
  exact (Exchange.play_reconcileReplica_of_gone _ p _ _ hgone).1

/-- Which replicas are visited is decided without asking any of them. -/
theorem prepare_cutOff : (prepare i location (c.cutOff U)).1 = (prepare i location c).1 := by
  rw [fst_prepare, fst_prepare]
  rfl

theorem audience_cutOff : (c.cutOff U).audience i location = c.audience i location := by
  rw [audience, audience, prepare_cutOff]
  rfl

/-- How a location can end. -/
inductive Closes (c : Cluster n) (i : Fin n) (location : Id) : Closing → Prop
  | skipped : Closes c i location ⟨{ location, skipped := true }, []⟩
  | empty (h : c.replicasOf i location = [] ∨ (c.replica i).store.entries.under location = []) :
    Closes c i location ⟨{ location, replicas := (c.replicasOf i location).length }, []⟩
  | closed (hvalues : (c.replica i).store.entries.under location ≠ []) :
    Closes c i location (close i location
      ((c.replicasOf i location).map fun p => (c.foreseen i location p).result) c).1

theorem closes_closing (c : Cluster n) (i : Fin n) (location : Id) :
    c.Closes i location (c.closing i location) := by
  rw [closing, fst_prepare]
  split_ifs with hclaimed hempty
  · exact .skipped
  · exact .empty (by simpa only [List.isEmpty_iff] using hempty)
  · exact .closed fun hnone => hempty (.inr (List.isEmpty_iff.mpr hnone))

/-- What came of a location is in its report: a failure for each value that did not reach a
replica. -/
structure Accounts (c : Cluster n) (i : Fin n) (x : Closing) : Prop where
  failures : x.report.failures = x.rows.flatten.countP ValueResult.failed
  /-- There are results for each replica, if there is anything to do. -/
  rows : x.rows.length =
    if x.report.skipped ∨ ((c.replica i).store.entries.under x.report.location).isEmpty then 0
    else (c.replicasOf i x.report.location).length
  /-- Each value has a result at each replica. -/
  values : ∀ row ∈ x.rows,
    row.length = ((c.replica i).store.entries.under x.report.location).length
  /-- Each value fails at a replica that is cut off. -/
  cutOff : ∀ (k : Nat) (p : Peer) (row : List ValueResult),
    (c.replicasOf i x.report.location)[k]? = some p → p.id ∈ c.network.unreachable →
      x.rows[k]? = some row → ∀ result ∈ row, result = .error (.network (.unreachable p.shortText))

/-- A closing accounts for all values at all replicas: there is a row for each replica with a result
for each value, and the report counts the failures among them. -/
theorem Closes.accounts {x : Closing} (h : c.Closes i location x) : c.Accounts i x := by
  cases h with
  | skipped =>
    exact ⟨rfl, (if_pos (.inl rfl)).symm, List.forall_mem_nil _,
      fun _ _ _ _ _ hrow => (nomatch hrow)⟩
  | empty h =>
    refine ⟨rfl, ?_, List.forall_mem_nil _, fun _ _ _ _ _ hrow => (nomatch hrow)⟩
    by_cases hnone : (c.replica i).store.entries.under location = []
    · exact (if_pos (.inr (List.isEmpty_iff.mpr hnone))).symm
    · rw [if_neg (by simpa using hnone), h.resolve_right hnone]
      rfl
  | closed hvalues =>
    obtain ⟨hlocation, hskipped⟩ := ofResults_spec location
      ((c.replicasOf i location).map fun p => (c.foreseen i location p).result).length
      ((c.replicasOf i location).map fun p => (c.foreseen i location p).result).flatten
    refine ⟨LocationReport.failures_ofResults .., ?_, ?_, ?_⟩
    · rw [close, hlocation, hskipped, if_neg (by simpa using hvalues)]
      exact List.length_map _
    · rw [close, hlocation]
      refine List.forall_mem_map.mpr fun p _ => ?_
      exact Exchange.length_play_reconcileReplica ..
    · rw [close, hlocation]
      intro k p row hp hcut hrow
      have hrow' : row = (c.foreseen i location p).result := by
        rw [List.getElem?_map, hp] at hrow
        exact (Option.some.inj hrow).symm
      rw [hrow', ← show c.cutOff c.network.unreachable = c from rfl, foreseen_of_mem hcut]
      exact List.forall_mem_map.mpr fun _ _ => rfl

/-! ### Two ticks -/

/-- Two ticks of node `i` agree on these peers: they leave the same with each of them, and the same
came of every value there. -/
structure AgreesOn (c₀ : Cluster n) (i : Fin n) (P : Id → Prop) (w w' : Sweep n) : Prop where
  entries : ∀ q, P (c₀.replica q).directory.self.id →
    (w.cluster.replica q).store.entries = (w'.cluster.replica q).store.entries
  owned : ∀ q, P (c₀.replica q).directory.self.id →
    (w.cluster.replica q).tracker.owned = (w'.cluster.replica q).tracker.owned
  rows : ∀ x ∈ w.ended, ∀ x' ∈ w'.ended, x.report.location = x'.report.location →
    ∀ (k : Nat) (p : Peer), (c₀.replicasOf i x.report.location)[k]? = some p → P p.id →
      x.rows[k]? = x'.rows[k]?

variable {locations : List Id} {w w' : Sweep n}

theorem location_closing (c : Cluster n) (i : Fin n) (location : Id) :
    (c.closing i location).report.location = location := by
  have hcloses := c.closes_closing i location
  generalize c.closing i location = x at hcloses
  cases hcloses with
  | skipped | empty => rfl
  | closed => exact (ofResults_spec location _ _).1

/-- How a location ends is known beforehand; it is the same in every completion of the tick. -/
theorem eq_closing_of_mem (h : Sweep.Foreseen c i locations w) {x : Closing} (hx : x ∈ w.ended) :
    x = c.closing i x.report.location := by
  obtain ⟨location, -, rfl⟩ := List.mem_map.mp (h.ended.subset hx)
  rw [location_closing]

/-- A peer that is cut off keeps what it has. -/
theorem shelf_of_mem (hquiet : c.Undisturbed i)
    (h : Sweep.Foreseen (c.cutOff U) i locations w) {q : Fin n}
    (hq : (c.replica q).directory.self.id ∈ U) (location : Id) :
    (w.cluster.replica q).shelf location = (c.replica q).shelf location := by
  refine h.elsewhere q location fun _ p _ hroute => ?_
  have hid := (hquiet.cutOff U).id_of_route hroute
  rw [route_of_mem (hid ▸ hq)] at hroute
  cases hroute

/-- The way to a replica is open as long as its own node is not cut off. -/
theorem route_cutOff_iff (hquiet : c.Undisturbed i) {q : Fin n}
    (hq : (c.replica q).directory.self.id ∉ U) :
    (c.cutOff U).route p = .ok q ↔ (c.cutOff ∅).route p = .ok q := by
  constructor
  · intro hroute
    have hid := (hquiet.cutOff U).id_of_route hroute
    rwa [← route_of_not_mem (hid ▸ hq)]
  · intro hroute
    have hid := (hquiet.cutOff ∅).id_of_route hroute
    rwa [route_of_not_mem (hid ▸ hq)]

/-- What a peer has in the end depends on whether this peer can be reached, and not on who else can.
-/
theorem shelf_cutOff (hquiet : c.Undisturbed i) (h : Sweep.Foreseen (c.cutOff U) i locations w)
    (h' : Sweep.Foreseen (c.cutOff U') i locations w') {q : Fin n}
    (hq : (c.replica q).directory.self.id ∉ U) (hq' : (c.replica q).directory.self.id ∉ U')
    (location : Id) :
    (w.cluster.replica q).shelf location = (w'.cluster.replica q).shelf location := by
  have hsame : ∀ p, (c.cutOff U).route p = .ok q ↔ (c.cutOff U').route p = .ok q := fun p =>
    (route_cutOff_iff hquiet hq).trans (route_cutOff_iff hquiet hq').symm
  by_cases hreached : location ∈ locations ∧
      ∃ p ∈ c.audience i location, (c.cutOff U).route p = .ok q
  · obtain ⟨hlocation, p, hp, hroute⟩ := hreached
    have hid : (c.replica q).directory.self.id = p.id := (hquiet.cutOff U).id_of_route hroute
    rw [hid] at hq hq'
    rw [h.reached location hlocation p (audience_cutOff ▸ hp) q hroute,
      h'.reached location hlocation p (audience_cutOff ▸ hp) q ((hsame p).mp hroute),
      foreseen_cutOff hq, ← foreseen_cutOff hq']
  · have hother : location ∈ locations →
        ∀ p ∈ c.audience i location, (c.cutOff U).route p ≠ .ok q :=
      fun hlocation p hp hroute => hreached ⟨hlocation, p, hp, hroute⟩
    rw [h.elsewhere q location fun hlocation p hp => hother hlocation p (audience_cutOff ▸ hp),
      h'.elsewhere q location fun hlocation p hp hroute =>
        hother hlocation p (audience_cutOff ▸ hp) ((hsame p).mpr hroute)]
    rfl

theorem audience_eq (c : Cluster n) (i : Fin n) (location : Id) :
    c.audience i location = [] ∨ c.audience i location = c.replicasOf i location := by
  rw [audience]
  split
  case h_1 => exact .inl rfl
  case h_2 => exact .inr rfl

/-- The rows of a report, one for each replica that is visited. -/
theorem rows_closing (c : Cluster n) (i : Fin n) (location : Id) : (c.closing i location).rows =
    (c.audience i location).map fun p => (c.foreseen i location p).result := by
  rw [closing, audience, fst_prepare]
  split_ifs with hclaimed hempty
  · rfl
  · rfl
  · rfl

/-- The row of replica number `k` is the same in two clusters in both of which its peer can be
reached. -/
theorem rows_cutOff {k : Nat} (hp : (c.replicasOf i location)[k]? = some p) (hU : p.id ∉ U)
    (hU' : p.id ∉ U') :
    ((c.cutOff U).closing i location).rows[k]? = ((c.cutOff U').closing i location).rows[k]? := by
  rw [rows_closing, rows_closing, audience_cutOff, audience_cutOff, List.getElem?_map,
    List.getElem?_map]
  rcases c.audience_eq i location with hnone | hall
  · rw [hnone]
    rfl
  · rw [hall, hp]
    exact congrArg (fun ending : Ending (List ValueResult) => some ending.result)
      ((foreseen_cutOff hU).trans (foreseen_cutOff hU').symm)

/-- Replicas that are cut off in neither of two clusters end up the same in both, and have answered
the same. This is the comparison, before the reports are brought in. -/
theorem agreesOn_cutOff (hquiet : c.Undisturbed i) (h : Sweep.Foreseen (c.cutOff U) i locations w)
    (h' : Sweep.Foreseen (c.cutOff U') i locations w') :
    c.AgreesOn i (fun id => id ∉ U ∧ id ∉ U') w w' where
  entries _ hq := (Replica.eq_of_shelves (shelf_cutOff hquiet h h' hq.1 hq.2)).1
  owned _ hq := (Replica.eq_of_shelves (shelf_cutOff hquiet h h' hq.1 hq.2)).2
  rows x hx x' hx' hlocation k p hp hreached := by
    rw [eq_closing_of_mem h hx, eq_closing_of_mem h' hx', ← hlocation]
    exact rows_cutOff hp hreached.1 hreached.2

end Cluster

namespace Schedule

open Cluster

/-- A tick can be completed whoever is cut off, and two ticks in which other peers are cut off agree
on those that both of them reach. A peer that is cut off keeps what it has. The report of a location
counts the values that failed, among them all that should have gone to a peer that is cut off. A
tick that a schedule carries out is one of these. -/
theorem tick_isolated (s : Schedule n) (i : Fin n) (hidle : s.Idle)
    (hquiet : s.cluster.Undisturbed i) {t : Tick n} {c₀ : Cluster n}
    (hbegin : Tick.begin i s.cluster = .ok (t, c₀)) :
    (∀ U, Tick.begin i (s.cluster.cutOff U) = .ok (t, c₀.cutOff U) ∧
      (∃ w, Sweep.Completes i ⟨t.window, False⟩ (.start t.waiting (c₀.cutOff U)) w) ∧
      ∀ report s', { s with cluster := s.cluster.cutOff U }.tick i = .ok (some report, s') →
        ∃ w, Sweep.Completes i ⟨t.window, False⟩ (.start t.waiting (c₀.cutOff U)) w ∧
          w.cluster = s'.cluster ∧ report.locations = (w.ended.map (·.report)).reverse) ∧
    (∀ U U' w w', Sweep.Completes i ⟨t.window, False⟩ (.start t.waiting (c₀.cutOff U)) w →
      Sweep.Completes i ⟨t.window, False⟩ (.start t.waiting (c₀.cutOff U')) w' →
        c₀.AgreesOn i (fun id => id ∉ U ∧ id ∉ U') w w') ∧
    ∀ U w, Sweep.Completes i ⟨t.window, False⟩ (.start t.waiting (c₀.cutOff U)) w →
      (∀ q, (s.cluster.replica q).directory.self.id ∈ U →
        (w.cluster.replica q).store.entries = (s.cluster.replica q).store.entries ∧
          (w.cluster.replica q).tracker.owned = (s.cluster.replica q).tracker.owned) ∧
      (w.ended.map (·.report.location)).Perm (s.cluster.replica i).tracker.responsible ∧
      ∀ x ∈ w.ended, (c₀.cutOff U).Accounts i x := by
  have hbegun := begun_of_begin hbegin
  have hfresh := hquiet.begun hbegun
  have hsound : ∀ U, Sweep.Sound (c₀.cutOff U) i t.waiting := fun U =>
    (hquiet.cutOff U).sound (begun_of_begin (begin_cutOff hbegin U))
  refine ⟨fun U => ⟨begin_cutOff hbegin U, ?_, fun report s' htick => ?_⟩,
    fun U U' w w' hw hw' => ?_, fun U w hw => ⟨fun q hq => ?_, ?_, fun x hx => ?_⟩⟩
  · exact (Sweep.stands_start (hsound U)).completed (hsound U) hbegun.window
  · exact tick_completes (s := { s with cluster := s.cluster.cutOff U })
      ⟨hidle.ready, hidle.blocked⟩ (begin_cutOff hbegin U) htick
  · exact agreesOn_cutOff hfresh (hw.foreseen (hsound U)) (hw'.foreseen (hsound U'))
  · rw [← hbegun.replica] at hq ⊢
    exact Replica.eq_of_shelves (shelf_of_mem hfresh (hw.foreseen (hsound U)) hq)
  · rw [← hbegun.waiting]
    refine ((hw.foreseen (hsound U)).ended.map _).trans (.of_eq ?_)
    rw [List.map_map]
    exact (List.map_congr_left fun location _ => location_closing _ i location).trans
      (List.map_id _)
  · rw [eq_closing_of_mem (hw.foreseen (hsound U)) hx]
    exact (closes_closing _ i _).accounts

/-- A tick with the second of three nodes cut off, and one with all nodes connected. -/
theorem tick_isolated_trio :
    let first : Key := ⟨.ofNat 4, .ofNat 5, .ofNat 6⟩
    let second : Key := ⟨.ofNat 7, .ofNat 8, .ofNat 9⟩
    let s := Schedule.ofCluster (.trio first second ⟨#[3, 7, 1, 2]⟩ ⟨#[5, 1, 1, 2]⟩)
    let gone := (∅ : Std.ExtTreeSet Id compare).insert (.ofNat 2)
    s.Idle ∧ s.cluster.Undisturbed 0 ∧ ∃ t c₀, Tick.begin 0 s.cluster = .ok (t, c₀) ∧ ∃ w w',
      Sweep.Completes 0 ⟨t.window, False⟩ (.start t.waiting (c₀.cutOff gone)) w ∧
      Sweep.Completes 0 ⟨t.window, False⟩ (.start t.waiting (c₀.cutOff ∅)) w' ∧
      (w.cluster.replica 1).store.entries = ∅ ∧
      (w.cluster.replica 2).store.entries = (w'.cluster.replica 2).store.entries ∧
      ∀ x ∈ w.ended, (c₀.cutOff gone).Accounts 0 x := by
  intro first second s gone
  have hidle : s.Idle := idle_ofCluster _
  have hquiet : s.cluster.Undisturbed 0 := undisturbed_trio ..
  obtain ⟨t, c₀, hbegin⟩ : ∃ t c₀, Tick.begin 0 s.cluster = .ok (t, c₀) := ⟨_, _, rfl⟩
  obtain ⟨hends, htwo, hone⟩ := tick_isolated s 0 hidle hquiet hbegin
  obtain ⟨-, ⟨w, hw⟩, -⟩ := hends gone
  obtain ⟨-, ⟨w', hw'⟩, -⟩ := hends ∅
  obtain ⟨hkept, -, haccounts⟩ := hone gone w hw
  have hthird : (c₀.replica 2).directory.self.id = .ofNat 3 := by
    rw [(begun_of_begin hbegin).replica]
    rfl
  have hreached : (Id.ofNat 3) ∉ gone ∧ (Id.ofNat 3) ∉ (∅ : Std.ExtTreeSet Id compare) := by
    refine ⟨fun hmem => ?_, Std.ExtTreeSet.not_mem_empty⟩
    rcases Std.ExtTreeSet.mem_insert.mp hmem with heq | hnone
    · exact absurd heq (by decide)
    · exact Std.ExtTreeSet.not_mem_empty hnone
  exact ⟨hidle, hquiet, t, c₀, hbegin, w, w', hw, hw',
    (hkept 1 Std.ExtTreeSet.mem_insert_self).1,
    (htwo gone ∅ w w' hw hw').entries 2 (hthird ▸ hreached), haccounts⟩

end Schedule

end DeltaMesh
