import DeltaMesh.Proofs.Cluster.Agenda

/-!
# What a tick achieves

When a node of a steady cluster has carried out its agenda, the nodes after it hold what it had to
bring, and nothing else has changed (`Cluster.Ticked`). The cluster is steady as before
(`Cluster.Steady.after`).
-/

namespace DeltaMesh

variable {n : Nat}

namespace Cluster

/-- All that node `i` has to bring is there. -/
def Served (c : Cluster n) (ids : Fin n → Id) (copies : Nat) (i : Fin n) : Prop :=
  ∀ q k value, c.Brings ids copies i q k value → c.held? q k = some value

/-- What a tick of node `i` achieves. -/
structure Ticked (ids : Fin n → Id) (copies : Nat) (i : Fin n) (c : Cluster n)
    (report : TickReport) (c' : Cluster n) : Prop where
  brought : ∀ q k value, c.Brings ids copies i q k value → c'.held? q k = some value
  kept : ∀ q k, (∀ value, ¬c.Brings ids copies i q k value) → c'.held? q k = c.held? q k
  clean : ∀ r ∈ report.locations, r.Clean
  onlyUpToDate : c.Served ids copies i → ∀ r ∈ report.locations, r.OnlyUpToDate
  sent : ∃ new, c'.network.sent = new ++ c.network.sent ∧
    (c.Served ids copies i → ∀ q ∈ new, q.kind = .info)

variable {c c' : Cluster n} {ids : Fin n → Id} {config : ReplicationConfig} {i : Fin n}
  {report : TickReport}

namespace Steady

section

variable (h : c.Steady ids config) (hfactor : (c.reconciler i).factor = config.copies n)

include h hfactor

theorem result_ok {t : Tour n} (ht : t ∈ (c.agenda i).tours) {result : ValueResult}
    (hresult : result ∈ t.visits.flatMap fun v => v.results v.values) :
    (∃ outcome, result = .ok outcome) ∧
      (c.Served ids (config.copies n) i → result = .ok .upToDate) := by
  obtain ⟨v, hv, hresult⟩ := List.mem_flatMap.mp hresult
  obtain ⟨x, hx, rfl⟩ := List.mem_map.mp hresult
  obtain ⟨hbrings, hheld, hsmall⟩ := h.brings_of_errand hfactor ht hv hx
  refine ⟨hsmall.arrives.1, fun hserved => Errand.result_of_same ?_⟩
  exact (congrFun hheld x.1).trans (hserved _ _ _ hbrings)

/-- If all is there no request but INFO is needed. -/
theorem not_needed_of_served (hserved : c.Served ids (config.copies n) i) :
    ¬(c.agenda i).Needed := by
  rintro ⟨t, ht, v, hv, x, hx, hne⟩
  obtain ⟨hbrings, hheld, -⟩ := h.brings_of_errand hfactor ht hv hx
  rw [hheld] at hne
  exact hne (hserved _ _ _ hbrings)

variable (hfinished : (c.agenda i).Finished c report c')

include hfinished

theorem at_of_brings {q : Fin n} {k : Key} {value : ByteArray}
    (hbrings : c.Brings ids (config.copies n) i q k value) :
    c'.held? q k = some value ∧ (c'.replica q).locks.on k = [] := by
  obtain ⟨t, ht, v, hv, rfl, hx⟩ := h.exists_errand hfactor hbrings
  obtain ⟨-, -, hsmall⟩ := h.brings_of_errand hfactor ht hv hx
  have hat := hfinished.behind t ht v hv (k, value) hx
  exact ⟨hat.held.trans hsmall.arrives.2, hat.locks⟩

theorem kept_of_not_brings {q : Fin n} {k : Key}
    (hnone : ∀ value, ¬c.Brings ids (config.copies n) i q k value) :
    c'.held? q k = c.held? q k ∧ (c'.replica q).locks.on k = (c.replica q).locks.on k := by
  have hscope : ¬(c.agenda i).Scope q k := fun hk =>
    let ⟨value, hbrings⟩ := (h.scope_agenda hfactor q k).mp hk
    hnone value hbrings
  exact ⟨(hfinished.changes.replica q).held k hscope, (hfinished.changes.replica q).locks k hscope⟩

theorem ticked : Ticked ids (config.copies n) i c report c' where
  brought q k value hbrings := (h.at_of_brings hfactor hfinished hbrings).1
  kept q k hnone := (h.kept_of_not_brings hfactor hfinished hnone).1
  clean r hr := by
    obtain ⟨t, ht, rfl⟩ := List.mem_map.mp (hfinished.locations.mem_iff.mp hr)
    exact LocationReport.clean_ofResults _ _ fun result hresult =>
      (h.result_ok hfactor ht hresult).1
  onlyUpToDate hserved r hr := by
    obtain ⟨t, ht, rfl⟩ := List.mem_map.mp (hfinished.locations.mem_iff.mp hr)
    exact LocationReport.onlyUpToDate_ofResults _ _ fun result hresult =>
      (h.result_ok hfactor ht hresult).2 hserved
  sent := by
    obtain ⟨new, hsent, hnew⟩ := hfinished.changes.sent
    refine ⟨new, hsent, fun hserved q hq => ?_⟩
    by_contra hkind
    exact h.not_needed_of_served hfactor hserved (hnew q hq hkind)

/-- A value is brought under a key, or nothing happens there. -/
theorem brought_or_kept (q : Fin n) (k : Key) :
    (∃ value, c.Brings ids (config.copies n) i q k value ∧ c'.held? q k = some value ∧
      (c'.replica q).locks.on k = []) ∨
    c'.held? q k = c.held? q k ∧ (c'.replica q).locks.on k = (c.replica q).locks.on k := by
  by_cases hbrings : ∃ value, c.Brings ids (config.copies n) i q k value
  · obtain ⟨value, hbrings⟩ := hbrings
    exact .inl ⟨value, hbrings, h.at_of_brings hfactor hfinished hbrings⟩
  · exact .inr (h.kept_of_not_brings hfactor hfinished fun value hvalue => hbrings ⟨value, hvalue⟩)

/-- Every value comes from somewhere. -/
theorem exists_held {q : Fin n} {k : Key} {value : ByteArray} (hheld : c'.held? q k = some value) :
    ∃ j, c.held? j k = some value := by
  rcases h.brought_or_kept hfactor hfinished q k with ⟨value', hbrings, hbrought, -⟩ | ⟨hkept, -⟩
  · exact ⟨i, hbrings.held.trans (hbrought.symm.trans hheld)⟩
  · exact ⟨q, hkept.symm.trans hheld⟩

/-- What a node owns stays as it is. -/
theorem held_of_owner {q : Fin n} {k : Key} (howner : rank ids k.location q = 0) :
    c'.held? q k = c.held? q k := by
  refine (h.kept_of_not_brings hfactor hfinished fun value hbrings => ?_).1
  have hpos := hbrings.replicates.1
  rw [howner] at hpos
  cases hpos

/-- A node that is no owner and was none has nothing to announce, so a tick changes no tracker in a
steady cluster. -/
theorem tracker_eq (q : Fin n) : (c'.replica q).tracker = (c.replica q).tracker := by
  refine (hfinished.changes.replica q).tracker fun k hk => ?_
  obtain ⟨value, hbrings⟩ := (h.scope_agenda hfactor q k).mp hk
  have hrank : rank ids k.location q ≠ 0 := Nat.one_le_iff_ne_zero.mp hbrings.replicates.1
  have howner :
      ((c.replica q).directory.owner k.location).id ≠ (c.replica q).directory.self.id := by
    rw [(h.lists q).self]
    exact fun heq => hrank (((h.lists q).owner_id_eq_iff h.injective k.location q).mp heq)
  have howned : ¬(c.replica q).tracker.owned.contains k.location = true := fun hmem =>
    hrank (h.owns q k.location (Std.ExtTreeSet.contains_iff_mem.mp hmem))
  rw [Tracker.notify, Tracker.evaluate, Tracker.change?]
  simp only [if_neg howner, if_neg howned]

/-- The cluster is as steady after a tick as before: a tick stores only values that an owner had,
under the same keys, so sizes, ownership and separated blocks are inherited. -/
theorem after : c'.Steady ids config where
  script := hfinished.changes.script.trans h.script
  registered := by rw [hfinished.changes.registered]; exact h.registered
  reachable := by rw [hfinished.changes.unreachable]; exact h.reachable
  lists q := by rw [(hfinished.changes.replica q).directory]; exact h.lists q
  size := h.size
  configs j := (hfinished.changes.reconciler j).config.trans (h.configs j)
  factors j := (hfinished.changes.reconciler j).factorConfig.trans (h.factors j)
  blockSizes q := (hfinished.changes.replica q).blockSize.trans (h.blockSizes q)
  fixed := h.fixed
  block := h.block
  limit := h.limit
  locks := hfinished.changes.locks h.locks
  unclaimed q k := by
    rcases h.brought_or_kept hfactor hfinished q k with ⟨-, -, -, hfree⟩ | ⟨-, hkept⟩
    · exact hfree
    · exact hkept.trans (h.unclaimed q k)
  free j := by
    by_cases hj : j = i
    · exact hj ▸ hfinished.free
    · exact (hfinished.others j hj).trans (h.free j)
  faultless q := by rw [(hfinished.changes.replica q).fault]; exact h.faultless q
  -- whatever is held now was held somewhere before, within the same bounds
  sizes q k value hheld := by
    obtain ⟨j, hj⟩ := h.exists_held hfactor hfinished hheld
    exact h.sizes j k value hj
  apart q r k value base hvalue hbase := by
    obtain ⟨j, hj⟩ := h.exists_held hfactor hfinished hvalue
    obtain ⟨l, hl⟩ := h.exists_held hfactor hfinished hbase
    exact h.apart j l k value base hj hl
  owned q k value hheld howner := by
    -- no one brings anything to the owner
    rw [h.tracker_eq hfactor hfinished q]
    rw [h.held_of_owner hfactor hfinished howner] at hheld
    exact h.owned q k value hheld howner
  owns q location := by
    rw [h.tracker_eq hfactor hfinished q]
    exact h.owns q location
  stored q location hlocation := by
    rw [h.tracker_eq hfactor hfinished q] at hlocation
    obtain ⟨j, k, value, hheld, hk⟩ := h.stored q location hlocation
    rcases h.brought_or_kept hfactor hfinished j k with ⟨value', -, hbrought, -⟩ | ⟨hkept, -⟩
    · exact ⟨j, k, value', hbrought, hk⟩
    · exact ⟨j, k, value, hkept.trans hheld, hk⟩

end

end Steady

end Cluster

end DeltaMesh
