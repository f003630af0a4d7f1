import DeltaMesh.Proofs.Cluster.Scripted
import DeltaMesh.Proofs.Schedule.Alone

/-!
# What a node says to anyone

A node is asked to bring a value to a peer, or to hand a location over, and whatever it says is
answered in any way at all. It follows the protocol about the value (`Schedule.bring_follows`), and
sends the values of the location in batches as large as can be, up to the first one that is not
acknowledged (`Schedule.push_batches`). Either way it keeps its own values, its tracker and its
directory as they are.
-/

namespace DeltaMesh

namespace Schedule

variable {n : Nat}

/-- Whatever answers, a node that brings a value to a peer asks about it once, sends at most one
more request, which depends on the answer, and comes to a result that says how the last one was met.
-/
theorem bring_follows (c : Cluster n) (i : Fin n) (peer : Peer) (key : Key) (value : ByteArray)
    (transport : Transport) :
    let t := (c.reconciler i).terms c.now
    ∃ record : Transcript ValueResult, record.Conforms transport ∧
      FollowsProtocol t peer key value record.asked record.result ∧
      ∀ cues seen, ∃ s',
        (ofCluster { c with script := some ⟨record.cues ++ cues, seen⟩ }).bring i peer key value =
          (some record.result, s') ∧
        s'.cluster.script = some ⟨cues, seen ++ record.requests⟩ ∧
        s'.cluster.network = c.network := by
  intro t
  let x := (reconcileValue t peer key value).run
  let record := x.transcript transport []
  refine ⟨record, x.conforms_transcript transport,
    (Exchange.valueCourse_transcript t peer key value transport []).followsProtocol,
    fun cues seen => ?_⟩
  let s := ofCluster { c with script := some ⟨record.cues ++ cues, seen⟩ }
  obtain ⟨c', halone, hscript, hnetwork, -⟩ := Cluster.alone_transcript (c := s.cluster) i
    (Exchange.computes_reconcileValue t peer key value) transport [] cues seen rfl
  obtain ⟨s', hbring, -, hcluster⟩ :=
    bring_alone (s := s) (m := 1) (idle_ofCluster _) halone (by decide)
  exact ⟨s', hbring, hcluster ▸ hscript, hcluster ▸ hnetwork⟩

/-- Whatever answers, a node that hands a location over sends the location's values that are not too
large in the one division into batches that are as large as can be, batch by batch, and nothing
after the first batch that is not acknowledged. -/
theorem push_batches (c : Cluster n) (i : Fin n) (location : Id) (owner : Peer)
    (transport : Transport) :
    let t := (c.reconciler i).terms c.now
    let values := (c.replica i).store.entries.under location
    (values.Pairwise fun a b => compare a.1 b.1 = .lt) ∧
    (∀ key value, (key, value) ∈ values ↔
      key.location = location ∧ (c.replica i).store.get? key = some value) ∧
    ∃ rows, (∀ rows', Exchange.Packs (values.filter t.allows) rows' ↔ rows' = rows) ∧
    (∀ row ∈ rows, (Entries.ofPairs row).toList = row) ∧
    ∃ record, record.Conforms transport ∧ HandOverCourse t owner [] 0 values rows record ∧
      ∀ cues seen, ∃ s',
        (ofCluster { c with script := some ⟨record.cues ++ cues, seen⟩ }).push i location owner =
          (some record.result, s') ∧
        s'.cluster.script = some ⟨cues, seen ++ record.requests⟩ ∧
        s'.cluster.network = c.network ∧
        (s'.cluster.reconciler i).tally = (c.reconciler i).tally + record.sent := by
  intro t values
  let x := (handOver t owner values).run
  let record := x.transcript transport []
  have hsorted : values.Pairwise fun a b => compare a.1 b.1 = .lt :=
    Entries.pairwise_under _ location
  refine ⟨hsorted, fun key value => Entries.mem_under, _, fun rows' => Exchange.packs_iff,
    fun row hrow => ?_, record, x.conforms_transcript transport,
    Exchange.handOverCourse_transcript t owner transport values [], fun cues seen => ?_⟩
  · have hvalues := (Exchange.sublist_of_mem_rowsOf hrow).trans List.filter_sublist
    exact Entries.toList_ofPairs_of_pairwise (hsorted.sublist hvalues)
  let s := ofCluster { c with script := some ⟨record.cues ++ cues, seen⟩ }
  obtain ⟨c', halone, hscript, hnetwork, htally⟩ := Cluster.alone_transcript (c := s.cluster) i
    (Exchange.computes_handOver t owner values) transport [] cues seen rfl
  exact ⟨_, push_alone (s := s) halone, hscript, hnetwork, htally⟩

end Schedule

end DeltaMesh
