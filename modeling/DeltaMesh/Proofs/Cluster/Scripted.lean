import DeltaMesh.Proofs.Cluster.Alone
import DeltaMesh.Proofs.Exchange.Batches

/-!
# Conversations with a script

A script answers with what was written down before, and can say whatever anyone would have said to
a conversation: with the replies of a transcript as its cues the conversation goes as in the
transcript (`Cluster.alone_transcript`). Nothing but the script and what the asking node counts
changes meanwhile.
-/

namespace DeltaMesh

variable {n : Nat} {α : Type}

namespace Transcript

/-- The cues that make a script answer as in the transcript. -/
def cues (record : Transcript α) : List Cue := record.asked.map fun q => .answer q.reply

/-- The requests in order, and to whom they went. -/
def requests (record : Transcript α) : List (Peer × Request) :=
  record.asked.map fun q => (q.peer, q.request)

/-- Every reply is what the transport has for the requests so far. -/
def Conforms (record : Transcript α) (transport : Transport) : Prop :=
  ∀ (k : Nat) (q : Inquiry), record.asked[k]? = some q →
    q.reply = transport (record.requests.take (k + 1))

end Transcript

namespace Exchange

/-- The replies in a transcript are those of its transport: each is what the transport answers after
the requests that were sent up to then. -/
theorem reply_transcript (x : Exchange α) (transport : Transport) (before : List (Peer × Request))
    (k : Nat) (q : Inquiry) (h : (x.transcript transport before).asked[k]? = some q) :
    q.reply = transport (before ++ (x.transcript transport before).requests.take (k + 1)) := by
  induction x generalizing before k with
  | done result => cases h
  | note what next ih => exact ih before k h
  | compute effort next ih => exact ih before k h
  | ask peer request next ih =>
    cases k with
    | zero =>
      obtain rfl := Option.some.inj h
      rfl
    | succ k =>
      refine (ih _ _ k h).trans (congrArg transport ?_)
      rw [List.append_assoc, List.singleton_append]
      rfl

theorem conforms_transcript (x : Exchange α) (transport : Transport) :
    (x.transcript transport []).Conforms transport :=
  fun k q h => x.reply_transcript transport [] k q h

/-! ### How often a conversation computes -/

section

variable (t : Terms) (peer : Peer) (key : Key) (value : ByteArray)

theorem computes_copying (m : Nat) : (copying t peer key value).Computes m := by
  rw [copying]
  split
  case isTrue => exact trivial
  case isFalse =>
    intro reply
    rcases reply with why | (_ | _ | _ | _) <;> exact trivial

theorem computes_diffing (m : Nat) (checksums : ByteArray) :
    (diffing t peer key value checksums).Computes (m + 1) := by
  rw [diffing, Computes]
  cases Wire.decodeSignature checksums with
  | error why => exact trivial
  | ok signature =>
    simp only [syncing]
    split
    case isTrue => exact trivial
    case isFalse =>
      intro reply
      rcases reply with why | (_ | _ | _ | _) <;> exact trivial

/-- To bring a value to a replica a node computes a delta at most, so it has to wait for itself at
most once. -/
theorem computes_reconcileValue : (reconcileValue t peer key value).run.Computes 1 := by
  rw [run_reconcileValue]
  intro reply
  rcases reply with why | (⟨(_ | _ | _), _, (_ | checksums)⟩ | _ | _ | _)
  case ok.info.nothing.none | ok.info.nothing.some => exact computes_copying t peer key value 1
  case ok.info.other.some => exact computes_diffing t peer key value 0 checksums
  all_goals exact trivial

theorem computes_ask_afterCopies (entries : Entries) (bytes : Nat)
    {goOn : Nat → Exchange (Except ReplicationError Nat)} (h : ∀ more, (goOn more).Computes 0) :
    (ask peer (.copy entries t.now) (afterCopies bytes goOn)).Computes 0 := by
  intro reply
  rcases reply with why | (_ | more | _ | _)
  case ok.copyAck => exact h more.toNat
  all_goals exact trivial

/-- A hand-over computes nothing, so it never has to wait for anything but answers. -/
theorem computes_handOver (values : List (Key × ByteArray)) :
    (handOver t peer values).run.Computes 0 := by
  suffices ∀ batch bytes stored, (handOverOnto t peer batch bytes stored values).run.Computes 0
    from this ∅ 0 0
  induction values with
  | nil =>
    intro batch bytes stored
    rw [run_handOverOnto_nil]
    split
    · exact trivial
    · exact computes_ask_afterCopies t peer _ _ fun _ => trivial
  | cons p values ih =>
    intro batch bytes stored
    rw [run_handOverOnto_cons]
    split
    · exact ih batch bytes stored
    · split
      · exact computes_ask_afterCopies t peer _ _ fun more => ih _ _ _
      · exact ih _ _ _

end

end Exchange

/-! ### The script in place of the network -/

namespace Cluster

variable {c : Cluster n}

theorem send_scripted {reply : Reply} {cues : List Cue} {seen : Array (Peer × Request)}
    (hscript : c.script = some ⟨.answer reply :: cues, seen⟩) (peer : Peer) (q : Request) :
    c.send peer q = (.back reply, { c with script := some ⟨cues, seen.push (peer, q)⟩ }) := by
  obtain ⟨network, reconcilers, meter, script, now, work⟩ := c
  subst hscript
  rfl

/-- With a script that answers like the transport a conversation goes as its transcript says. -/
theorem alone_transcript (i : Fin n) {x : Exchange α} {m : Nat} (hx : x.Computes m)
    (transport : Transport) (before : List (Peer × Request)) (cues : List Cue)
    (seen : Array (Peer × Request)) :
    let record := x.transcript transport before
    c.script = some ⟨record.cues ++ cues, seen⟩ →
      ∃ c', Alone i record.result c' m x c ∧
        c'.script = some ⟨cues, seen ++ record.requests⟩ ∧ c'.network = c.network ∧
          (c'.reconciler i).tally = (c.reconciler i).tally + record.sent := by
  intro record hscript
  induction x generalizing m before c seen with
  | done result =>
    refine ⟨c, .done m, hscript.trans ?_, rfl, (add_zero _).symm⟩
    simp [record, Transcript.cues, Transcript.requests, Exchange.transcript]
  | ask peer q next ih =>
    let answered : Cluster n :=
      { c with script := some ⟨((next (transport (before ++ [(peer, q)]))).transcript transport
          (before ++ [(peer, q)])).cues ++ cues, seen.push (peer, q)⟩ }
    obtain ⟨c', halone, hscript', hnetwork, htally⟩ :=
      ih _ (hx _) (before ++ [(peer, q)]) (seen.push (peer, q)) (c := answered) rfl
    refine ⟨c', .answered (send_scripted hscript peer q) halone, hscript'.trans ?_, hnetwork,
      htally⟩
    rw [← Array.appendList_cons]
    rfl
  | note what next ih =>
    obtain ⟨c', halone, hscript', hnetwork, htally⟩ := ih hx before seen (c := c.jot i what) hscript
    refine ⟨c', .note halone, hscript', hnetwork, htally.trans ?_⟩
    have hjot : ((c.jot i what).reconciler i).tally =
        (c.reconciler i).tally + SentTally.record 0 what := by
      rw [← SentTally.record_eq_add]
      exact congrArg Reconciler.tally (c.reconciler_set_self i _)
    rw [hjot, add_assoc]
    rfl
  | compute effort next ih =>
    cases m with
    | zero => exact hx.elim
    | succ m =>
      obtain ⟨c', halone, hscript', hnetwork, htally⟩ :=
        ih hx before seen (c := (c.beginWork effort).2.workedUntil _) hscript
      exact ⟨c', .compute rfl halone, hscript', hnetwork, htally⟩

end Cluster

end DeltaMesh
