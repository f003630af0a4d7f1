import DeltaMesh.Proofs.Cluster.Record
import DeltaMesh.Proofs.Reconciler.Report
import DeltaMesh.Proofs.Replica.Served

/-!
# The accounts of conversations

A replica answers a request in kind or with a failure (`Response.Suits`), and its frame does not
change that (`Response.suits_arrived`). As long as replies are like that the record of a
conversation balances once the conversation is over, whatever the replies are: a conversation that
brings values to a replica has one result for each value, and its failures are the results that are
errors (`Exchange.ends_reconcileReplica`); a hand-over counts as failures the values that it skips
for their size (`Exchange.ends_handOver`).
-/

namespace DeltaMesh

variable {n : Nat} {α β : Type}

/-! ### Replies -/

/-- Such a request may be replied to like this. -/
def Reply.Suits (kind : RequestKind) : Reply → Prop
  | .ok response => response.Suits kind
  | .error _ => True

namespace Response

theorem head?_frame (response : Response) :
    response.frame.data.toList.head? = some response.number.toUInt8 := by
  rw [frame_eq, ByteArray.data_append, Array.toList_append, List.head?_append]
  cases response <;> rfl

/-- A frame shows which sort of response it carries. -/
theorem number_of_ofFrame {response response' : Response}
    (h : Response.ofFrame response.frame = .ok response') : response'.number = response.number := by
  obtain ⟨_, ⟨rfl, -⟩, rest, hrest⟩ := (ofFrame_eq_ok reads_response _ _).mp h
  have hhead := congrArg List.head? hrest
  rw [List.head?_append, head?_frame, head?_frame] at hhead
  cases response <;> cases response' <;> first | rfl | cases hhead

/-- A response in kind is still in kind when it arrives: the variant number stands in front, and
whatever else becomes of the frame, the number is read as it was written. -/
theorem suits_arrived {kind : RequestKind} {response : Response} (h : response.Suits kind) :
    Reply.Suits kind response.arrived := by
  rw [arrived]
  cases hframe : Response.ofFrame response.frame with
  | error why => exact trivial
  | ok response' =>
    have hnumber := number_of_ofFrame hframe
    cases response <;> cases response' <;> first | exact h | exact trivial | cases hnumber

end Response

namespace Exchange

/-! ### How conversations end -/

/-- If every request is answered in kind, whatever the answers are, the conversation ends with `Q`
of what is recorded until then and of its result. -/
def Ends : Exchange α → (Record n → α → Prop) → Prop
  | done result, Q => Q [] result
  | note what next, Q => next.Ends fun record => Q (.noted what :: record)
  | compute _ next, Q => next.Ends Q
  | ask peer q next, Q =>
    (∀ j response, Reply.Suits q.kind response.arrived → (next response.arrived).Ends fun record =>
      Q (.asked peer q :: .answered j q.kind response :: record)) ∧
    ∀ why, (next (.error why)).Ends fun record => Q (.asked peer q :: .refused why :: record)

variable {Q : Record n → α → Prop} {x : Exchange α}

theorem Ends.imp {R : Record n → α → Prop} (h : x.Ends Q)
    (himp : ∀ record a, Q record a → R record a) : x.Ends R := by
  induction x generalizing Q R with
  | done result => exact himp _ _ h
  | note what next ih => exact ih h fun record => himp _
  | compute effort next ih => exact ih h himp
  | ask peer q next ih =>
    exact ⟨fun j response hsuits => ih _ (h.1 j response hsuits) fun record => himp _,
      fun why => ih _ (h.2 why) fun record => himp _⟩

/-- Conversations one after the other: what is recorded is put together. -/
theorem Ends.andThen {R : Record n → β → Prop} {f : α → Exchange β} (h : x.Ends Q)
    (hf : ∀ record a, Q record a → (f a).Ends fun more => R (record ++ more)) :
    (x.andThen f).Ends R := by
  induction x generalizing Q R with
  | done result => exact hf _ _ h
  | note what next ih => exact ih h fun record => hf _
  | compute effort next ih => exact ih h hf
  | ask peer q next ih =>
    exact ⟨fun j response hsuits => ih _ (h.1 j response hsuits) fun record => hf _,
      fun why => ih _ (h.2 why) fun record => hf _⟩

end Exchange

namespace Record

/-- A request was answered, and notes were taken of the answer. The hypotheses say that the notes
count the sort of answer that has come back once, and no failure. -/
theorem balances_answered (peer : Peer) (q : Request) (j : Fin n) {response : Response}
    {reply : Reply} (harrived : response.arrived = reply) (notes : List Note)
    (hinfos : (notes.map (SentTally.record 0)).sum.infos =
      (Reply.brings Response.isInfo reply).toNat)
    (hcopies : (notes.map (SentTally.record 0)).sum.copies =
      (Reply.brings Response.isCopyAck reply).toNat)
    (hsyncs : (notes.map (SentTally.record 0)).sum.syncs =
      (Reply.brings Response.isSyncAck reply).toNat)
    (hfailures : (notes.map (SentTally.record 0)).sum.failures = 0) :
    Balances 0 (.asked peer q :: .answered j q.kind response :: notes.map .noted) := by
  have hnone : ∀ p : Incident n → Bool, (∀ what, p (.noted what) = false) →
      List.countP p (notes.map .noted) = 0 := by
    intro p hp
    rw [List.countP_map, List.countP_eq_zero]
    exact fun what _ => ne_true_of_eq_false (hp what)
  have htally : tally (.asked peer q :: .answered j q.kind response ::
      notes.map (.noted : Note → Incident n)) = (notes.map (SentTally.record 0)).sum := by
    rw [tally_cons, tally_cons, Incident.tally, Incident.tally, zero_add, zero_add, tally,
      List.map_map]
    rfl
  have hcount : ∀ p : Response → Bool, List.countP (Incident.brings p) (.asked peer q ::
      .answered j q.kind response :: notes.map (.noted : Note → Incident n)) =
        (Reply.brings p reply).toNat := by
    intro p
    rw [List.countP_cons, List.countP_cons, hnone _ fun _ => rfl, Incident.brings, Incident.brings,
      harrived]
    cases Reply.brings p reply <;> rfl
  have hsettled : ∀ p : Incident n → Bool, (∀ what, p (.noted what) = false) →
      List.countP p (.asked peer q :: .answered j q.kind response :: notes.map .noted) =
        List.countP p [.asked peer q, .answered j q.kind response] := by
    intro p hp
    rw [List.countP_cons, List.countP_cons, hnone p hp, List.countP_cons, List.countP_cons,
      List.countP_nil]
  refine ⟨?_, by rw [htally, hinfos, hcount], by rw [htally, hcopies, hcount],
    by rw [htally, hsyncs, hcount], by rw [htally, hfailures]⟩
  rw [hsettled _ fun _ => rfl, hsettled _ fun _ => rfl, hsettled _ fun _ => rfl]
  rfl

end Record

namespace Exchange

open Record (Balances Skips balances_answered)

/-! ### Bringing values to a replica -/

section

variable (t : Terms) (peer : Peer) (key : Key) (value : ByteArray)

/-- Sending a value balances whatever the replica answers: the value is counted as copied just if
the answer is an acknowledgement. -/
theorem ends_copying :
    (copying t peer key value).Ends fun (record : Record n) _ => Balances 0 record := by
  rw [copying]
  split
  case isTrue => exact .nil
  case isFalse =>
    refine ⟨fun j response hsuits => ?_, fun why => ⟨rfl, rfl, rfl, rfl, rfl⟩⟩
    cases harrived : response.arrived with
    | error why => exact balances_answered _ _ j harrived [.requestFailed .copy] rfl rfl rfl rfl
    | ok reply =>
      rw [harrived] at hsuits
      cases reply with
      | copyAck stored => exact balances_answered _ _ j harrived [.copied _] rfl rfl rfl rfl
      | failed reason =>
        exact balances_answered _ _ j harrived [.requestFailed .copy] rfl rfl rfl rfl
      | info | syncAck => cases hsuits

/-- Sending a delta balances whatever the replica answers: the SYNC is counted once, and so is its
answer. -/
theorem ends_syncing (signature : Signature) : (syncing t peer key value signature).Ends
    fun (record : Record n) _ => Balances 0 record := by
  rw [syncing]
  split
  case isTrue => exact .nil
  case isFalse =>
    refine ⟨fun j response hsuits => ?_, fun why => ⟨rfl, rfl, rfl, rfl, rfl⟩⟩
    cases harrived : response.arrived with
    | error why => exact balances_answered _ _ j harrived [.requestFailed .sync] rfl rfl rfl rfl
    | ok reply =>
      rw [harrived] at hsuits
      cases reply with
      | syncAck ack => exact balances_answered _ _ j harrived [.synced ..] rfl rfl rfl rfl
      | failed reason =>
        exact balances_answered _ _ j harrived [.requestFailed .sync] rfl rfl rfl rfl
      | info | copyAck => cases hsuits

/-- Answering a signature balances, also if the checksums cannot be read or if the delta is too
large to be sent; then nothing is asked and nothing counted. -/
theorem ends_diffing (checksums : ByteArray) : (diffing t peer key value checksums).Ends
    fun (record : Record n) _ => Balances 0 record := by
  rw [diffing, Ends]
  cases Wire.decodeSignature checksums with
  | error why => exact .nil
  | ok signature => exact ends_syncing t peer key value signature

/-- The conversation about one value balances, whichever of the three ways it goes after INFO. -/
theorem ends_reconcileValue : (reconcileValue t peer key value).run.Ends
    fun (record : Record n) _ => Balances 0 record := by
  rw [run_reconcileValue]
  refine ⟨fun j response hsuits => ?_, fun why => ⟨rfl, rfl, rfl, rfl, rfl⟩⟩
  cases harrived : response.arrived with
  | error why => exact balances_answered _ _ j harrived [.requestFailed .info] rfl rfl rfl rfl
  | ok reply =>
    rw [harrived] at hsuits
    cases reply with
    | failed reason =>
      exact balances_answered _ _ j harrived [.requestFailed .info] rfl rfl rfl rfl
    | copyAck | syncAck => cases hsuits
    | info holding timestamp checksums =>
      have hanswer : Balances 0 (_ :: .answered j _ response :: [.noted (.infoAnswered holding)]) :=
        balances_answered peer (.info key (.ofContent value) t.now) j harrived
          [.infoAnswered holding] (by cases holding <;> rfl) (by cases holding <;> rfl)
          (by cases holding <;> rfl) (by cases holding <;> rfl)
      cases holding with
      | same => exact hanswer
      | nothing => exact (ends_copying t peer key value).imp fun record _ h => hanswer.append h
      | other =>
        cases checksums with
        | none => exact hanswer
        | some checksums =>
          exact (ends_diffing t peer key value checksums).imp fun record _ h => hanswer.append h

theorem covers_fits {t : Terms} (hlimit : t.limit < Wire.lengthBound) (key : Key)
    (value : ByteArray) : Covers Request.Fits t key value :=
  have hcovers := covers_suits (t := t) value rfl hlimit
  ⟨hcovers.info.1, fun hsize => (hcovers.copy hsize).1,
    fun signature hsize => (hcovers.sync signature hsize).1⟩

/-- Each value has a result, and the node has counted those that are failures. A failure does not
keep later values from being tried, so there are as many results as values. -/
theorem ends_reconcileReplica (values : List (Key × ByteArray)) :
    (reconcileReplica t peer values).Ends fun (record : Record n) results =>
      results.length = values.length ∧ Balances (results.countP ValueResult.failed) record := by
  have hnoted : ∀ result : ValueResult,
      Balances ([result].countP ValueResult.failed) ([.noted result.note] : Record n) := by
    rintro (why | outcome) <;> exact ⟨rfl, rfl, rfl, rfl, rfl⟩
  suffices ∀ earlier, (reconcileOnto t peer earlier values).Ends fun (record : Record n) results =>
      ∃ more, results = earlier.reverse ++ more ∧ more.length = values.length ∧
        Balances (more.countP ValueResult.failed) record by
    refine (this []).imp fun record results => ?_
    rintro ⟨more, rfl, hlength, hbalances⟩
    exact ⟨hlength, hbalances⟩
  induction values with
  | nil => exact fun earlier => ⟨[], (List.append_nil _).symm, rfl, .nil⟩
  | cons p values ih =>
    intro earlier
    rw [reconcileOnto]
    refine (ends_reconcileValue t peer p.1 p.2).andThen fun record result hvalue => ?_
    refine (ih (result :: earlier)).imp fun record' results => ?_
    rintro ⟨more, rfl, hlength, hmore⟩
    refine ⟨result :: more, ?_, congrArg Nat.succ hlength, ?_⟩
    · rw [List.reverse_cons, List.append_assoc, List.singleton_append]
    · have hall := hvalue.append ((hnoted result).append hmore)
      rwa [Nat.zero_add, ← List.countP_append] at hall

end

/-! ### Handing a location over -/

section

variable (t : Terms) (owner : Peer)

/-- A COPY is counted if it is acknowledged, and the conversation goes on from the number that was
stored. Any other answer, and any failure, is the end of the hand-over. -/
theorem ends_afterCopies {Q : Record n → Except ReplicationError α → Prop} (batch : Entries)
    {goOn : Nat → Exchange (Except ReplicationError α)}
    (hfail : ∀ record why, Balances 0 record → Q record (.error why))
    (hgoOn : ∀ record more, Balances 0 record →
      (goOn more).Ends fun record' => Q (record ++ record')) :
    (Exchange.ask owner (.copy batch t.now) (afterCopies batch.totalBytes goOn)).Ends Q := by
  refine ⟨fun j response hsuits => ?_, fun why => hfail _ _ ⟨rfl, rfl, rfl, rfl, rfl⟩⟩
  cases harrived : response.arrived with
  | error why =>
    exact hfail _ _ (balances_answered _ _ j harrived [.requestFailed .copy] rfl rfl rfl rfl)
  | ok reply =>
    rw [harrived] at hsuits
    cases reply with
    | copyAck stored =>
      exact hgoOn _ _ (balances_answered _ _ j harrived [.copied batch.totalBytes] rfl rfl rfl rfl)
    | failed reason =>
      exact hfail _ _ (balances_answered _ _ j harrived [.requestFailed .copy] rfl rfl rfl rfl)
    | info | syncAck => cases hsuits

/-- A hand-over goes through values from the first one on, all of them unless it fails, and leaves
out those that are too large; the node has counted these as failures, and no others. -/
def HandedOver (values : List (Key × ByteArray)) (record : Record n)
    (result : Except ReplicationError Nat) : Prop :=
  ∃ passed, passed <+: values ∧ Skips (passed.countP fun p => t.limit < p.2.size) record ∧
    (result.isOk → passed = values)

/-- A hand-over ends with its first failure, or when all batches are stored. The induction is on the
values: those that were passed make up a beginning of the list, and the skipped ones among them are
the failures counted. -/
theorem ends_handOver (values : List (Key × ByteArray)) :
    (handOver t owner values).run.Ends (n := n) (HandedOver t values) := by
  have hdone : Skips 0 ([.noted .handedOver] : Record n) := ⟨⟨rfl, rfl, rfl, rfl, rfl⟩, rfl⟩
  have hskipped : Skips 1 ([.noted .valueSkipped] : Record n) := ⟨⟨rfl, rfl, rfl, rfl, rfl⟩, rfl⟩
  suffices ∀ (batch : Entries) (bytes stored : Nat),
      (handOverOnto t owner batch bytes stored values).run.Ends (n := n) (HandedOver t values) from
    this ∅ 0 0
  have hfail : ∀ (rest : List (Key × ByteArray)) (record : Record n) (why : ReplicationError),
      Balances 0 record → HandedOver t rest record (.error why) :=
    fun rest record why h => ⟨[], List.nil_prefix, h.skips, nofun⟩
  induction values with
  | nil =>
    intro batch bytes stored
    rw [run_handOverOnto_nil]
    split
    case isTrue => exact ⟨[], List.prefix_rfl, hdone, fun _ => rfl⟩
    case isFalse =>
      refine ends_afterCopies t owner batch (hfail []) fun record more h => ?_
      exact ⟨[], List.prefix_rfl, h.skips.append hdone, fun _ => rfl⟩
  | cons p rest ih =>
    intro batch bytes stored
    have hpassed : ∀ (before after : Record n) (result : Except ReplicationError Nat),
        Skips ([p].countP fun p => t.limit < p.2.size) before → HandedOver t rest after result →
          HandedOver t (p :: rest) (before ++ after) result := by
      rintro before after result hbefore ⟨passed, hprefix, hafter, hall⟩
      refine ⟨p :: passed, List.cons_prefix_cons.mpr ⟨rfl, hprefix⟩, ?_, fun hok => ?_⟩
      · have hboth := hbefore.append hafter
        rwa [← List.countP_append] at hboth
      · rw [hall hok]
    rw [run_handOverOnto_cons]
    split
    case isTrue hlarge =>
      refine (ih batch bytes stored).imp fun record result h =>
        hpassed [.noted .valueSkipped] record result ?_ h
      rw [List.countP_singleton, if_pos (decide_eq_true hlarge)]
      exact hskipped
    case isFalse hsmall =>
      have hcount : [p].countP (fun p => t.limit < p.2.size) = 0 := by
        rw [List.countP_singleton, if_neg (fun h => hsmall (of_decide_eq_true h))]
      split
      case isTrue =>
        refine ends_afterCopies t owner batch (hfail _) fun record more h => ?_
        exact (ih _ _ _).imp fun record' result => hpassed _ _ _ (hcount ▸ h.skips)
      case isFalse =>
        exact (ih _ _ _).imp fun record result => hpassed [] _ _ (hcount ▸ Balances.nil.skips)

end

end Exchange

end DeltaMesh
