import DeltaMesh.Proofs.Replica.Lone
import DeltaMesh.Proofs.Replica.Traceless
import DeltaMesh.Proofs.Wire.Payload

/-!
# Repeated SYNCs

After a SYNC was answered with success the value that it announced is in place (`holds_of_acked`),
and it stays there as long as no request overwrites it (`Holds.serve`). While it is there a SYNC
that announces it again is answered at once, without a look at its delta (`Holds.serve_repeat`). So
repeats of a SYNC may be put in or left out anywhere in a row of requests without any difference to
the others.

Main statement: `Replica.syncs_repeated_unnoticed`.
-/

namespace DeltaMesh

namespace Request

/-- A SYNC that announces this value for the key, with whatever delta and at whatever time. -/
def Repeats (key : Key) (hash : Id) : Request → Prop
  | .sync k h _ _ => k = key ∧ h = hash
  | .info .. | .copy .. => False

/-- What may put another value in the place of this one: a COPY of values that one for the key is
among, and a SYNC that is applied and has announced another one. -/
def Overwrites (key : Key) (hash : Id) : Request → Response → Prop
  | .info .., _ => False
  | .copy entries _, _ => key ∈ entries
  | .sync k h _ _, response => k = key ∧ h ≠ hash ∧ response = .syncAck .applied

end Request

namespace Replica

/-- A value with this content hash is held under the key. -/
def Holds (r : Replica) (key : Key) (hash : Id) : Prop :=
  (r.store.get? key).map Id.ofContent = some hash

variable {r r' : Replica} {task : Nat} {key : Key} {hash : Id}

theorem Holds.congr (h : r.Holds key hash) (heq : r'.store.get? key = r.store.get? key) :
    r'.Holds key hash := by
  rw [Holds, heq]
  exact h

/-- A SYNC about another key, or one that fails, leaves the value under the key as it is. -/
theorem get?_of_writes {k : Key} {P : ByteArray → Prop} {done response : Response}
    (h : r.Writes r' k P done response) (hapart : response = done → k ≠ key) :
    r'.store.get? key = r.store.get? key := by
  cases h with
  | stored hvalue hheld => rw [hheld, Function.update_of_ne (hapart rfl).symm]
  | failed reason hheld => rw [hheld]

/-- A COPY without the key leaves the value under it as it is, also if it fails in the middle. -/
theorem get?_of_overwritten {row : List (Key × ByteArray)} (h : r.Overwritten row r')
    (hapart : ∀ p ∈ row, p.1 ≠ key) : r'.store.get? key = r.store.get? key := by
  rw [Store.get?, h.entries]
  refine Std.ExtTreeMap.getElem?_insertMany_list_of_contains_eq_false ?_
  rw [List.contains_eq_mem, decide_eq_false_iff_not, List.mem_map]
  rintro ⟨p, hp, rfl⟩
  exact hapart p hp rfl

/-- The value stays in place unless it is overwritten. Of the three kinds of requests INFO writes
nothing, COPY overwrites its keys, and SYNC the one for which it was applied. -/
theorem Holds.serve (h : r.Holds key hash) (task : Nat) {q : Request}
    (hkept : ¬q.Overwrites key hash (r.serve task q).1) :
    (r.serve task q).2.Holds key hash := by
  cases q with
  | info k h' timestamp => exact h
  | copy entries timestamp =>
    have hapart : ∀ p ∈ entries.toList, p.1 ≠ key := fun p hp heq =>
      hkept (heq ▸ Entries.mem_of_mem_toList hp)
    have houtcome := r.copyOutcome_serve task entries timestamp
    generalize r.serve task (.copy entries timestamp) = ended at houtcome ⊢
    obtain ⟨response, r'⟩ := ended
    cases houtcome with
    | complete _ hstored _ => exact h.congr (get?_of_overwritten hstored hapart)
    | failed hentries _ _ hstored _ =>
      refine h.congr (get?_of_overwritten hstored fun p hp => hapart p ?_)
      exact hentries ▸ List.mem_append_left _ hp
  | sync k h' timestamp delta =>
    by_cases hfound : r.Holds k h'
    · rw [Holds, store_serve_sync r task hfound]
      exact h
    · refine h.congr (get?_of_writes (r.writes_sync task hfound timestamp delta) ?_)
      -- a SYNC that is applied to the key announces what is in place already
      rintro happlied rfl
      refine hkept ⟨rfl, ?_, happlied⟩
      rintro rfl
      exact hfound h

/-- After a SYNC that was answered with success its value is in place. -/
theorem holds_of_acked {timestamp : Int64} {delta : ByteArray} {ack : SyncAck}
    (hack : (r.serve task (.sync key hash timestamp delta)).1 = .syncAck ack) :
    (r.serve task (.sync key hash timestamp delta)).2.Holds key hash := by
  by_cases hfound : r.Holds key hash
  · rw [Holds, store_serve_sync r task hfound]
    exact hfound
  · have hwrites := r.writes_sync task hfound timestamp delta
    dsimp only at hwrites
    rw [hack] at hwrites
    cases hwrites with
    | stored hvalue hheld =>
      rw [Holds, hheld, Function.update_self, Option.map_some, hvalue.2]

/-- A SYNC that finds its value in place is answered at once, and changes locks and counts only. -/
theorem Holds.serve_repeat (h : r.Holds key hash) (task : Nat) {q : Request}
    (hq : q.Repeats key hash) :
    ∃ locks served, r.serve task q = (.syncAck .unchanged, { r with locks, served }) := by
  cases q with
  | sync k h' timestamp delta =>
    obtain ⟨rfl, rfl⟩ := hq
    rw [serve_sync_eq, syncVerdict_of_found k h]
    exact ⟨_, _, rfl⟩
  | info | copy => cases hq

/-- A SYNC is applied if its delta makes the value that it announces, which can be written. Then it
is this value that is held. -/
theorem serve_sync_applied {timestamp : Int64} {delta value : ByteArray}
    (hother : ¬r.Holds key hash) (hvalue : Rebuilds (r.store.get? key) delta r.blockSize value)
    (hhash : Id.ofContent value = hash)
    (hwrite : r.store.fault r.store.tried key value = none) :
    ∃ r', r.serve task (.sync key hash timestamp delta) = (.syncAck .applied, r') ∧
      r'.store.get? key = some value := by
  rw [serve_sync_eq, syncVerdict_of_rebuilds hother hvalue hhash, settleSync,
    putLocal_of_no_fault r key hwrite]
  exact ⟨_, rfl, Std.ExtTreeMap.getElem?_insert_self⟩

/-- A SYNC of which no delta can be read is not applied. It may still be answered with success, if
the value that it announces is in place. -/
theorem serve_sync_unreadable {timestamp : Int64} {delta : ByteArray} {why : Wire.CodecError}
    (hdelta : Wire.decodeDelta delta = .error why) :
    (r.serve task (.sync key hash timestamp delta)).1 ≠ .syncAck .applied := by
  intro happlied
  by_cases hfound : r.Holds key hash
  · obtain ⟨locks, served, hserve⟩ := hfound.serve_repeat task
      (q := .sync key hash timestamp delta) ⟨rfl, rfl⟩
    rw [hserve] at happlied
    cases happlied
  · have hwrites := r.writes_sync task hfound timestamp delta
    dsimp only at hwrites
    rw [happlied] at hwrites
    cases hwrites with
    | stored hvalue hheld =>
      obtain ⟨⟨d, hdecode, -⟩, -⟩ := hvalue
      cases hdelta.symm.trans hdecode

/-- Both replicas hold the value, and they differ in locks and counts only. -/
def BothHold (key : Key) (hash : Id) (r r' : Replica) : Prop :=
  r.Holds key hash ∧ ∃ locks served, r' = { r with locks, served }

theorem conceals_repeats (key : Key) (hash : Id) :
    Conceals (Request.Repeats key hash) (fun q response => ¬q.Overwrites key hash response)
      (BothHold key hash) where
  symm := by
    rintro r _ ⟨hheld, locks, served, rfl⟩
    exact ⟨hheld, r.locks, r.served, rfl⟩
  served := by
    rintro r _ task q ⟨hheld, locks, served, rfl⟩ hkept
    obtain ⟨locks', hserve, -⟩ := r.serve_aside locks served task q
    rw [hserve]
    exact ⟨rfl, hheld.serve task hkept, locks', _, rfl⟩
  silent := by
    rintro r _ task q ⟨hheld, locks, served, rfl⟩ hq
    have hheld' : { r with locks, served }.Holds key hash := hheld
    obtain ⟨locks', served', hserve⟩ := hheld'.serve_repeat task hq
    rw [hserve]
    exact ⟨hheld, locks', served', rfl⟩

/-- A SYNC was answered with success. Of two rows of requests that come in later nothing in the one
overwrites the value, and the other one differs from it in repeats of the SYNC only, which may have
been put in and left out anywhere. All other requests get the same answers, and the same values and
responsibilities are found in the end. Every repeat, wherever it comes in, is answered by saying
that the value is in place, and changes none of them. -/
theorem syncs_repeated_unnoticed {r later : Replica} {task : Nat} {key : Key} {hash : Id}
    {timestamp : Int64} {delta : ByteArray} {ack : SyncAck}
    (hack : r.serve task (.sync key hash timestamp delta) = (.syncAck ack, later))
    {keep : Nat × Request → Bool} {qs qs' : List (Nat × Request)}
    (hkept : ∀ e ∈ later.exchanges qs, ¬e.1.2.Overwrites key hash e.2)
    (hkeep : ∀ q ∈ qs ++ qs', keep q = false → q.2.Repeats key hash)
    (hsame : qs'.filter keep = qs.filter keep) :
    (later.exchanges qs').filter (fun e => keep e.1) =
        (later.exchanges qs).filter (fun e => keep e.1) ∧
      (later.serveAll qs').2.store = (later.serveAll qs).2.store ∧
      (later.serveAll qs').2.tracker = (later.serveAll qs).2.tracker ∧
      ∀ (front back : List (Nat × Request)) (q : Nat × Request), q.2.Repeats key hash →
        qs' = front ++ q :: back →
        (later.exchanges qs')[front.length]? = some (q, .syncAck .unchanged) ∧
          (later.serveAll (front ++ [q])).2.store = (later.serveAll front).2.store ∧
          (later.serveAll (front ++ [q])).2.tracker = (later.serveAll front).2.tracker := by
  have hheld : later.Holds key hash := by
    have hholds := holds_of_acked (congrArg Prod.fst hack)
    rwa [hack] at hholds
  have hstart : BothHold key hash later later := ⟨hheld, later.locks, later.served, rfl⟩
  obtain ⟨hqs, hqs'⟩ := List.forall_mem_append.mp hkeep
  have hconceals := conceals_repeats key hash
  obtain ⟨hexchanges, -, locks, served, hend⟩ :=
    hconceals.exchanges_eq hstart hqs hqs' hsame hkept
  refine ⟨hexchanges, ?_, ?_, ?_⟩
  · rw [hend]
  · rw [hend]
  · rintro front back q hq rfl
    obtain ⟨_, -, hreached⟩ := hconceals.exists_related hstart hqs hqs' hsame hkept
    obtain ⟨hthere, -⟩ := hconceals.symm hreached
    obtain ⟨locks, served, hserve⟩ := hthere.serve_repeat q.1 hq
    rw [getElem?_exchanges, serveAll_append, serveAll_cons, hserve]
    exact ⟨rfl, rfl, rfl⟩

/-- A SYNC is applied. It comes in again before and after a COPY of another value and a SYNC of
which no delta can be read, once with a delta that could not be read either. -/
theorem syncs_repeated_unnoticed_between :
    let key := Key.firstUnder .zero
    let value : ByteArray := ⟨#[1, 2, 3]⟩
    let r := ofStore (.alone default) .empty 32
    let sync : Request := .sync key (.ofContent value) 0 (Wire.encodeDelta [.literal value])
    let copy : Nat × Request := (1, .copy (.ofPairs [(.firstUnder .max, .empty)]) 0)
    let failing : Nat × Request := (2, .sync key .zero 0 .empty)
    let again : Nat × Request := (3, .sync key (.ofContent value) 5 .empty)
    let qs := [copy, failing]
    let qs' := [again, copy, failing, (4, sync)]
    let keep (q : Nat × Request) : Bool := q.1 < 3
    ∃ later, r.serve 0 sync = (.syncAck .applied, later) ∧
      (∀ e ∈ later.exchanges qs, ¬e.1.2.Overwrites key (.ofContent value) e.2) ∧
      (∀ q ∈ qs ++ qs', keep q = false → q.2.Repeats key (.ofContent value)) ∧
      qs'.filter keep = qs.filter keep ∧
      (later.exchanges qs').filter (fun e => keep e.1) =
        (later.exchanges qs).filter (fun e => keep e.1) ∧
      (later.exchanges qs')[3]? = some ((4, sync), .syncAck .unchanged) := by
  intro key value r sync copy failing again qs qs' keep
  have hvalue : Rebuilds (r.store.get? key) (Wire.encodeDelta [.literal value]) 32 value :=
    ⟨_, (Wire.carried_delta [.literal value] (by decide +kernel)).ok (by decide +kernel), rfl⟩
  have hother : ¬r.Holds key (.ofContent value) := by
    rw [Holds, show r.store.get? key = none from rfl]
    exact nofun
  obtain ⟨later, hack, -⟩ : ∃ later, r.serve 0 sync = (.syncAck .applied, later) ∧ _ :=
    serve_sync_applied hother hvalue rfl rfl
  have hkept : ∀ e ∈ later.exchanges qs, ¬e.1.2.Overwrites key (.ofContent value) e.2 := by
    have hcopy : key ∉ Entries.ofPairs [(.firstUnder .max, .empty)] := by decide
    have hdelta : Wire.decodeDelta .empty = .error .emptyPayload := rfl
    intro e he
    simp only [qs, exchanges_cons, exchanges_nil, List.mem_cons, List.not_mem_nil, or_false] at he
    obtain rfl | rfl := he
    · exact hcopy
    · exact fun hover => serve_sync_unreadable hdelta hover.2.2
  have hkeep : ∀ q ∈ qs ++ qs', keep q = false → q.2.Repeats key (.ofContent value) := by
    simp [qs, qs', copy, failing, again, keep, sync, Request.Repeats]
  have hsame : qs'.filter keep = qs.filter keep := rfl
  obtain ⟨hexchanges, -, -, hrepeats⟩ := syncs_repeated_unnoticed hack hkept hkeep hsame
  obtain ⟨hanswer, -, -⟩ := hrepeats [again, copy, failing] [] (4, sync) ⟨rfl, rfl⟩ rfl
  exact ⟨later, hack, hkept, hkeep, hsame, hexchanges, hanswer⟩

end Replica

end DeltaMesh
