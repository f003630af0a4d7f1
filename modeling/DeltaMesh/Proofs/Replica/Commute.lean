import DeltaMesh.Proofs.Replica.Effect

/-!
# Requests on different keys

A replica that serves requests one after the other (`Replica.serveAll`) may serve two of them that
share no key in either order (`Replica.Serves.swap`). So only the order of requests that share a key
matters for what is answered to each and for what is found at the replica in the end
(`Replica.serveAll_reordered`).
-/

namespace DeltaMesh

/-- Some key concerns both requests. -/
def Request.SharesKey (a b : Request) : Prop := ∃ k, a.Concerns k ∧ b.Concerns k

/-- Neighbours that share no key have changed places any number of times. -/
inductive Rearranged : List (Nat × Request) → List (Nat × Request) → Prop
  | nil : Rearranged [] []
  | cons (q : Nat × Request) {qs qs' : List (Nat × Request)} (h : Rearranged qs qs') :
    Rearranged (q :: qs) (q :: qs')
  | swap (qs : List (Nat × Request)) {a b : Nat × Request} (h : ¬a.2.SharesKey b.2) :
    Rearranged (a :: b :: qs) (b :: a :: qs)
  | trans {qs qs' qs'' : List (Nat × Request)} (h : Rearranged qs qs')
    (h' : Rearranged qs' qs'') : Rearranged qs qs''

namespace Rearranged

variable {qs qs' : List (Nat × Request)}

theorem refl (qs : List (Nat × Request)) : Rearranged qs qs := by
  induction qs with
  | nil => exact .nil
  | cons q qs ih => exact .cons q ih

theorem perm (h : Rearranged qs qs') : qs'.Perm qs := by
  induction h with
  | nil => exact .nil
  | cons q _ ih => exact ih.cons q
  | swap qs _ => exact .swap _ _ qs
  | trans _ _ ih ih' => exact ih'.trans ih

/-- A request moves behind others that it shares no key with, one exchange after the other. -/
theorem behind {q : Nat × Request} {front : List (Nat × Request)}
    (h : ∀ p ∈ front, ¬q.2.SharesKey p.2) (back : List (Nat × Request)) :
    Rearranged (q :: front ++ back) (front ++ q :: back) := by
  induction front with
  | nil => exact .refl _
  | cons p front ih =>
    obtain ⟨hp, hfront⟩ := List.forall_mem_cons.mp h
    exact (swap (front ++ back) hp).trans (.cons p (ih hfront))

/-- What comes behind an entry of a row without repetitions is not in front of it. -/
theorem not_mem_front {p q : Nat × Request} {front back : List (Nat × Request)}
    (hnodup : (front ++ q :: back).Nodup) (h : [q, p].Sublist (front ++ q :: back)) :
    p ∉ front := by
  obtain ⟨-, -, hdisjoint⟩ := List.nodup_append.mp hnodup
  obtain ⟨left, right, heq, hleft, hright⟩ := List.sublist_append_iff.mp h
  intro hp
  cases left with
  | nil =>
    obtain rfl : right = [q, p] := heq.symm
    have hback := List.singleton_sublist.mp (List.cons_sublist_cons.mp hright)
    exact hdisjoint p hp p (List.mem_cons_of_mem q hback) rfl
  | cons first left =>
    obtain rfl : q = first := (List.cons.inj heq).1
    exact hdisjoint q (hleft.subset List.mem_cons_self) q List.mem_cons_self rfl

/-- An order that differs in the places of requests that share no key only can be reached by
exchanging neighbours. -/
theorem of_perm (hnumbers : (qs.map Prod.fst).Nodup) (hperm : qs'.Perm qs)
    (horder : ∀ a b : Nat × Request, a.2.SharesKey b.2 → [a, b].Sublist qs →
      [a, b].Sublist qs') : Rearranged qs qs' := by
  induction qs generalizing qs' with
  | nil => exact hperm.eq_nil ▸ .nil
  | cons q qs ih =>
    obtain ⟨front, back, rfl⟩ := List.append_of_mem (hperm.mem_iff.mpr List.mem_cons_self)
    have hnodup : (front ++ q :: back).Nodup := hperm.nodup_iff.mpr (.of_map _ hnumbers)
    have hrest : (front ++ back).Perm qs := (List.perm_middle.symm.trans hperm).cons_inv
    obtain ⟨hnew, hnumbers⟩ := List.nodup_cons.mp hnumbers
    have hother : ∀ p ∈ qs, p.1 ≠ q.1 := fun p hp heq =>
      hnew (List.mem_map.mpr ⟨p, hp, heq⟩)
    have hfront : ∀ p ∈ front, ¬q.2.SharesKey p.2 := fun p hp hshare => by
      have hmem : p ∈ qs := hrest.mem_iff.mp (List.mem_append_left back hp)
      have hpair : [q, p].Sublist (q :: qs) := (List.singleton_sublist.mpr hmem).cons_cons q
      exact not_mem_front hnodup (horder q p hshare hpair) hp
    refine (cons q (ih hnumbers hrest fun a b hshare hpair => ?_)).trans (behind hfront back)
    -- the pair is still in order once `q` is left out
    have hkept := (horder a b hshare (hpair.cons q)).filter fun p => p.1 ≠ q.1
    have hpairs := List.filter_eq_self.mpr fun p (hp : p ∈ [a, b]) =>
      decide_eq_true (hother p (hpair.subset hp))
    have hrows := List.filter_eq_self.mpr fun p (hp : p ∈ front ++ back) =>
      decide_eq_true (hother p (hrest.mem_iff.mp hp))
    rw [hpairs, List.filter_append, List.filter_cons_of_neg (by simp), ← List.filter_append,
      hrows] at hkept
    exact hkept

end Rearranged

/-- The order of two answers does not matter for what is counted. -/
theorem ServedTally.count_comm (t : ServedTally) (x y : Response) :
    (t.count x).count y = (t.count y).count x := by
  rcases x with _ | _ | (_ | _) | _ <;> rcases y with _ | _ | (_ | _) | _ <;> rfl

namespace Replica

/-- Serves requests one after the other, each as a task of its own, under whose number its answer
is listed. -/
def serveAll (r : Replica) : List (Nat × Request) → List (Nat × Response) × Replica
  | [] => ([], r)
  | (task, q) :: rest =>
    let (response, r) := r.serve task q
    let (responses, r) := r.serveAll rest
    ((task, response) :: responses, r)

/-- The same is found at both replicas, and they serve requests alike. -/
structure Alike (r r' : Replica) : Prop where
  directory : r'.directory = r.directory
  blockSize : r'.blockSize = r.blockSize
  entries : r'.store.entries = r.store.entries
  owned : r'.tracker.owned = r.tracker.owned
  table : r'.locks.table = r.locks.table
  claims : r'.locks.claims = r.locks.claims
  served : r'.served = r.served

/-- Writes never fail, and no one refers to the locks of the keys `K`. All tasks so far are numbered
below `bound`. -/
structure Clear (K : Key → Prop) (bound : Nat) (r : Replica) : Prop where
  faultless : ∀ tried key value, r.store.fault tried key value = none
  sound : r.locks.Sound bound
  free : ∀ k, K k → r.locks.on k = []

variable {r r' s s' t t' : Replica} {q a b : Request}

namespace Serves

/-- The locks that someone refers to stay in the table. -/
theorem pruned (h : r.Serves q s) : s.locks.prune.table = r.locks.prune.table := by
  have htable := h.table
  split at htable
  · rw [KeyLocks.prune, KeyLocks.prune, h.claims, htable]
  · rw [← congrArg KeyLocks.table r.locks.prune_prune, KeyLocks.prune, KeyLocks.prune, h.claims,
      htable]
    rfl

/-- The values under the keys of another request are as they were. -/
theorem held_of_apart (h : r.Serves a s) (hapart : ¬a.SharesKey b) :
    ∀ k, b.Concerns k → s.store.get? k = r.store.get? k := fun k hk => by
  rw [h.held, Request.leaves_eq_none fun hconcerns => hapart ⟨k, hconcerns, hk⟩, Option.none_or]

theorem clear {K : Key → Prop} {bound : Nat} (h : r.Serves q s) (hr : r.Clear K bound) :
    s.Clear K bound where
  faultless := h.fault ▸ hr.faultless
  sound := h.sound bound hr.sound
  free k hk := by rw [KeyLocks.on, h.claims, ← KeyLocks.on, hr.free k hk]

/-- What a request does after another one that it shares no key with is what it does without it. -/
theorem after_apart (h : s.Serves b t) (ha : r.Serves a s) (hapart : ¬a.SharesKey b) :
    Stored (b.leaves r.blockSize r.store.get?) s t ∧
      t.served = s.served.count (b.answer r.blockSize r.store.get?) := by
  have hstored := h.toStored
  have hserved := h.served
  rw [ha.blockSize, Request.leaves_congr (ha.held_of_apart hapart)] at hstored
  rw [ha.blockSize, Request.answer_congr (ha.held_of_apart hapart)] at hserved
  exact ⟨hstored, hserved⟩

/-- Two requests that share no key may be served in either order. They may share a location; but the
tracker is told the same about it in either order, as the owner does not change. -/
theorem swap (hapart : ¬a.SharesKey b) (ha : r.Serves a s) (hb : s.Serves b t)
    (hb' : r.Serves b s') (ha' : s'.Serves a t') : t.Alike t' := by
  obtain ⟨hstored, hserved⟩ := hb.after_apart ha hapart
  obtain ⟨hstored', hserved'⟩ :=
    ha'.after_apart hb' fun ⟨k, hbk, hak⟩ => hapart ⟨k, hak, hbk⟩
  refine ⟨?_, ?_, Std.ExtTreeMap.ext_getElem? fun k => ?_,
    Std.ExtTreeSet.ext_mem fun location => ?_, ?_, ?_, ?_⟩
  · rw [ha'.directory, hb'.directory, hb.directory, ha.directory]
  · rw [ha'.blockSize, hb'.blockSize, hb.blockSize, ha.blockSize]
  · refine (hstored'.held k).trans (Eq.trans ?_ (hstored.held k).symm)
    rw [hb'.held, ha.held]
    -- at most one of the requests stores a value here
    by_cases hk : a.Concerns k
    · rw [Request.leaves_eq_none (q := b) fun hbk => hapart ⟨k, hk, hbk⟩]
      simp only [Option.none_or]
    · rw [Request.leaves_eq_none (q := a) hk]
      simp only [Option.none_or]
  · rw [hstored'.mem_owned, hb'.mem_owned, hstored.mem_owned, ha.mem_owned, ha.directory,
      hb'.directory]
    by_cases hlookedA : Touches (a.leaves r.blockSize r.store.get?) location <;>
      by_cases hlookedB : Touches (b.leaves r.blockSize r.store.get?) location <;>
      simp [hlookedA, hlookedB]
  · have htable := hb.table
    have htable' := ha'.table
    rw [ha.pruned, ha.table] at htable
    rw [hb'.pruned, hb'.table] at htable'
    rw [htable, htable']
    by_cases hka : a.kind = .info <;> by_cases hkb : b.kind = .info <;>
      simp only [hka, hkb, if_true, if_false]
  · rw [ha'.claims, hb'.claims, hb.claims, ha.claims]
  · rw [hserved', hb'.served, hserved, ha.served, ServedTally.count_comm]

end Serves

namespace Alike

theorem refl (r : Replica) : Alike r r := ⟨rfl, rfl, rfl, rfl, rfl, rfl, rfl⟩

theorem trans (h : Alike r r') (h' : Alike r' t) : Alike r t where
  directory := h'.directory.trans h.directory
  blockSize := h'.blockSize.trans h.blockSize
  entries := h'.entries.trans h.entries
  owned := h'.owned.trans h.owned
  table := h'.table.trans h.table
  claims := h'.claims.trans h.claims
  served := h'.served.trans h.served

theorem get? (h : Alike r r') : r'.store.get? = r.store.get? := by
  funext k
  rw [Store.get?, Store.get?, h.entries]

/-- Replicas that are alike stay so when they serve the same request, and answer it alike. -/
theorem serves (h : Alike r r') (hs : r.Serves q s) (hs' : r'.Serves q s') : s.Alike s' := by
  obtain ⟨hstored', hserved', hclaims', htable', -⟩ := hs'
  rw [h.blockSize, h.get?] at hstored' hserved'
  have hpruned : r'.locks.prune.table = r.locks.prune.table := by
    rw [KeyLocks.prune, KeyLocks.prune, h.claims, h.table]
  refine ⟨?_, ?_, Std.ExtTreeMap.ext_getElem? fun k => ?_,
    Std.ExtTreeSet.ext_mem fun location => ?_, ?_, ?_, ?_⟩
  · rw [hstored'.directory, h.directory, hs.directory]
  · rw [hstored'.blockSize, h.blockSize, hs.blockSize]
  · refine (hstored'.held k).trans (Eq.trans ?_ (hs.held k).symm)
    rw [h.get?]
  · rw [hstored'.mem_owned, hs.mem_owned, h.directory, h.owned]
  · rw [htable', hs.table, h.table, hpruned]
  · rw [hclaims', h.claims, hs.claims]
  · rw [hserved', h.served, hs.served]

end Alike

/-! ### Rows of requests -/

variable {K : Key → Prop} {bound : Nat} {qs qs' : List (Nat × Request)}

/-- The tasks of the requests are new, and need no locks but those of the keys `K`. -/
def Admits (K : Key → Prop) (bound : Nat) (qs : List (Nat × Request)) : Prop :=
  ∀ q ∈ qs, bound ≤ q.1 ∧ ∀ k ∈ keysOf q.2, K k

theorem Clear.serve (h : r.Clear K bound) {task : Nat} (htask : bound ≤ task)
    (hkeys : ∀ k ∈ keysOf q, K k) :
    (r.serve task q).1 = q.answer r.blockSize r.store.get? ∧ r.Serves q (r.serve task q).2 :=
  serve_serves q (h.sound.mono htask) h.faultless fun k hk => h.free k (hkeys k hk)

theorem serveAll_cons (r : Replica) (q : Nat × Request) (qs : List (Nat × Request)) :
    r.serveAll (q :: qs) = ((q.1, (r.serve q.1 q.2).1) :: ((r.serve q.1 q.2).2.serveAll qs).1,
      ((r.serve q.1 q.2).2.serveAll qs).2) := rfl

/-- Replicas that are alike give the same answers to a row of requests, and are alike at the end of
it. -/
theorem serveAll_of_alike (hqs : Admits K bound qs) (hr : r.Clear K bound)
    (hr' : r'.Clear K bound) (h : r.Alike r') : (r'.serveAll qs).1 = (r.serveAll qs).1 ∧
      (r.serveAll qs).2.Alike (r'.serveAll qs).2 := by
  induction qs generalizing r r' with
  | nil => exact ⟨rfl, h⟩
  | cons q qs ih =>
    obtain ⟨⟨htask, hkeys⟩, hrest⟩ := List.forall_mem_cons.mp hqs
    obtain ⟨hanswer, hserves⟩ := hr.serve htask hkeys
    obtain ⟨hanswer', hserves'⟩ := hr'.serve htask hkeys
    obtain ⟨hresponses, hend⟩ := ih hrest (hserves.clear hr) (hserves'.clear hr')
      (h.serves hserves hserves')
    refine ⟨?_, hend⟩
    rw [serveAll_cons, serveAll_cons, hanswer, hanswer', h.blockSize, h.get?, hresponses]

/-- A row of requests that was rearranged gets the same answers and ends alike. By induction on the
exchanges, with `swap` for two neighbours. -/
theorem serveAll_of_rearranged (h : Rearranged qs qs') (hqs : Admits K bound qs)
    (hr : r.Clear K bound) : (r.serveAll qs').1.Perm (r.serveAll qs).1 ∧
      (r.serveAll qs).2.Alike (r.serveAll qs').2 := by
  induction h generalizing r with
  | nil => exact ⟨.nil, .refl r⟩
  | cons q h ih =>
    obtain ⟨⟨htask, hkeys⟩, hrest⟩ := List.forall_mem_cons.mp hqs
    obtain ⟨hperm, hend⟩ := ih hrest ((hr.serve htask hkeys).2.clear hr)
    exact ⟨hperm.cons _, hend⟩
  | @swap qs a b hapart =>
    obtain ⟨⟨htaskA, hkeysA⟩, hrest⟩ := List.forall_mem_cons.mp hqs
    obtain ⟨⟨htaskB, hkeysB⟩, hrest⟩ := List.forall_mem_cons.mp hrest
    obtain ⟨hanswerA, hserveA⟩ := hr.serve htaskA hkeysA
    obtain ⟨hanswerB, hserveB⟩ := hr.serve htaskB hkeysB
    have hclearA := hserveA.clear hr
    have hclearB := hserveB.clear hr
    obtain ⟨hanswerB', hserveB'⟩ := hclearA.serve htaskB hkeysB
    obtain ⟨hanswerA', hserveA'⟩ := hclearB.serve htaskA hkeysA
    obtain ⟨hresponses, hend⟩ := serveAll_of_alike hrest (hserveB'.clear hclearA)
      (hserveA'.clear hclearB) (Serves.swap hapart hserveA hserveB' hserveB hserveA')
    refine ⟨?_, hend⟩
    have hapart' : ¬b.2.SharesKey a.2 := fun ⟨k, hbk, hak⟩ => hapart ⟨k, hak, hbk⟩
    rw [serveAll_cons, serveAll_cons, serveAll_cons, serveAll_cons, hresponses, hanswerA, hanswerB,
      hanswerA', hanswerB', hserveA.blockSize, hserveB.blockSize,
      Request.answer_congr (hserveA.held_of_apart hapart),
      Request.answer_congr (hserveB.held_of_apart hapart')]
    exact .swap _ _ _
  | trans h h' ih ih' =>
    obtain ⟨hperm, hend⟩ := ih hqs hr
    obtain ⟨hperm', hend'⟩ := ih' (fun q hq => hqs q (h.perm.mem_iff.mp hq)) hr
    exact ⟨hperm'.trans hperm, hend.trans hend'⟩

/-- Requests are served one after the other. If they are served in another order, in which no two
requests that share a key have changed places, then each gets the same answer, and in the end the
replica holds the same values, is responsible for the same locations, and has the same locks and the
same counts. -/
theorem serveAll_reordered (hfault : ∀ tried key value, r.store.fault tried key value = none)
    (hsound : r.locks.Sound bound) (hnew : ∀ q ∈ qs, bound ≤ q.1)
    (hfree : ∀ q ∈ qs, ∀ k ∈ keysOf q.2, r.locks.on k = [])
    (hnumbers : (qs.map Prod.fst).Nodup) (hperm : qs'.Perm qs)
    (horder : ∀ a b : Nat × Request, a.2.SharesKey b.2 → [a, b].Sublist qs →
      [a, b].Sublist qs') :
    (r.serveAll qs').1.Perm (r.serveAll qs).1 ∧
      (r.serveAll qs').2.store.entries = (r.serveAll qs).2.store.entries ∧
      (r.serveAll qs').2.tracker.owned = (r.serveAll qs).2.tracker.owned ∧
      (r.serveAll qs').2.locks.table = (r.serveAll qs).2.locks.table ∧
      (r.serveAll qs').2.locks.claims = (r.serveAll qs).2.locks.claims ∧
      (r.serveAll qs').2.served = (r.serveAll qs).2.served := by
  have hclear : r.Clear (fun k => ∃ q ∈ qs, k ∈ keysOf q.2) bound :=
    ⟨hfault, hsound, fun k ⟨q, hq, hk⟩ => hfree q hq k hk⟩
  have hadmits : Admits (fun k => ∃ q ∈ qs, k ∈ keysOf q.2) bound qs := fun q hq =>
    ⟨hnew q hq, fun _ hk => ⟨q, hq, hk⟩⟩
  obtain ⟨hresponses, halike⟩ :=
    serveAll_of_rearranged (.of_perm hnumbers hperm horder) hadmits hclear
  exact ⟨hresponses, halike.entries, halike.owned, halike.table, halike.claims, halike.served⟩

/-- An INFO overtakes a COPY of two values, one of them under the location that it is about. A SYNC
that carries no delta stays behind the COPY, and a lock is left over from before. -/
theorem serveAll_reordered_overtaking :
    let key (location : Nat) : Key := .firstUnder (.ofNat location)
    let r : Replica := { ofStore (.alone default) .empty 32 with
      locks := ⟨(∅ : Std.ExtTreeMap Key Nat compare).insert (key 3) 0, 1, []⟩ }
    let copy : Nat × Request := (1, .copy (.ofPairs [(key 1, .empty), (key 2, .empty)]) 0)
    let info : Nat × Request := (2, .info (.lastUnder (.ofNat 1)) .zero 0)
    let sync : Nat × Request := (3, .sync (key 2) .zero 0 .empty)
    r.locks.Sound 1 ∧ copy.2.SharesKey sync.2 ∧ [info, copy, sync].Perm [copy, info, sync] ∧
      (r.serveAll [info, copy, sync]).1.Perm (r.serveAll [copy, info, sync]).1 ∧
      (r.serveAll [info, copy, sync]).2.locks.table =
        (r.serveAll [copy, info, sync]).2.locks.table := by
  intro key r copy info sync
  have hsound : r.locks.Sound 1 := (KeyLocks.Sound.empty 1).enter rfl
  have hmem : ∀ k, copy.2.Concerns k ↔ k = key 1 ∨ k = key 2 := fun k =>
    Entries.mem_ofPairs.trans (by simp)
  have hshare : copy.2.SharesKey sync.2 := ⟨key 2, (hmem _).mpr (.inr rfl), rfl⟩
  have hapart : ¬copy.2.SharesKey info.2 := by
    rintro ⟨k, hcopy, rfl⟩
    rcases (hmem _).mp hcopy with heq | heq
    · exact absurd heq (by decide)
    · exact absurd heq (by decide)
  have hperm : [info, copy, sync].Perm [copy, info, sync] := .swap _ _ _
  have horder : ∀ a b : Nat × Request, a.2.SharesKey b.2 → [a, b].Sublist [copy, info, sync] →
      [a, b].Sublist [info, copy, sync] := fun a b hab h => by
    cases h with
    | cons _ h => exact h.trans ((List.sublist_cons_self copy [sync]).cons_cons info)
    | cons_cons _ h =>
      rcases List.mem_pair.mp (List.singleton_sublist.mp h) with rfl | rfl
      · exact absurd hab hapart
      · exact List.sublist_cons_self info [copy, sync]
  obtain ⟨hresponses, -, -, htable, -⟩ := serveAll_reordered (r := r) (fun _ _ _ => rfl) hsound
    (by decide) (fun _ _ _ _ => rfl) (by decide) hperm horder
  exact ⟨hsound, hshare, hperm, hresponses, htable⟩

end Replica

end DeltaMesh
