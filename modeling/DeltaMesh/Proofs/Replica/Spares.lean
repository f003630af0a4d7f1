import DeltaMesh.Proofs.Replica.Turn

/-!
# What a replica is not asked about

A replica that is asked to write under some locations only stores nothing under any other one, and
stays responsible for what it was responsible for there (`Replica.Spares`). A turn of a request
does so whether it is answered, has to compute or has to wait (`Replica.spares_turn`).
-/

namespace DeltaMesh

variable {L : Id → Prop}

/-- A request writes under the locations `L` only. -/
def Request.Within (L : Id → Prop) : Request → Prop
  | .info .. => True
  | .copy entries _ => ∀ p ∈ entries.toList, L p.1.location
  | .sync key .. => L key.location

/-- What is left of a request writes under the locations `L` only, and has not written elsewhere. -/
def Service.Within (L : Id → Prop) : Service → Prop
  | .received q => q.Within L
  | .signing _ => True
  | .storing entries locations =>
    (∀ p ∈ entries, L p.1.location) ∧ ∀ location ∈ locations, L location
  | .entering key .. | .rebuilding key _ => L key.location

/-- The same for what a turn leaves of it. -/
def Service.Stop.Within (L : Id → Prop) : Service.Stop → Prop
  | .answered _ => True
  | .computing _ rest | .locked rest => rest.Within L

namespace Replica

/-- Nothing has changed outside of the locations `L`. -/
structure Spares (L : Id → Prop) (r r' : Replica) : Prop where
  held : ∀ k, ¬L k.location → r'.store.get? k = r.store.get? k
  owned : ∀ location, ¬L location → (location ∈ r'.tracker.owned ↔ location ∈ r.tracker.owned)

namespace Spares

variable {r r' r'' : Replica}

theorem of_eq (hstore : r'.store = r.store) (htracker : r'.tracker = r.tracker) :
    Spares L r r' where
  held _ _ := by rw [hstore]
  owned _ _ := by rw [htracker]

theorem refl (L : Id → Prop) (r : Replica) : Spares L r r := of_eq rfl rfl

theorem trans (h : Spares L r r') (h' : Spares L r' r'') : Spares L r r'' where
  held k hk := (h'.held k hk).trans (h.held k hk)
  owned location hlocation := (h'.owned location hlocation).trans (h.owned location hlocation)

theorem mono {L' : Id → Prop} (h : Spares L r r') (hL : ∀ location, L location → L' location) :
    Spares L' r r' where
  held k hk := h.held k fun hkey => hk (hL k.location hkey)
  owned location hlocation := h.owned location fun hmem => hlocation (hL location hmem)

end Spares

/-! ### Single operations -/

variable (r : Replica) {key : Key}

/-- A write under such a location spares all others. -/
theorem spares_write (hkey : L key.location) (value : ByteArray) :
    r.Spares L (r.write key value).2 := by
  rw [write, Store.put]
  cases r.store.fault r.store.tried key value with
  | some why => exact ⟨fun _ _ => rfl, fun _ _ => Iff.rfl⟩
  | none =>
    refine ⟨fun k hk => ?_, fun _ _ => Iff.rfl⟩
    refine (Std.ExtTreeMap.getElem?_insert).trans (if_neg fun heq => hk ?_)
    obtain rfl := Std.LawfulEqOrd.eq_of_compare heq
    exact hkey

/-- A look at such a location spares all others. -/
theorem spares_notify {location : Id} (hlocation : L location) :
    r.Spares L (r.notify location) where
  held _ _ := rfl
  owned _ hother := r.tracker.mem_owned_evaluate_of_ne r.directory location false
    fun heq => hother (heq ▸ hlocation)

theorem spares_foldl_notify {locations : List Id}
    (hlocations : ∀ location ∈ locations, L location) : r.Spares L (locations.foldl notify r) := by
  induction locations generalizing r with
  | nil => exact .refl L r
  | cons location locations ih =>
    obtain ⟨hlocation, hlocations⟩ := List.forall_mem_cons.mp hlocations
    exact (r.spares_notify hlocation).trans (ih (r.notify location) hlocations)

/-- The end of a COPY looks only at locations that it wrote to. -/
theorem spares_settleCopy {locations : List Id} (hlocations : ∀ location ∈ locations, L location)
    (failure : Option StorageError) : r.Spares L (r.settleCopy locations failure).2 :=
  r.spares_foldl_notify fun location hlocation =>
    hlocations location (mem_distinctLocations.mp hlocation)

/-- The end of a SYNC writes and looks at one location. -/
theorem spares_settleSync (hkey : L key.location)
    (verdict : Except ExchangeError (Option ByteArray)) :
    r.Spares L (r.settleSync key verdict).2 := by
  rcases verdict with why | (_ | value)
  · exact .refl L r
  · exact .of_eq rfl rfl
  · have hwrite := r.spares_write hkey value
    rw [settleSync, putLocal]
    generalize r.write key value = written at hwrite ⊢
    obtain ⟨why | ⟨⟩, r'⟩ := written
    · exact hwrite
    · exact (hwrite.trans (r'.spares_notify hkey)).trans (.of_eq rfl rfl)

variable {r} (task : Nat)

/-- The end of a request that writes changes nothing more. -/
theorem spares_close {r' : Replica} {result : Except ExchangeError Response}
    (h : r.Spares L r') : r.Spares L (close (result, r')).2 ∧ (close (result, r')).1.Within L := by
  rcases result with why | response
  · exact ⟨h.trans (.of_eq rfl rfl), trivial⟩
  · exact ⟨h.trans (.of_eq rfl rfl), trivial⟩

/-! ### Turns -/

/-- A COPY may have to wait for locks in between; what is left of it lands where it was meant to. -/
theorem spares_turnCopy {entries : List (Key × ByteArray)} {locations : List Id}
    (hentries : ∀ p ∈ entries, L p.1.location) (hlocations : ∀ location ∈ locations, L location) :
    r.Spares L (turnCopy task locations entries r).2 ∧
      (turnCopy task locations entries r).1.Within L := by
  induction entries generalizing r locations with
  | nil => exact spares_close (r.spares_settleCopy hlocations none)
  | cons p rest ih =>
    obtain ⟨key, value⟩ := p
    obtain ⟨hkey, hrest⟩ := List.forall_mem_cons.mp hentries
    rw [turnCopy]
    cases r.locks.acquireInTurn? task with
    | none => exact ⟨.refl L r, hentries, hlocations⟩
    | some locks =>
      have hwrite := { r with locks }.spares_write hkey value
      dsimp only
      generalize { r with locks }.write key value = written at hwrite ⊢
      obtain ⟨why | ⟨⟩, r'⟩ := written
      · have hgiven : r.Spares L (r'.giveBack task) := ⟨hwrite.held, hwrite.owned⟩
        have hsettled := (r'.giveBack task).spares_settleCopy hlocations (some why)
        exact spares_close (hgiven.trans hsettled)
      · have hnext := ih (r := (r'.giveBack task).askFor task rest) hrest
          (List.forall_mem_cons.mpr ⟨hkey, hlocations⟩)
        have hgiven : r.Spares L ((r'.giveBack task).askFor task rest) := by
          cases rest <;> exact ⟨hwrite.held, hwrite.owned⟩
        exact ⟨hgiven.trans hnext.1, hnext.2⟩

/-- A SYNC that has to compute leaves its value, later, where it was meant to. -/
theorem spares_turnSync (hkey : L key.location) (expectedHash : Id) (delta : ByteArray) :
    r.Spares L (r.turnSync task key expectedHash delta).2 ∧
      (r.turnSync task key expectedHash delta).1.Within L := by
  rw [turnSync]
  cases r.locks.acquireInTurn? task with
  | none => exact ⟨.refl L r, hkey⟩
  | some locks =>
    dsimp only
    rcases syncVerdict (r.store.get? key) key expectedHash delta r.blockSize with why | (_ | value)
    · exact ⟨.of_eq rfl rfl, hkey⟩
    · exact spares_close (.of_eq rfl rfl)
    · exact ⟨.of_eq rfl rfl, hkey⟩

/-- A turn of a request changes nothing outside of its locations. There is one case for each stage
that a request can be at between turns. -/
theorem spares_turn {service : Service} (h : service.Within L) :
    r.Spares L (r.turn task service).2 ∧ (r.turn task service).1.Within L := by
  rcases service with (⟨key, hash, _⟩ | ⟨entries, _⟩ | ⟨key, hash, _, delta⟩) | answer |
      ⟨entries, locations⟩ | ⟨key, hash, delta⟩ | ⟨key, verdict⟩
  · refine ⟨.of_eq rfl rfl, ?_⟩
    rw [turn]
    dsimp only
    split
    case h_1 => exact trivial
    case h_2 => exact trivial
  · have hcopy := spares_turnCopy (r := r.countCopy.askFor task entries.toList) task h
      (List.forall_mem_nil L)
    have hasked : r.Spares L (r.countCopy.askFor task entries.toList) := by
      cases entries.toList <;> exact .of_eq rfl rfl
    exact ⟨hasked.trans hcopy.1, hcopy.2⟩
  · have hsync := spares_turnSync (r := { r with locks := r.locks.fetch task key }) task h hash
      delta
    exact ⟨⟨hsync.1.held, hsync.1.owned⟩, hsync.2⟩
  · exact ⟨.refl L r, trivial⟩
  · exact spares_turnCopy task h.1 h.2
  · exact spares_turnSync task h hash delta
  · exact spares_close ((r.spares_settleSync h verdict).trans (.of_eq rfl rfl))

end Replica

end DeltaMesh
