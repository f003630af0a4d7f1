import DeltaMesh.Proofs.Cluster.Sweep

/-!
# Ticks that come to an end

No conversation of a tick is stuck: each of its requests is answered after at most one more turn
(`Cluster.Foretells.answers`), so it comes to its end if it alone takes steps
(`Cluster.Foretells.ends`). Hence every tick under way can be completed at any pace, one location
after the other (`Sweep.Stands.completed`).
-/

namespace DeltaMesh

variable {n : Nat} {α : Type}

/-! ### Conversations -/

namespace Cluster

variable {c : Cluster n} {p : Peer} {location : Id} {ending : Ending α}

/-- A request that is under way is answered in its next turn: it was left with the replica only to
compute. -/
theorem Foretells.answers (hlive : c.Live) {d : Delivery n} {wait : Wait n}
    {next : Reply → Exchange α} (h : c.Foretells p location (.asking d wait next) ending)
    (i : Fin n) : ∃ reply, (c.advance i (.asking d wait next)).1 = .resting .free (next reply) := by
  cases h with
  | asking hroute hpromise hasks hsends =>
    obtain ⟨r, hturn, hkeeps, hsound, -⟩ :=
      Replica.turn_promised hpromise (hlive.locks d.replica) (hlive.fault d.replica)
    obtain ⟨c', hdeliver, -⟩ := deliver_answered (F := fun _ => False) hturn hkeeps hsound
    rw [Cluster.advance, hdeliver]
    exact ⟨_, rfl⟩

/-- A step of a conversation does not make its end uncertain. -/
theorem Foretells.goesOn {talk : Talk n α} (i : Fin n) (hlive : c.Live)
    (h : c.Foretells p location talk ending) :
    (c.advance i talk).2.Live ∧
      ∃ ending', (c.advance i talk).2.Foretells p location (c.advance i talk).1 ending' := by
  obtain ⟨sent, rest, hadvanced⟩ := h.advance i hlive
  exact ⟨hadvanced.keeps.live hlive, rest, hadvanced.foretells⟩

/-- A request that is under way comes to its end if whatever is said to the answer does. -/
theorem Foretells.asking_ends (i : Fin n) (hlive : c.Live) {d : Delivery n} {wait : Wait n}
    {next : Reply → Exchange α} (h : c.Foretells p location (.asking d wait next) ending)
    (hnext : ∀ reply (c' : Cluster n) (ending' : Ending α), c'.Live →
      c'.Foretells p location (.resting .free (next reply)) ending' →
        ∃ result c'', Advances i (.resting .free (next reply), c') (.finished result, c'')) :
    ∃ result c', Advances i (.asking d wait next, c) (.finished result, c') := by
  obtain ⟨reply, hreply⟩ := h.answers hlive i
  obtain ⟨hlive', ending', hforetells⟩ := h.goesOn i hlive
  rw [hreply] at hforetells
  obtain ⟨result, c', hends⟩ := hnext reply _ ending' hlive' hforetells
  rw [← hreply] at hends
  exact ⟨result, c', .head rfl hends⟩

/-- What is still to be said comes to its end. The induction is on the rest of the conversation: a
request is sent and its answer waited for, and each of these is a step that can be taken. -/
theorem Foretells.resting_ends (i : Fin n) {wait : Wait n} {next : Exchange α} (hlive : c.Live)
    (h : c.Foretells p location (.resting wait next) ending) :
    ∃ result c', Advances i (.resting wait next, c) (.finished result, c') := by
  induction next generalizing c wait ending with
  | done result => exact ⟨result, c, .single rfl⟩
  | note what next ih =>
    obtain ⟨hlive', ending', hforetells⟩ := h.goesOn i hlive
    obtain ⟨result, c', hends⟩ := ih hlive' hforetells
    exact ⟨result, c', .head rfl hends⟩
  | compute effort next ih =>
    obtain ⟨hlive', ending', hforetells⟩ := h.goesOn i hlive
    obtain ⟨result, c', hends⟩ := ih hlive' hforetells
    exact ⟨result, c', .head rfl hends⟩
  | ask peer q next ih =>
    obtain ⟨hlive', ending', hforetells⟩ := h.goesOn i hlive
    suffices ∃ result c', Advances i
        (c.advance i (.resting wait (.ask peer q next))) (.finished result, c') by
      obtain ⟨result, c', hends⟩ := this
      exact ⟨result, c', .head rfl hends⟩
    rw [Cluster.advance] at hlive' hforetells ⊢
    generalize c.send peer q = sent at hlive' hforetells ⊢
    obtain ⟨_ | ⟨d, wait'⟩ | _, c₁⟩ := sent
    case back reply => exact ih reply hlive' hforetells
    case underWay =>
      exact hforetells.asking_ends i hlive' fun reply _ _ hlive hforetells =>
        ih reply hlive hforetells
    case lost => cases hforetells

theorem Foretells.ends {talk : Talk n α} (i : Fin n) (hlive : c.Live)
    (h : c.Foretells p location talk ending) :
    ∃ result c', Advances i (talk, c) (.finished result, c') := by
  cases talk with
  | resting wait next => exact h.resting_ends i hlive
  | asking d wait next =>
    exact h.asking_ends i hlive fun reply _ _ hlive hforetells => hforetells.resting_ends i hlive
  | silent => cases h
  | finished result => exact ⟨result, c, .refl⟩

/-- Each conversation about a location has an end. -/
theorem Course.foretells {c₀ : Cluster n} {i : Fin n} {peers : List Peer}
    {talks : List (Talk n (List ValueResult))} {rest : SentTally}
    (h : Course c₀ i location c peers talks rest) : ∀ talk ∈ talks,
      ∃ p ending, c.Foretells p location talk ending := by
  induction h with
  | nil => exact List.forall_mem_nil _
  | cons hfirst _ _ _ ih => exact List.forall_mem_cons.mpr ⟨⟨_, _, hfirst⟩, ih⟩

end Cluster

/-! ### Locations -/

namespace Sweep

open Cluster

variable {c₀ c c' : Cluster n} {i : Fin n} {locations waiting : List Id} {s : Sweep n}
  {front back : List (Reconciliation n)} {r : Reconciliation n} {ended : List Closing}
  {sent : Id → SentTally} {pace : Pace} {location : Id}

/-- The conversations of a location come to their ends one after the other, from left to right. None
has to wait for another one, since they are about different replicas. -/
theorem Stands.talked (hsound : Sound c₀ i locations) {rows : List (List ValueResult)}
    {talks : List (Talk n (List ValueResult))}
    (h : Stands c₀ i locations
      ⟨waiting, .talking location (rows.map .finished ++ talks) :: back, ended, c⟩ sent) :
    ∃ (rows' : List (List ValueResult)) (c' : Cluster n), Run i pace
      ⟨waiting, .talking location (rows.map .finished ++ talks) :: back, ended, c⟩
      ⟨waiting, .talking location (rows'.map .finished) :: back, ended, c'⟩ := by
  induction talks generalizing rows c sent with
  | nil =>
    rw [List.append_nil]
    exact ⟨rows, c, .refl⟩
  | cons talk talks ih =>
    have hends : ∃ result c', Advances i (talk, c) (.finished result, c') := by
      cases h.underWay _ List.mem_cons_self with
      | talking _ hcourse =>
        obtain ⟨p, ending, hforetells⟩ :=
          hcourse.foretells talk (List.mem_append_right _ List.mem_cons_self)
        exact hforetells.ends i (h.kept.live hsound.live)
    obtain ⟨result, c₁, hends⟩ := hends
    have horder : ∀ t ∈ rows.map (Talk.finished : _ → Talk n _), ∃ row, t = .finished row :=
      fun t ht => by
        obtain ⟨row, -, rfl⟩ := List.mem_map.mp ht
        exact ⟨row, rfl⟩
    have hrun : Run i pace
        ⟨waiting, .talking location (rows.map .finished ++ talk :: talks) :: back, ended, c⟩
        ⟨waiting, .talking location (rows.map .finished ++ .finished result :: talks) :: back,
          ended, c₁⟩ :=
      run_advances [] back _ talks (fun _ => horder) hends
    obtain ⟨sent₁, hstands⟩ := h.run hsound hrun
    have hrows : rows.map Talk.finished ++ (Talk.finished result :: talks : List (Talk n _)) =
        (rows ++ [result]).map .finished ++ talks := by
      rw [List.map_append, List.append_assoc]
      rfl
    rw [hrows] at hrun hstands
    obtain ⟨rows', c', hrest⟩ := ih hstands
    exact ⟨rows', c', hrun.trans hrest⟩

/-- A location whose conversations have begun reports. -/
theorem Stands.closed (hsound : Sound c₀ i locations) {talks : List (Talk n (List ValueResult))}
    (h : Stands c₀ i locations ⟨waiting, .talking location talks :: back, ended, c⟩ sent) :
    ∃ x c', Run i pace ⟨waiting, .talking location talks :: back, ended, c⟩
      ⟨waiting, back, x :: ended, c'⟩ := by
  rw [← List.nil_append talks, ← List.map_nil] at h ⊢
  obtain ⟨rows, c₁, hrun⟩ := h.talked hsound
  exact ⟨_, _, hrun.tail (.finish [] back (.close location rows c₁))⟩

/-- A location that is under way reports. It may be anywhere in its course; its conversations are
led to their ends first, and then it is closed. -/
theorem Stands.reported (hsound : Sound c₀ i locations)
    (h : Stands c₀ i locations ⟨waiting, r :: back, ended, c⟩ sent) :
    ∃ x c', Run i pace ⟨waiting, r :: back, ended, c⟩ ⟨waiting, back, x :: ended, c'⟩ := by
  cases r with
  | talking location talks => exact h.closed hsound
  | planned location =>
    have hprepare : Reconciliation.Step i pace.inOrder (.planned location) c _ _ :=
      .prepare location c
    have hprepared := c.prepared i location
    generalize Reconciliation.prepare i location c = prepared at hprepare hprepared
    cases hprepared with
    | reported => exact ⟨_, _, .single (.finish [] back hprepare)⟩
    | begun =>
      have hfirst : Step i pace ⟨waiting, .planned location :: back, ended, c⟩
          ⟨waiting, _ :: back, ended, _⟩ := .turn [] back hprepare
      obtain ⟨sent₁, hstands⟩ := h.step hsound hfirst
      obtain ⟨x, c', hrun⟩ := hstands.closed hsound
      exact ⟨x, c', .head hfirst hrun⟩

/-- All locations that are under way report, by induction on how many there are. -/
theorem Stands.emptied (hsound : Sound c₀ i locations) {underWay : List (Reconciliation n)}
    (h : Stands c₀ i locations ⟨waiting, underWay, ended, c⟩ sent) :
    ∃ ended' c', Run i pace ⟨waiting, underWay, ended, c⟩ ⟨waiting, [], ended', c'⟩ := by
  induction underWay generalizing ended c sent with
  | nil => exact ⟨ended, c, .refl⟩
  | cons r underWay ih =>
    obtain ⟨x, c₁, hfirst⟩ := h.reported hsound
    obtain ⟨sent₁, hstands⟩ := h.run hsound hfirst
    obtain ⟨ended', c', hrest⟩ := ih hstands
    exact ⟨ended', c', hfirst.trans hrest⟩

/-- All locations report one after the other, if none is under way. -/
theorem Stands.swept (hsound : Sound c₀ i locations) (hwindow : 0 < pace.window)
    (h : Stands c₀ i locations ⟨waiting, [], ended, c⟩ sent) :
    ∃ s', Completes i pace ⟨waiting, [], ended, c⟩ s' := by
  induction waiting generalizing ended c sent with
  | nil => exact ⟨_, .refl, rfl, rfl⟩
  | cons location waiting ih =>
    have hin : Step i pace ⟨location :: waiting, [], ended, c⟩
        ⟨waiting, [.planned location], ended, c⟩ := .letIn hwindow
    obtain ⟨sent₁, hstands⟩ := h.step hsound hin
    obtain ⟨x, c', hrun⟩ := hstands.reported hsound
    obtain ⟨sent₂, hstands⟩ := hstands.run hsound hrun
    obtain ⟨s', hrest, hover⟩ := ih hstands
    exact ⟨s', .head hin (hrun.trans hrest), hover⟩

/-- Every tick under way can be completed, wherever it stands. Those under way report first, and
then the locations that wait are let in one by one. -/
theorem Stands.completed (hsound : Sound c₀ i locations) (hwindow : 0 < pace.window)
    (h : Stands c₀ i locations s sent) : ∃ s', Completes i pace s s' := by
  obtain ⟨waiting, underWay, ended, c⟩ := s
  obtain ⟨ended', c', hrun⟩ : ∃ ended' c', Run i pace ⟨waiting, underWay, ended, c⟩
      ⟨waiting, [], ended', c'⟩ := h.emptied hsound
  obtain ⟨sent', hstands⟩ := h.run hsound hrun
  obtain ⟨s', hrest, hover⟩ := hstands.swept hsound hwindow
  exact ⟨s', hrun.trans hrest, hover⟩

end Sweep

end DeltaMesh
