/-
  HybridAccess — which rounds are possible.

  A round fails only where the end of a lease lies beyond what the clock can
  show. It looks at the ends of all leases, so that they are in range behind
  every round there was (`InRange.of_tick`), whatever the uptimes before it, and
  the next round is possible if its own uptime leaves room for a term
  (`Term.limit`).
-/
import HybridAccess.Proofs.Control.Links

namespace HybridAccess

/-- A term whose end is in range once is so at any time. -/
theorem Term.exists_isExpired {t : Term} {now : Duration} {b : Bool} (h : t.isExpired now = .ok b)
    (now' : Duration) : ∃ b', t.isExpired now' = .ok b' :=
  exists_isExpired_iff.2 (exists_isExpired_iff.1 ⟨b, h⟩)

namespace Control.Controller

variable {c d : Controller} {answers : Answers} {now : Duration} {r : Round}

/-- The ends of the leases are in range. -/
structure InRange (c : Controller) : Prop where
  lease : ∀ f l, c.state.lease f = some l → ∀ now, ∃ b, l.term.isExpired now = .ok b

namespace InRange

theorem congr (h : c.InRange) (hl : ∀ f, d.state.lease f = c.state.lease f) : d.InRange :=
  ⟨fun f => by rw [hl]; exact h.lease f⟩

theorem initial (config : Config) (lte : IPv6) (dsl : Option IPv6) (helper4 helper6 : Bool) :
    (initial config lte dsl helper4 helper6).InRange := ⟨fun f _ h => by cases f <;> cases h⟩

theorem bare (c : Controller) : c.bare.InRange :=
  ⟨fun f _ h => by rw [lease_bare] at h; cases h⟩

theorem talk (h : c.InRange) {es : List Effect} (ht : Talk c es d) : d.InRange :=
  h.congr fun f => (congrArg (·.state.lease f) ht.rest :)

theorem settles (h : c.InRange) {o : Outcome} (hs : Settles c answers o) :
    o.controller.InRange := by
  cases hs with
  | kept | refused => exact h
  | created => exact h.congr fun _ => rfl
  | down => rw [controller_giveUp]; exact .bare _

theorem polled (h : c.InRange) (hnow : now < Term.limit) {f : Dhcp.Family}
    {es : List (Event × Environment)} (hp : Polled c now f d es) : d.InRange := by
  cases hp with
  | quiet => exact h
  | started | ended => exact h.congr fun f => by rw [state_setHelper]
  | leased _ l hl =>
    have hidle : (c.setHelper f .idle).InRange := h.congr fun f => by rw [state_setHelper]
    refine ⟨State.forall_setLease _ _ (P := fun _ o => ∀ x, o = some x → ∀ now,
      ∃ b, x.term.isExpired now = .ok b) (fun x hx => ?_) hidle.lease⟩
    cases hx
    exact fun _ => Term.exists_isExpired_iff.2 (hl.exists_expiry hnow)

theorem polls (h : c.InRange) (p : Parts c answers now) (hnow : now < Term.limit) :
    p.polled6.controller.InRange :=
  (((h.talk p.talk).settles (settles_settle _ answers)).polled hnow p.poll4).polled hnow p.poll6

theorem acts (h : c.InRange) (answers : Answers) (hnow : now < Term.limit) :
    (sequence (acts answers now) c).controller.InRange := by
  rw [sequence_acts]
  dsimp only
  exact h.polls (parts c answers now) hnow

theorem exists_tick (h : c.InRange) (answers : Answers) (hnow : now < Term.limit) :
    ∃ r, c.tick answers now = .ok r := by
  have hp := h.polls (parts c answers now) hnow
  exact Controller.exists_tick fun f l hl => hp.lease f l hl now

/-- A round looks at the ends of all leases, so that they are in range if it is possible. -/
theorem of_tick (ht : c.tick answers now = .ok r) : r.controller.InRange := by
  obtain ⟨o₄, o₆, h₄, h₆, hr⟩ := tick_cases ht
  generalize parts c answers now = p at h₄ hr
  have hleft : o₆.controller.InRange :=
    ⟨fun _ _ hl => Term.exists_isExpired (unexpired_expireLeases h₄ h₆ hl)⟩
  rcases hr with rfl | rfl
  · exact hleft
  · exact .bare _

theorem next {k k' : Course} {i : Input} (h : k.controller.InRange) (hk : k.next i = .ok k') :
    k'.controller.InRange := by
  cases i with
  | packet bytes source now =>
    cases hk
    have hrest := k.controller.handle_rest bytes source now
    exact h.congr fun f => (congrArg (·.state.lease f) hrest :)
  | stop => cases hk; exact h.congr fun _ => rfl
  | round answers now =>
    obtain ⟨r, hr, rfl⟩ := Course.next_round_eq_ok.1 hk
    exact of_tick hr

theorem exists_next {k : Course} {i : Input} (h : k.controller.InRange)
    (hi : i.Before Term.limit) :
    ∃ k', k.next i = .ok k' ∧ k'.controller.InRange := by
  cases i with
  | packet bytes source now => exact ⟨_, rfl, h.next (i := .packet bytes source now) rfl⟩
  | stop => exact ⟨_, rfl, h.next (i := .stop) rfl⟩
  | round answers now =>
    obtain ⟨r, hr⟩ := h.exists_tick answers hi
    exact ⟨_, Course.next_round_eq_ok.2 ⟨r, hr, rfl⟩, of_tick hr⟩

end InRange

theorem inRange_of_run {config : Config} {lte : IPv6} {dsl : Option IPv6} {helper4 helper6 : Bool}
    {inputs : List Input} {k : Course}
    (hk : (initial config lte dsl helper4 helper6).run inputs = .ok k) : k.controller.InRange :=
  Course.follow_invariant (P := fun k => k.controller.InRange) (fun _ _ _ _ h hk => h.next hk)
    (.initial ..) hk

end Control.Controller

end HybridAccess
