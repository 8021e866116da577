/-
  HybridAccess — what becomes of a link.

  Only an accept for a link establishes it (`established_handle`). What a round
  makes of the links is done by its talking part (`link_tick`), which brings no
  link up; the session of a round is the one talked with while some link is
  established, and a new one if not (`session_tick`).
-/
import Mathlib.Data.List.Induction
import HybridAccess.Proofs.Control.Lifecycle

namespace HybridAccess

theorem State.anyUp_of_link {s : State} {t : Tunnel} (h : (s.link t).isEstablished = true) :
    s.anyUp = true := by
  cases t with
  | lte => exact Bool.or_eq_true_iff.2 (Or.inl h)
  | dsl => exact Bool.or_eq_true_iff.2 (Or.inr h)

namespace Control

open Message (Kind)

/-! ## Packets -/

theorem link_updateLink (s : State) (t t' : Tunnel) (f : Link → Link) :
    (s.updateLink t f).link t' = if t' = t then f (s.link t') else s.link t' := by
  cases t <;> cases t' <;> rfl

/-- Only an accept for a link establishes it. -/
theorem Changes.established {s s' : State} {t t' : Tunnel} {k : Kind} (h : Changes s s' t' k)
    (hup : (s'.link t).isEstablished = true) :
    (s.link t).isEstablished = true ∨ k = .accept ∧ t' = t := by
  cases k with
  | accept =>
    by_cases ht : t = t'
    · exact Or.inr ⟨rfl, ht.symm⟩
    · rw [h, link_updateLink, if_neg ht] at hup
      cases t <;> exact Or.inl hup
  | deny =>
    rcases h with rfl | ⟨-, rfl⟩
    · exact Or.inl hup
    · rw [link_updateLink] at hup
      split at hup
      · cases hup
      · exact Or.inl hup
  | hello =>
    rw [h, link_updateLink] at hup
    split at hup <;> exact Or.inl hup
  | request => rw [h] at hup; exact Or.inl hup
  | notify => rw [h] at hup; cases t <;> exact Or.inl hup
  | teardown => rw [h] at hup; cases t <;> cases hup

namespace Controller

variable {c : Controller} {bytes : Bytes} {source : IPv6} {answers : Answers} {now : Duration}
  {r : Round} {t : Tunnel}

/-- A packet is acted on as an accept for a link. -/
def Accepts (c : Controller) (bytes : Bytes) (source : IPv6) (now : Duration) (t : Tunnel) : Prop :=
  c.handled? bytes source now = some .accept ∧
    ∃ m, Message.decode bytes = .ok m ∧ m.tunnel = t

theorem established_handle
    (h : ((c.handle bytes source now).state.link t).isEstablished = true) :
    (c.state.link t).isEstablished = true ∨ c.Accepts bytes source now t := by
  rcases c.handle_cases bytes source now with ⟨-, hc⟩ | ⟨m, -, hm, -, hsome, hc⟩
  · rw [hc] at h; exact Or.inl h
  · rw [hc] at h
    refine (changes_apply c.state m now).established h |>.imp id fun ⟨hk, ht⟩ => ?_
    exact ⟨hk ▸ hsome, m, hm, ht⟩

theorem Accepts.link (h : c.Accepts bytes source now t) :
    (c.handle bytes source now).state.link t = (c.state.link t).establish now := by
  obtain ⟨hup, m, hm, rfl⟩ := h
  rcases c.handle_cases bytes source now with ⟨hnone, -⟩ | ⟨m', -, hd, -, hsome, hc⟩
  · rw [hup] at hnone; cases hnone
  · obtain rfl : m' = m := Except.ok.inj (hd.symm.trans hm)
    have hk : m'.kind = .accept := Option.some.inj (hsome.symm.trans hup)
    rw [hc, state_withState]
    simp only [apply, hk, applyAccept, link_updateLink_self]
    cases m'.tunnel <;> rfl

/-- Packets touch links and session only. -/
theorem handle_rest (c : Controller) (bytes : Bytes) (source : IPv6) (now : Duration) :
    c.handle bytes source now = c.withState
      { c.state with
        lte := (c.handle bytes source now).state.lte
        dsl := (c.handle bytes source now).state.dsl
        session := (c.handle bytes source now).state.session } := by
  rcases c.handle_cases bytes source now with ⟨-, hc⟩ | ⟨m, -, -, -, -, hc⟩
  · rw [hc]; rfl
  · rw [hc]
    exact congrArg c.withState (changes_apply c.state m now).rest.1

/-! ## Rounds -/

/-- Settling changes no link, and the session only where no link is established. -/
theorem Settles.rest {o : Outcome} (h : Settles c answers o) :
    o.controller.state.lte = c.state.lte ∧ o.controller.state.dsl = c.state.dsl ∧
      o.controller.state.bonding = c.state.bonding ∧ o.controller.hasDsl = c.hasDsl ∧
      o.controller.state.session =
        if c.state.anyUp then c.state.session else c.state.session.reset := by
  cases h with
  | kept hup | created hup | refused hup => exact ⟨rfl, rfl, rfl, rfl, (if_pos hup).symm⟩
  | down hdown =>
    rw [controller_giveUp, hdown]
    exact ⟨rfl, rfl, rfl, rfl, rfl⟩

/-- The controller when it has talked to the server. -/
def talked (c : Controller) (answers : Answers) (now : Duration) : Controller :=
  (sequence (forgetDownLinks :: talking answers now) c).controller

theorem talk_talked (c : Controller) (answers : Answers) (now : Duration) :
    ∃ es, Talk c es (c.talked answers now) ∧ (c.talked answers now).state.Tidy := by
  obtain ⟨htalk, htidy⟩ := talk_round c answers now
  rw [talked]
  exact ⟨_, htalk, htidy⟩

/-- What follows the talking in a round leaves the links alone, and the session too while some link
is established. -/
theorem tick_rest (ht : c.tick answers now = .ok r) :
    r.controller.state.lte = (c.talked answers now).state.lte ∧
      r.controller.state.dsl = (c.talked answers now).state.dsl ∧
      r.controller.state.bonding = (c.talked answers now).state.bonding ∧
      r.controller.hasDsl = (c.talked answers now).hasDsl ∧
      r.controller.state.session =
        if (c.talked answers now).state.anyUp then (c.talked answers now).state.session
        else (c.talked answers now).state.session.reset := by
  obtain ⟨o₄, o₆, h₄, h₆, hr⟩ := tick_cases ht
  have htalked : (parts c answers now).talked.controller = c.talked answers now := rfl
  generalize parts c answers now = p at h₄ hr htalked
  have hs : Settles (c.talked answers now) answers p.settled :=
    htalked ▸ settles_settle p.talked.controller answers
  have hall := p.sameBut h₄ h₆
  generalize p.settled = o at hs hall
  generalize c.talked answers now = d at hs ⊢
  have hrest : o₆.controller.state.lte = d.state.lte ∧ o₆.controller.state.dsl = d.state.dsl ∧
      o₆.controller.state.bonding = d.state.bonding ∧ o₆.controller.hasDsl = d.hasDsl ∧
      o₆.controller.state.session =
        if d.state.anyUp then d.state.session else d.state.session.reset := by
    rw [hall]
    exact hs.rest
  rcases hr with rfl | rfl
  · exact hrest
  · exact hrest

theorem effects_tick (ht : c.tick answers now = .ok r) :
    (sequence (forgetDownLinks :: talking answers now) c).effects ⊆ r.effects := by
  obtain ⟨o₄, o₆, -, -, hr⟩ := tick_cases ht
  have htalked : (parts c answers now).talked.effects =
    (sequence (forgetDownLinks :: talking answers now) c).effects := rfl
  generalize parts c answers now = p at hr htalked
  rw [← htalked]
  rcases hr with rfl | rfl
  · simp [Parts.effects]
  · simp [Parts.effects]

theorem link_tick (ht : c.tick answers now = .ok r) (t : Tunnel) :
    r.controller.state.link t = (c.talked answers now).state.link t := by
  obtain ⟨hlte, hdsl, -⟩ := tick_rest ht
  cases t with
  | lte => exact hlte
  | dsl => exact hdsl

theorem anyUp_tick (ht : c.tick answers now = .ok r) :
    r.controller.state.anyUp = (c.talked answers now).state.anyUp := by
  obtain ⟨hlte, hdsl, -⟩ := tick_rest ht
  rw [State.anyUp, hlte, hdsl, State.anyUp]

/-- The session of a round: the same but for the acknowledgement of filters, or a new one. -/
theorem session_tick (ht : c.tick answers now = .ok r) : r.controller.state.session =
    if r.controller.state.anyUp then
      { c.state.session with filterAcked := r.controller.state.session.filterAcked }
    else c.state.session.reset := by
  obtain ⟨-, -, -, -, hs⟩ := tick_rest ht
  obtain ⟨es, htalk, -⟩ := talk_talked c answers now
  rw [anyUp_tick ht]
  generalize c.talked answers now = d at hs htalk ⊢
  split at hs
  · next hup =>
    rw [if_pos hup, hs, htalk.rest]
    rfl
  · next hdown =>
    rw [if_neg hdown, hs, htalk.rest]
    rfl

theorem session_tick_of_up (ht : c.tick answers now = .ok r)
    (hup : (r.controller.state.link t).isEstablished = true) : r.controller.state.session =
      { c.state.session with filterAcked := r.controller.state.session.filterAcked } := by
  have hsession := session_tick ht
  rwa [if_pos (State.anyUp_of_link hup)] at hsession

theorem hasDsl_tick (ht : c.tick answers now = .ok r) : r.controller.hasDsl = c.hasDsl := by
  obtain ⟨-, -, -, hsocket, -⟩ := tick_rest ht
  obtain ⟨_, htalk, -⟩ := talk_talked c answers now
  generalize c.talked answers now = d at hsocket htalk
  exact hsocket.trans (congrArg (·.hasDsl) htalk.rest :)

/-- A round brings no link up. -/
theorem established_tick (ht : c.tick answers now = .ok r)
    (h : (r.controller.state.link t).isEstablished = true) :
    (c.state.link t).isEstablished = true := by
  obtain ⟨es, htalk, -⟩ := talk_talked c answers now
  rw [link_tick ht t] at h
  exact (htalk.link t).established h

theorem anyUp_of_tick (ht : c.tick answers now = .ok r) (h : r.controller.state.anyUp = true) :
    c.state.anyUp = true := by
  simp only [State.anyUp, Bool.or_eq_true] at h ⊢
  exact h.imp (established_tick (t := .lte) ht) (established_tick (t := .dsl) ht)

/-- After a round, a link that is down has nothing to remember. -/
theorem tidy_tick (ht : c.tick answers now = .ok r) : r.controller.state.Tidy := by
  intro t
  obtain ⟨es, -, htidy⟩ := talk_talked c answers now
  rw [link_tick ht t]
  exact htidy t

/-! ## Courses -/

/-- An input brings a link up only if it is an accept for it. -/
theorem Course.established_next {k k' : Course} {i : Input} {t : Tunnel} (hk : k.next i = .ok k')
    (hup : (k'.controller.state.link t).isEstablished = true) :
    (k.controller.state.link t).isEstablished = true ∨ ∃ bytes source now,
      i = .packet bytes source now ∧ k.controller.Accepts bytes source now t := by
  cases i with
  | packet bytes source now =>
    cases hk
    exact (established_handle hup).imp id fun ha => ⟨bytes, source, now, rfl, ha⟩
  | stop => cases hk; cases t <;> exact Or.inl hup
  | round answers now =>
    obtain ⟨r, hr, rfl⟩ := Course.next_round_eq_ok.1 hk
    exact Or.inl (established_tick hr hup)

/-- A link stays down in a course from a controller in which it is down just if no packet of the
course is acted on as an accept for it. -/
theorem never_established_iff {c : Controller} {t : Tunnel}
    (hdown : (c.state.link t).isEstablished = false) (inputs : List Input) :
    (∀ pre k, pre <+: inputs → c.run pre = .ok k →
      (k.controller.state.link t).isEstablished = false) ↔
    ∀ pre bytes source now k, pre ++ [.packet bytes source now] <+: inputs → c.run pre = .ok k →
      ¬ k.controller.Accepts bytes source now t := by
  constructor
  · intro hall pre bytes source now k hpre hk ha
    have hnext : c.run (pre ++ [.packet bytes source now]) =
        .ok ⟨k.controller.handle bytes source now, k.rounds⟩ :=
      Course.follow_concat_eq_ok.2 ⟨k, hk, rfl⟩
    have hstill := hall _ _ hpre hnext
    rw [ha.link] at hstill
    cases hstill
  · intro hno pre
    induction pre using List.reverseRecOn with
    | nil =>
      intro k _ hk
      cases hk
      exact hdown
    | append_singleton pre i ih =>
      intro k' hpre hk'
      obtain ⟨k, hk, hi⟩ := Course.follow_concat_eq_ok.1 hk'
      refine Bool.eq_false_iff.2 fun hup => ?_
      rcases Course.established_next hi hup with hbefore | ⟨bytes, source, now, rfl, ha⟩
      · rw [ih k ((List.prefix_append pre [i]).trans hpre) hk] at hbefore
        cases hbefore
      · exact hno pre bytes source now k hpre hk ha

end Controller

end Control

end HybridAccess
