/-
  HybridAccess — what is left of a session behind its end.

  A teardown takes both links down and nothing else; only the next round starts
  the session over (`tick_of_down`). An accept that comes before that round is
  added to the old session. `renewed_iff` says when this cannot be told from a
  new session: if there was a round, or if the accept forgets the old one.
-/
import HybridAccess.Proofs.Control.Links

namespace HybridAccess.Control

open Message (Kind)

/-! ## Packets -/

theorem session_apply_accept {s : State} {m : Message} {now : Duration} (hk : m.kind = .accept) :
    (apply s m now).session = m.attributes.foldl acceptAttribute s.session := by
  simp only [apply, hk, applyAccept]
  cases m.tunnel <;> rfl

/-- Only an accept changes more of a session than what is known about filters. -/
theorem Changes.session {s s' : State} {t : Tunnel} {k : Kind} (h : Changes s s' t k)
    (hk : k ≠ .accept) : s'.session = { s.session with
      filterCount := s'.session.filterCount
      filterAcked := s'.session.filterAcked } := by
  cases k with
  | accept => exact absurd rfl hk
  | deny =>
    rcases h with rfl | ⟨-, rfl⟩
    · rfl
    · cases t <;> rfl
  | hello => cases t <;> (rw [h]; rfl)
  | request | notify | teardown => rw [h]

theorem Began.apply {start : Session} {s : State} (h : Began start s.session) (m : Message)
    (now : Duration) : Began start (apply s m now).session := by
  by_cases hk : m.kind = .accept
  · rw [session_apply_accept hk, foldl_acceptAttribute]
    exact h.accepted m.attributes
  · rw [(changes_apply s m now).session hk]
    exact ⟨h.reset, h.helloInterval, h.helloRetries⟩

namespace Controller

variable {start : Session} {c : Controller} {answers : Answers} {now : Duration} {r : Round}

theorem began_handle (h : Began start c.state.session) (packet : Bytes) (source : IPv6)
    (now : Duration) : Began start (c.handle packet source now).state.session := by
  rcases c.handle_cases packet source now with ⟨-, hc⟩ | ⟨m, -, -, -, -, hc⟩
  · rwa [hc]
  · rw [hc]
    exact h.apply m now

theorem handle_teardown {packet : Bytes} {source : IPv6}
    (h : c.handled? packet source now = some .teardown) :
    (c.handle packet source now).state.session = c.state.session ∧
      (c.handle packet source now).state.anyUp = false := by
  rcases c.handle_cases packet source now with ⟨hnone, -⟩ | ⟨m, -, -, -, hsome, hc⟩
  · rw [h] at hnone; cases hnone
  · have hk : m.kind = .teardown := Option.some.inj (hsome.symm.trans h)
    have hstate : apply c.state m now = applyTeardown c.state := by simp only [apply, hk]
    rw [hc, state_withState, hstate]
    exact ⟨rfl, rfl⟩

theorem session_handle_accept {packet : Bytes} {source : IPv6} {m : Message}
    (h : c.handled? packet source now = some .accept) (hm : Message.decode packet = .ok m) :
    (c.handle packet source now).state.session =
      m.attributes.foldl acceptAttribute c.state.session := by
  rcases c.handle_cases packet source now with ⟨hnone, -⟩ | ⟨m', -, hd, -, hsome, hc⟩
  · rw [h] at hnone; cases hnone
  · obtain rfl : m' = m := Except.ok.inj (hd.symm.trans hm)
    rw [hc, state_withState, session_apply_accept (Option.some.inj (hsome.symm.trans h))]

/-! ## Rounds -/

/-- **A round that no link is established in starts the session over, and brings no link up.** -/
theorem tick_of_down (ht : c.tick answers now = .ok r) (hdown : c.state.anyUp = false) :
    r.controller.state.anyUp = false ∧ r.controller.state.session = c.state.session.reset := by
  have hstill : r.controller.state.anyUp = false :=
    Bool.eq_false_iff.2 fun h => by rw [anyUp_of_tick ht h] at hdown; cases hdown
  refine ⟨hstill, ?_⟩
  rw [session_tick ht, hstill]
  rfl

theorem began_tick (h : Began start c.state.session) (ht : c.tick answers now = .ok r) :
    Began start r.controller.state.session := by
  rw [session_tick ht]
  split
  · exact ⟨h.reset, h.helloInterval, h.helloRetries⟩
  · rw [← h.reset]
    exact .startup _ _ _

/-! ## Courses -/

theorem began_next {k k' : Course} {i : Input} (h : Began start k.controller.state.session)
    (hk : k.next i = .ok k') : Began start k'.controller.state.session := by
  cases i with
  | packet bytes source now => cases hk; exact began_handle h bytes source now
  | stop => cases hk; exact h
  | round answers now =>
    obtain ⟨r, hr, rfl⟩ := Course.next_round_eq_ok.1 hk
    exact began_tick h hr

theorem began_of_run {config : Config} {lte : IPv6} {dsl : Option IPv6} {helper4 helper6 : Bool}
    {inputs : List Input} {k : Course}
    (hk : (initial config lte dsl helper4 helper6).run inputs = .ok k) :
    Began (.startup config.anycast config.helloInterval config.helloRetries)
      k.controller.state.session :=
  Course.follow_invariant (P := fun k => Began _ k.controller.state.session)
    (fun _ _ _ _ h hk => began_next h hk) (.startup _ _ _) hk

/-- A course without a link: the session has been started over if there was a round, and is the torn
one if not. -/
structure Course.Waiting (start torn : Session) (k : Course) : Prop where
  down : k.controller.state.anyUp = false
  began : Began start k.controller.state.session
  torn : k.rounds = [] → k.controller.state.session = torn
  renewed : k.rounds ≠ [] → k.controller.state.session = start

/-- A course without packets goes on waiting. -/
theorem Course.Waiting.next {torn : Session} {k k' : Course} {i : Input}
    (h : k.Waiting start torn) (hi : i.isPacket = false) (hk : k.next i = .ok k') :
    k'.Waiting start torn := by
  cases i with
  | packet bytes source now => cases hi
  | stop => cases hk; exact ⟨h.down, h.began, h.torn, h.renewed⟩
  | round answers now =>
    obtain ⟨r, hr, rfl⟩ := Course.next_round_eq_ok.1 hk
    obtain ⟨hdown, hs⟩ := tick_of_down hr h.down
    exact ⟨hdown, began_tick h.began hr, fun hnil => absurd hnil (by simp),
      fun _ => hs.trans h.began.reset⟩

/-- **Behind a teardown, and any rounds without a packet, an accept makes what it makes of a new
session just if there was a round or if it forgets the session that was torn down.** -/
theorem renewed_iff (config : Config) (lte : IPv6) (dsl : Option IPv6) (helper4 helper6 : Bool)
    (inputs between : List Input) (teardown accept : Bytes) (source₁ source₂ : IPv6)
    (now₁ now₂ : Duration) (m : Message) (k k' : Course)
    (hrun : (initial config lte dsl helper4 helper6).run inputs = .ok k)
    (hdown : k.controller.handled? teardown source₁ now₁ = some .teardown)
    (hquiet : ∀ i ∈ between, i.isPacket = false)
    (hwait : (k.controller.handle teardown source₁ now₁).run between = .ok k')
    (hup : k'.controller.handled? accept source₂ now₂ = some .accept)
    (hm : Message.decode accept = .ok m) :
    let start := Session.startup config.anycast config.helloInterval config.helloRetries
    (k'.controller.handle accept source₂ now₂).state.session =
        m.attributes.foldl acceptAttribute start ↔
      k'.rounds ≠ [] ∨ Forgets m.attributes k.controller.state.session start := by
  intro start
  have hbegan := began_of_run hrun
  -- no link comes up before the accept, so that the first round starts the session over
  have htorn : Course.Waiting start k.controller.state.session
      ⟨k.controller.handle teardown source₁ now₁, []⟩ := by
    obtain ⟨hs, hanyUp⟩ := handle_teardown hdown
    exact ⟨hanyUp, hs ▸ hbegan, fun _ => hs, fun h => absurd rfl h⟩
  have hk' : k'.Waiting start k.controller.state.session :=
    Course.follow_invariant (fun _ i hi _ h hk => h.next (hquiet i hi) hk) htorn hwait
  rw [session_handle_accept hup hm, foldl_acceptAttribute, foldl_acceptAttribute]
  by_cases hr : k'.rounds = []
  · rw [hk'.torn hr, accepted_eq_iff hbegan]
    exact (or_iff_right (not_not_intro hr)).symm
  · rw [hk'.renewed hr]
    exact iff_of_true rfl (Or.inl hr)

/-! ## A session with filters -/

/-- The fifth list of filters, for the session with the key 7. -/
def filters : Bytes := [0x20, 0, 1, 1, 0, 0, 0, 7, 0x60, 8, 0, 4, 0, 0, 0, 5]

/-- The end of the session with the key 7. -/
def farewell : Bytes := [0x20, 0, 1, 1, 0, 0, 0, 7, 0x50]

/-- The packets before the end of the session. -/
def beforeFarewell : List Input :=
  [.packet acceptance Config.default.anycast .zero, .packet filters Config.default.anycast .zero]

/-- A controller that has been accepted and has been told of filters. -/
def filtered : Controller :=
  ((initial .default .unspecified none false false).handle acceptance Config.default.anycast
    .zero).handle filters Config.default.anycast .zero

/-- The message in `acceptance`. -/
def acceptanceMessage : Message := ⟨.accept, .lte, 0, [⟨20, [0, 0, 0, 7]⟩]⟩

theorem decode_acceptance : Message.decode acceptance = .ok acceptanceMessage := by
  have h : (Message.decode acceptance).toOption = some acceptanceMessage := by decide +kernel
  cases hd : Message.decode acceptance with
  | error e => rw [hd] at h; cases h
  | ok m => rw [hd] at h; exact congrArg _ (Option.some.inj h)

/-- With a round in between, the filters are forgotten. -/
theorem renewed_after_a_round : ∃ k k',
    (initial .default .unspecified none false false).run beforeFarewell = .ok k ∧
    k.controller.handled? farewell Config.default.anycast .zero = some .teardown ∧
    (k.controller.handle farewell Config.default.anycast .zero).run [.round willing .zero] =
      .ok k' ∧
    k'.controller.handled? acceptance Config.default.anycast .zero = some .accept ∧
    Message.decode acceptance = .ok acceptanceMessage ∧
    (k'.controller.handle acceptance Config.default.anycast .zero).state.session =
      acceptanceMessage.attributes.foldl acceptAttribute (.startup Config.default.anycast 0 0) := by
  have hrun : (initial .default .unspecified none false false).run beforeFarewell =
      .ok ⟨filtered, []⟩ := rfl
  have hdown : filtered.handled? farewell Config.default.anycast .zero = some .teardown := by
    decide +kernel
  have hround : (((filtered.handle farewell Config.default.anycast .zero).run
      [.round willing .zero]).toOption.map fun k' =>
        (k'.controller.handled? acceptance Config.default.anycast .zero, k'.rounds.length)) =
      some (some .accept, 1) := by decide +kernel
  cases hwait : (filtered.handle farewell Config.default.anycast .zero).run
      [.round willing .zero] with
  | error e => rw [hwait] at hround; cases hround
  | ok k' =>
    rw [hwait] at hround
    obtain ⟨hup, hlength⟩ := Prod.mk.inj (Option.some.inj hround)
    refine ⟨⟨filtered, []⟩, k', hrun, hdown, hwait, hup, decode_acceptance, ?_⟩
    refine (renewed_iff .default .unspecified none false false beforeFarewell [.round willing .zero]
      farewell acceptance Config.default.anycast Config.default.anycast .zero .zero
      acceptanceMessage ⟨filtered, []⟩ k' hrun hdown (by simp [Input.isPacket]) hwait hup
      decode_acceptance).2 (Or.inl fun hnil => ?_)
    rw [hnil] at hlength
    cases hlength

/-- Without a round in between, the filters of the session that was torn down are still there. -/
theorem filters_survive_teardown : ∃ k,
    (initial .default .unspecified none false false).run beforeFarewell = .ok k ∧
    let torn := k.controller.handle farewell Config.default.anycast .zero
    let next := torn.handle acceptance Config.default.anycast .zero
    k.controller.handled? farewell Config.default.anycast .zero = some .teardown ∧
    torn.handled? acceptance Config.default.anycast .zero = some .accept ∧
    Message.decode acceptance = .ok acceptanceMessage ∧
    next.state.session.filterCount = 5 ∧
    next.state.session ≠
      acceptanceMessage.attributes.foldl acceptAttribute (.startup Config.default.anycast 0 0) :=
  ⟨⟨filtered, []⟩, rfl, by decide +kernel, by decide +kernel, decode_acceptance, by decide +kernel,
    by decide +kernel⟩

end Controller

end HybridAccess.Control
