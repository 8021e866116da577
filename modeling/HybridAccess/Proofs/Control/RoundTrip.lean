/-
  HybridAccess — a hello that comes back.

  A link over which a hello went out stays as it is until the next hello,
  whatever rounds come and whatever packets are ignored (`Rests`). When the
  server sends the packet back, the link has heard the hello that it sent last.
  The time it took is measured from the stamp, which is the uptime cut to
  milliseconds. Main statement: `hello_round_trip`.
-/
import HybridAccess.Proofs.Control.Bounds
import HybridAccess.Proofs.Control.History
import HybridAccess.Proofs.Control.Silence

namespace HybridAccess

open Message (Stamp)

namespace Control.Controller

variable {c d e : Controller} {answers : Answers} {now : Duration} {r : Round} {t : Tunnel}
  {x : Effect} {steps : List Step}

/-! ## Between a hello and the next one -/

/-- An established link that is not about to be given up and can send packets. -/
structure Lively (t : Tunnel) (c : Controller) : Prop where
  up : (c.state.link t).isEstablished = true
  missed : (c.state.link t).missed < c.state.session.retryLimit
  socket : t = .dsl → c.hasDsl = true

/-- Nothing has changed that hellos over a link depend on. -/
structure Rests (t : Tunnel) (c d : Controller) : Prop where
  link : (c.state.link t).Alike (d.state.link t)
  session : d.state.session = { c.state.session with filterAcked := d.state.session.filterAcked }
  socket : d.hasDsl = c.hasDsl

/-- A round that sends a hello and does not give the link up leaves it lively. -/
theorem lively_tick (ht : c.tick answers now = .ok r) (hx : x ∈ r.effects) (hello : x.IsHello t)
    (hup : (r.controller.state.link t).isEstablished = true) : Lively t r.controller := by
  refine ⟨hup, missed_lt_retryLimit ht hup, fun hdsl => ?_⟩
  rw [hasDsl_tick ht]
  exact socket_of_send (mem_send_of_isHello ht hx hello).2 hello.isTransmit hdsl

namespace Rests

theorem refl (c : Controller) : Rests t c c := ⟨.refl _, rfl, rfl⟩

theorem trans (h : Rests t c d) (h' : Rests t d e) : Rests t c e := by
  refine ⟨h.link.trans h'.link, ?_, h'.socket.trans h.socket⟩
  rw [h'.session, h.session]

theorem lively (h : Rests t c d) (hc : Lively t c) : Lively t d := by
  refine ⟨h.link.isEstablished.trans hc.up, ?_, fun hdsl => h.socket.trans (hc.socket hdsl)⟩
  rw [h.link.missed, h.session]
  exact hc.missed

theorem tick (hc : Lively t c) (ht : c.tick answers now = .ok r)
    (hquiet : ∀ x ∈ r.effects, ¬ x.IsHello t) : Rests t c r.controller := by
  have hdue : ¬ c.HelloDue now t := by
    intro hdue
    obtain ⟨x, hx, hello⟩ := (exists_isHello_iff hc.socket ht).2 hdue
    exact hquiet x hx hello
  have hlink := alike_tick hc.up ht
  rw [greeted, if_neg hdue, if_neg (Nat.not_le.2 hc.missed)] at hlink
  exact ⟨hlink, session_tick_of_up ht (hlink.isEstablished.trans hc.up), hasDsl_tick ht⟩

/-- A step that acts on no message and sends no hello. -/
theorem step {s : Step} (hc : Lively t s.before) (hm : s.message? = none)
    (hquiet : ∀ x ∈ s.effects, ¬ x.IsHello t) : Rests t s.before s.after := by
  cases s with
  | packet c bytes source now =>
    rcases Step.packet_cases c bytes source now with ⟨-, hafter⟩ | ⟨m, hsome, -⟩
    · rw [hafter]
      exact .refl c
    · rw [hm] at hsome
      cases hsome
  | round c answers now r possible => exact tick hc possible hquiet
  | stop c => exact ⟨by rw [Step.after, link_requestShutdown]; exact .refl _, rfl, rfl⟩

theorem history (hc : Lively t c) (past : History c steps d)
    (hm : ∀ s ∈ steps, s.message? = none)
    (hquiet : ∀ s ∈ steps, ∀ x ∈ s.effects, ¬ x.IsHello t) : Rests t c d := by
  induction past with
  | start => exact .refl c
  | @step steps s past ih =>
    simp only [List.forall_mem_append, List.forall_mem_singleton] at hm hquiet
    have hbefore := ih hm.1 hquiet.1
    exact hbefore.trans (.step (hbefore.lively hc) hm.2 hquiet.2)

end Rests

/-! ## The answer -/

/-- The packet of a hello, sent back by the server, makes the link hear its stamp. -/
theorem handle_hello {s : Session} {stamp : Stamp} {packet : Bytes}
    (hb : (hello s t stamp).encode = .ok packet) (hkey : s.key = c.state.session.key)
    (now : Duration) :
    c.handled? packet c.state.session.server now = some .hello ∧
      c.handle packet c.state.session.server now =
        c.withState (c.state.updateLink t (hear now · stamp)) := by
  obtain ⟨hsome, hc⟩ : c.handled? packet c.state.session.server now = some .hello ∧
      c.handle packet c.state.session.server now =
        c.withState (apply c.state (hello s t stamp) now) :=
    handle_of_entitled rfl (Message.decode_of_encode hb) (Or.inl hkey)
  have happly : apply c.state (hello s t stamp) now = c.state.updateLink t fun l =>
      (hello s t stamp).attributes.foldl (helloAttribute now) l := rfl
  simp only [foldl_helloAttribute_eq, brought_hello, List.foldl_cons, List.foldl_nil] at happly
  exact ⟨hsome, hc.trans (congrArg c.withState happly)⟩

/-- **A hello whose packet comes back before the next hello over its link is the one that was
answered last, none counts as missed, and the round trip is the time that has passed, to a
millisecond. The other link is left alone.** A hello that the link refuses counts as sent. -/
theorem hello_round_trip (config : Config) (lte : IPv6) (dsl : Option IPv6)
    (helper4 helper6 : Bool) (steps : List Step) (c : Controller)
    (hsteps : History (initial config lte dsl helper4 helper6) steps c) (answers : Answers)
    (sent : Duration) (hsent : sent < .ofSeconds UInt32.size) :
    ∃ r, c.tick answers sent = .ok r ∧
      ∀ t packet destination failure, .transmit t packet destination failure ∈ r.effects →
      (∃ m, Message.decode packet = .ok m ∧ m.kind = .hello) →
      (r.controller.state.link t).isEstablished = true →
      ∀ later d, History r.controller later d → (∀ s ∈ later, s.message? = none) →
      (∀ s ∈ later, ∀ x ∈ s.effects, ¬ x.IsHello t) →
      ∀ back, sent ≤ back →
        let e := d.handle packet d.state.session.server back
        destination = d.state.session.server ∧
        d.handled? packet d.state.session.server back = some .hello ∧
        (e.state.link t).helloAnswered = (e.state.link t).helloSent ∧
        (e.state.link t).missed = 0 ∧
        back.since sent ≤ (e.state.link t).roundTrip ∧
        (e.state.link t).roundTrip.nanos < (back.since sent).nanos + (Duration.ofMillis 1).nanos ∧
        ∀ t', t' ≠ t → e.state.link t' = d.state.link t' := by
  obtain ⟨rounds, hrun⟩ := exists_history_iff.1 ⟨steps, rfl, hsteps⟩
  obtain ⟨r, ht⟩ := (inRange_of_run hrun).exists_tick answers (Nat.lt_trans hsent Stamp.limit_lt)
  refine ⟨r, ht, ?_⟩
  intro t packet destination failure hx hm hup later d hlater hignored hquiet back hback
  have hello : Effect.IsHello t (.transmit t packet destination failure) := ⟨rfl, hm⟩
  obtain ⟨hdue, packet', failure', hb, hcarried⟩ := helloDue_of_isHello ht hx hello
  cases hcarried
  -- until the answer, key and address are those of the hello, and its stamp is the last one sent
  have hrests := Rests.history (lively_tick ht hx hello hup) hlater hignored hquiet
  have hsession := session_tick_of_up ht hup
  have hkey : c.state.session.key = d.state.session.key := by
    rw [hrests.session, hsession]
  have hserver : c.state.session.server = d.state.session.server := by
    rw [hrests.session, hsession]
  have hsentAt : (d.state.link t).helloSent = (Stamp.ofUptime sent).toDuration := by
    rw [hrests.link.helloSent, helloSent_tick hdue ht hup]
  obtain ⟨hsome, hheard⟩ := handle_hello hb hkey back
  obtain ⟨hle, hlt⟩ := Stamp.ofUptime_bounds hsent
  intro e
  have he : e = d.withState (d.state.updateLink t (hear back · (Stamp.ofUptime sent))) := hheard
  have hlink : e.state.link t = hear back (d.state.link t) (Stamp.ofUptime sent) := by
    rw [he, state_withState, link_updateLink_self]
  have htrip : (e.state.link t).roundTrip = back.since (Stamp.ofUptime sent).toDuration := by
    rw [hlink, hear]
  simp only [Duration.le_def] at hle hback
  refine ⟨hserver, hsome, ?_, ?_, ?_, ?_, fun t' hne => ?_⟩
  · rw [hlink, hear]
    exact hsentAt.symm
  · rw [hlink, hear]
  · rw [htrip, Duration.le_def, Duration.nanos_since, Duration.nanos_since]
    omega
  · have hmilli : (Duration.ofMillis 1).nanos = 1000000 := rfl
    rw [htrip, Duration.nanos_since, Duration.nanos_since, hmilli]
    omega
  · rw [he, state_withState, link_updateLink, if_neg hne]

/-- The controller one second after the start, when the cellular link has been accepted. -/
def acceptedOnce : Controller :=
  (initial everySecond .unspecified none false false).handle acceptance Config.default.anycast
    (.ofSeconds 1)

/-- A hello is sent, a round comes in which none is due, and then the answer. -/
theorem hello_round_trip_between_rounds :
    let sent : Duration := ⟨2000000001⟩
    let back : Duration := ⟨2700000000⟩
    ∃ r packet destination failure r', acceptedOnce.tick willing sent = .ok r ∧
      .transmit .lte packet destination failure ∈ r.effects ∧
      r.controller.tick willing (.ofMillis 2500) = .ok r' ∧
      let e := r'.controller.handle packet r'.controller.state.session.server back
      (e.state.link .lte).helloAnswered = (e.state.link .lte).helloSent ∧
      (e.state.link .lte).missed = 0 ∧ back.since sent ≤ (e.state.link .lte).roundTrip := by
  intro sent back
  have hsteps := History.single (.packet (initial everySecond .unspecified none false false)
    acceptance Config.default.anycast (.ofSeconds 1))
  obtain ⟨r, hr, hanswer⟩ := hello_round_trip everySecond .unspecified none false false _
    acceptedOnce hsteps willing sent (by decide)
  obtain ⟨r₀, hr₀, hc⟩ := exists_willingRound acceptedOnce sent (by decide +kernel)
  obtain rfl : r₀ = r := Except.ok.inj (hr₀.symm.trans hr)
  have hup : (r₀.controller.state.link .lte).isEstablished = true := by
    rw [hc]
    decide +kernel
  -- the hello
  have hsocket : Tunnel.lte = .dsl → acceptedOnce.hasDsl = true := fun h => by cases h
  obtain ⟨x, hx, hello⟩ := (exists_isHello_iff hsocket hr).2 (by decide +kernel)
  obtain ⟨-, packet, failure, -, rfl⟩ := helloDue_of_isHello hr hx hello
  -- the round in between
  obtain ⟨r', hr', -⟩ := exists_willingRound r₀.controller (.ofMillis 2500) (by
    rw [hc]
    decide +kernel)
  have hquiet : ∀ x ∈ r'.effects, ¬ x.IsHello .lte := by
    intro x hx hello
    have hdue := (helloDue_of_isHello hr' hx hello).1
    rw [hc] at hdue
    exact absurd hdue (by decide +kernel)
  obtain ⟨-, -, hanswered, hmissed, htrip, -⟩ := hanswer .lte packet _ failure hx hello.2 hup
    [.round r₀.controller willing (.ofMillis 2500) r' hr'] r'.controller
    (.single (.round _ _ _ r' hr')) (List.forall_mem_singleton.2 rfl)
    (List.forall_mem_singleton.2 hquiet) back (by decide)
  exact ⟨r₀, packet, _, failure, r', hr, hx, hr', hanswered, hmissed, htrip⟩

end Control.Controller

end HybridAccess
