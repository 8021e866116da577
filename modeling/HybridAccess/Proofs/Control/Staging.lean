/-
  HybridAccess — the broadband link without bonding.

  The broadband link is asked for only when bonding is wanted (`wanted?`), so
  that without bonding no request for it is ever pending (`Unasked`). It still
  comes up by an accept that nobody asked for: `dsl_unused_iff` says that this
  is the only way, and that frames take the broadband tunnel from then on.
-/
import HybridAccess.Proofs.Control.Hello
import HybridAccess.Proofs.Control.Renewal
import HybridAccess.Proofs.Data.Sending

namespace HybridAccess

open Message (Kind)

/-- No frame is sent over a tunnel. -/
def View.Spares (v : View) (t : Tunnel) : Prop :=
  ∀ (e : Egress) (frame : Bytes) (sent : Egress.Sent),
    (e.send frame v).1.sent? = some sent → sent.tunnel ≠ t

/-- A frame with an IPv4 packet that is no more than its first byte. -/
def Frame.tiny : Bytes := [0, 0, 8, 0, 0x45]

theorem Egress.send_tiny {v : View} (h : v.dslUp = true) : ∃ s,
    (Egress.initial.send Frame.tiny v).1.sent? = some s ∧ s.tunnel = .dsl := by
  have hsplit : Frame.split? Frame.tiny = some (Gre.ipv4Protocol, [0x45]) := by decide
  have hc := (Offer.content?_eq_some_iff (o := ⟨Frame.tiny, v⟩)).2 ⟨hsplit, by decide⟩
  have hcarrier : v.carrier? = some .dsl := if_pos h
  obtain ⟨htunnel, -⟩ := (initial.sends_send ⟨Frame.tiny, v⟩).answers.data _ _ hc (by decide)
  exact Option.map_eq_some_iff.1 (htunnel.trans hcarrier)

theorem Egress.Sends.tunnel_ne_dsl {e e' : Egress} {o : Offer} {s : Sent}
    (h : Sends e o (some s) e') (hdown : o.view.dslUp = false) : s.tunnel ≠ .dsl := by
  cases h with
  | forced => exact nofun
  | numbered _ _ hup =>
    rintro rfl
    simp [View.carrier?, hdown] at hup

theorem View.spares_dsl_iff {v : View} : v.Spares .dsl ↔ v.dslUp = false := by
  constructor
  · intro h
    by_contra hup
    obtain ⟨s, hs, hdsl⟩ := Egress.send_tiny (Bool.not_eq_false _ ▸ hup)
    exact h _ _ s hs hdsl
  · intro h e frame s hs
    have hsends := e.sends_send ⟨frame, v⟩
    rw [hs] at hsends
    exact hsends.tunnel_ne_dsl h

namespace Control

/-- No packet leaves a link waiting for an answer. -/
theorem Changes.requesting {s s' : State} {t t' : Tunnel} {k : Kind} (h : Changes s s' t' k)
    (hr : (s'.link t).status = .requesting) : (s.link t).status = .requesting := by
  cases k with
  | accept =>
    rw [h, link_updateLink] at hr
    split at hr
    · cases hr
    · cases t <;> exact hr
  | deny =>
    rcases h with rfl | ⟨-, rfl⟩
    · exact hr
    · rw [link_updateLink] at hr
      split at hr
      · cases hr
      · exact hr
  | hello =>
    rw [h, link_updateLink] at hr
    split at hr <;> exact hr
  | request => rw [h] at hr; exact hr
  | notify => rw [h] at hr; cases t <;> exact hr
  | teardown => rw [h] at hr; cases t <;> cases hr

namespace Controller

variable {c d : Controller} {answers : Answers} {now : Duration} {r : Round}

/-- Bonding is not wanted, there is no socket for the broadband link, and the link is not asked
for. -/
structure Unasked (c : Controller) : Prop where
  bonding : c.state.bonding = false
  socket : c.hasDsl = false
  status : (c.state.link .dsl).status ≠ .requesting

namespace Unasked

theorem wanted? (h : c.Unasked) : Controller.wanted? c.state ≠ some .dsl := fun hw => by
  have hb := (wanted?_eq_some hw).2 rfl
  rw [h.bonding] at hb
  cases hb

/-- Talking to the server starts no request for the broadband link. -/
theorem act (h : c.Unasked) {a : Act} (ha : a ∈ forgetDownLinks :: talking answers now) :
    (a c).controller.Unasked := by
  have htalk : Talk c (a c).effects (a c).controller := by
    rcases List.mem_cons.1 ha with rfl | ha
    · exact talk_forgetDownLinks c
    · exact talk_of_mem c answers now ha
  refine ⟨(congrArg (·.state.bonding) htalk.rest :).trans h.bonding,
    (congrArg (·.hasDsl) htalk.rest :).trans h.socket, ?_⟩
  have hleaves : Leaves .dsl a → ((a c).controller.state.link .dsl).status ≠ .requesting :=
    fun hl => by rw [(hl c).status]; exact h.status
  simp only [talking, List.mem_cons, List.not_mem_nil, or_false] at ha
  rcases ha with rfl | rfl | rfl | rfl | rfl | rfl | rfl | rfl | rfl
  · rw [link_forgetDownLinks]
    split
    · intro hr; cases hr
    · exact h.status
  · rcases controller_sendRequest c answers with hs | ⟨t, ht, hs⟩
    · rw [hs]; exact h.status
    · have hne : Tunnel.dsl ≠ t := fun he => h.wanted? (he ▸ ht)
      rw [hs, state_withState, link_updateLink, if_neg hne]
      exact h.status
  · exact hleaves leaves_acknowledgeFilters
  · exact hleaves leaves_verifyTunnel
  · exact hleaves (leaves_sendHello (by decide))
  · rw [link_sendHello, status_greeted]
    exact h.status
  · exact hleaves (leaves_demoteSilentLink (by decide))
  · rw [controller_demoteSilentLink]
    split
    · rw [state_withState, link_updateLink_self]
      intro hr; cases hr
    · exact h.status
  · exact hleaves leaves_reportBypass

theorem tick (h : c.Unasked) (ht : c.tick answers now = .ok r) : r.controller.Unasked := by
  have hacts : ∀ a ∈ forgetDownLinks :: talking answers now, ∀ d : Controller, d.Unasked →
      (a d).controller.Unasked := fun _ ha _ hd => hd.act ha
  have htalked := sequence_induction (R := fun c _ d => c.Unasked → d.Unasked) (fun _ hc => hc)
    (fun _ _ _ _ _ hd he hc => he (hd hc)) hacts c h
  rw [← talked] at htalked
  obtain ⟨-, -, hbonding, hsocket, -⟩ := tick_rest ht
  have hlink := link_tick ht .dsl
  generalize c.talked answers now = d at *
  refine ⟨hbonding.trans htalked.bonding, hsocket.trans htalked.socket, ?_⟩
  rw [hlink]
  exact htalked.status

theorem handle (h : c.Unasked) (bytes : Bytes) (source : IPv6) (now : Duration) :
    (c.handle bytes source now).Unasked := by
  have hrest := c.handle_rest bytes source now
  refine ⟨(congrArg (·.state.bonding) hrest :).trans h.bonding,
    (congrArg (·.hasDsl) hrest :).trans h.socket, fun hr => ?_⟩
  rcases c.handle_cases bytes source now with ⟨-, hc⟩ | ⟨m, -, -, -, -, hc⟩
  · rw [hc] at hr; exact h.status hr
  · rw [hc] at hr; exact h.status ((changes_apply c.state m now).requesting hr)

theorem next {k k' : Course} {i : Input} (h : k.controller.Unasked) (hk : k.next i = .ok k') :
    k'.controller.Unasked := by
  cases i with
  | packet bytes source now => cases hk; exact h.handle bytes source now
  | stop => cases hk; exact ⟨h.bonding, h.socket, h.status⟩
  | round answers now =>
    obtain ⟨r, hr, rfl⟩ := Course.next_round_eq_ok.1 hk
    exact h.tick hr

end Unasked

/-! ## Courses -/

/-- **Without bonding and an end point for it, the broadband link is never asked for; and it stays
down, and no frame is sent over its tunnel, just as long as no packet is acted on as an accept for
it.** -/
theorem dsl_unused_iff (config : Config) (lte : IPv6) (helper4 helper6 : Bool)
    (inputs : List Input) (hbonding : config.bonding = false) :
    let c := initial config lte none helper4 helper6
    (∀ pre k, pre <+: inputs → c.run pre = .ok k →
      k.controller.hasDsl = false ∧ k.controller.state.dsl.status ≠ .requesting) ∧
    ((∀ pre k, pre <+: inputs → c.run pre = .ok k →
        k.controller.state.dsl.isEstablished = false ∧ k.controller.view.dslUp = false ∧
          k.controller.view.Spares .dsl) ↔
      ∀ pre bytes source now k, pre ++ [.packet bytes source now] <+: inputs → c.run pre = .ok k →
        ¬ k.controller.Accepts bytes source now .dsl) := by
  intro c
  refine ⟨fun pre k _ hk => ?_, ?_⟩
  · have hunasked : k.controller.Unasked :=
      Course.follow_invariant (P := fun k => k.controller.Unasked) (fun _ _ _ _ h hk => h.next hk)
        ⟨hbonding, rfl, fun hr => by cases hr⟩ hk
    exact ⟨hunasked.socket, hunasked.status⟩
  · rw [← never_established_iff (c := c) (t := .dsl) rfl]
    refine forall_congr' fun pre => forall_congr' fun k => forall_congr' fun _ =>
      forall_congr' fun _ => ?_
    exact ⟨fun h => h.1, fun h => ⟨h, h, View.spares_dsl_iff.2 h⟩⟩

/-- An accept of the cellular link alone leaves the broadband link unused. -/
theorem dsl_unused_behind_acceptance : Config.default.bonding = false ∧
    ∃ k, (initial .default .unspecified none false false).run
      [.packet acceptance Config.default.anycast .zero] = .ok k ∧
      k.controller.state.lte.isEstablished = true ∧ k.controller.view.Spares .dsl := by
  refine ⟨rfl, ⟨_, []⟩, rfl, by decide +kernel, ?_⟩
  refine ((dsl_unused_iff .default .unspecified false false
    [.packet acceptance Config.default.anycast .zero] rfl).2.2 ?_ _ _ (List.prefix_refl _) rfl).2.2
  rintro pre bytes source now k hpre - ⟨-, m, hm, hdsl⟩
  cases List.mem_singleton.1 (hpre.subset (List.mem_append_right pre List.mem_cons_self))
  rw [decode_acceptance] at hm
  cases hm
  cases hdsl

/-- An accept of the broadband link that carries no attribute. -/
def dslAcceptance : Bytes := [0x20, 0, 1, 1, 0, 0, 0, 7, 0x28]

/-- Without bonding, an accept that nobody asked for makes frames take a tunnel that there is no
socket for. -/
theorem dsl_used_without_bonding : Config.default.bonding = false ∧
    ∃ k, (initial .default .unspecified none false false).run
      [.packet acceptance Config.default.anycast .zero,
        .packet dslAcceptance Config.default.anycast .zero] = .ok k ∧
      k.controller.hasDsl = false ∧ k.controller.state.dsl.isEstablished = true ∧
      k.controller.view.dslUp = true ∧
      ((Egress.initial.send Frame.tiny k.controller.view).1.sent?.map (·.tunnel)) = some .dsl :=
  ⟨by decide, _, rfl, by decide +kernel, by decide +kernel, by decide +kernel, by decide +kernel⟩

end Controller

end Control

end HybridAccess
