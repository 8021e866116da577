/-
  HybridAccess — hellos in a round.

  A hello is due over a link that is established when the time for it has come
  (`HelloDue`). A round sends the hellos that are due and no others
  (`exists_isHello_iff`). `greet` is what a hello does to the link. `alike_tick`
  gives an established link after a round: greeted if a hello was due, then
  reset if too many hellos stayed unanswered.
-/
import HybridAccess.Proofs.Control.Errands

namespace HybridAccess

open Message (Stamp)

namespace Link

/-- A link over which a hello is sent. The hello before counts as missed unless it is the one that
was answered last. -/
def greet (l : Link) (now : Duration) : Link :=
  { l with
    missed := if l.helloAnswered = l.helloSent then l.missed else l.missed + 1
    helloSent := (Stamp.ofUptime now).toDuration }

theorem status_greet (l : Link) (now : Duration) : (l.greet now).status = l.status := by rw [greet]

theorem verify_greet (l : Link) (now : Duration) : (l.greet now).verify = l.verify := by rw [greet]

theorem helloAnswered_greet (l : Link) (now : Duration) :
    (l.greet now).helloAnswered = l.helloAnswered := by
  rw [greet]

theorem status_reset (l : Link) : l.reset.status = .down := rfl

/-- Links that differ at most in the wish to know that the tunnel works and in the last report of
bypass traffic. -/
def Alike (l l' : Link) : Prop := ∃ v b, l' = { l with verify := v, bypassSent := b }

namespace Alike

variable {l l' l'' : Link}

theorem refl (l : Link) : l.Alike l := ⟨_, _, rfl⟩

theorem trans (h : l.Alike l') (h' : l'.Alike l'') : l.Alike l'' := by
  obtain ⟨_, _, rfl⟩ := h
  obtain ⟨_, _, rfl⟩ := h'
  exact ⟨_, _, rfl⟩

theorem greet (h : l.Alike l') (now : Duration) : (l.greet now).Alike (l'.greet now) := by
  obtain ⟨_, _, rfl⟩ := h
  exact ⟨_, _, rfl⟩

theorem reset (h : l.Alike l') : l.reset.Alike l'.reset := by
  obtain ⟨_, _, rfl⟩ := h
  exact ⟨_, _, rfl⟩

theorem status (h : l.Alike l') : l'.status = l.status := by obtain ⟨_, _, rfl⟩ := h; rfl

theorem isEstablished (h : l.Alike l') : l'.isEstablished = l.isEstablished := by
  obtain ⟨_, _, rfl⟩ := h; rfl

theorem missed (h : l.Alike l') : l'.missed = l.missed := by obtain ⟨_, _, rfl⟩ := h; rfl

theorem helloSent (h : l.Alike l') : l'.helloSent = l.helloSent := by obtain ⟨_, _, rfl⟩ := h; rfl

theorem helloAnswered (h : l.Alike l') : l'.helloAnswered = l.helloAnswered := by
  obtain ⟨_, _, rfl⟩ := h; rfl

end Alike

end Link

namespace Control.Controller

variable {c d : Controller} {answers : Answers} {now : Duration} {r : Round} {t : Tunnel}
  {es : List Effect}

/-- The link is established and the time for a hello has come. -/
def HelloDue (c : Controller) (now : Duration) (t : Tunnel) : Prop :=
  (c.state.link t).isEstablished = true ∧
    c.state.session.helloPeriod ≤ now.since (c.state.link t).helloSent

instance (c : Controller) (now : Duration) (t : Tunnel) : Decidable (c.HelloDue now t) :=
  inferInstanceAs (Decidable (_ ∧ _))

/-- The link when the hellos of a round have been sent. -/
def greeted (c : Controller) (now : Duration) (t : Tunnel) : Link :=
  if c.HelloDue now t then (c.state.link t).greet now else c.state.link t

theorem status_greeted (c : Controller) (now : Duration) (t : Tunnel) :
    (c.greeted now t).status = (c.state.link t).status := by
  rw [greeted]
  split
  · exact Link.status_greet _ now
  · rfl

theorem isEstablished_greeted (c : Controller) (now : Duration) (t : Tunnel) :
    (c.greeted now t).isEstablished = (c.state.link t).isEstablished := by
  rw [Link.isEstablished, status_greeted, Link.isEstablished]

theorem helloAnswered_greeted (c : Controller) (now : Duration) (t : Tunnel) :
    (c.greeted now t).helloAnswered = (c.state.link t).helloAnswered := by
  rw [greeted]
  split
  · exact Link.helloAnswered_greet _ now
  · rfl

/-! ## Acts that leave a link alone -/

/-- An act that leaves what counts of a link as it is. -/
def Leaves (t : Tunnel) (a : Act) : Prop :=
  ∀ c : Controller, (c.state.link t).Alike ((a c).controller.state.link t)

theorem leaves_sequence {as : List Act} (h : ∀ a ∈ as, Leaves t a) : Leaves t (sequence as) :=
  sequence_induction (R := fun c _ d => (c.state.link t).Alike (d.state.link t))
    (fun _ => .refl _) (fun _ _ _ _ _ h h' => h.trans h') h

theorem leaves_updateLink {t' : Tunnel} (h : t ≠ t') (s : State) (f : Link → Link) :
    (s.link t).Alike ((s.updateLink t' f).link t) := by
  rw [link_updateLink, if_neg h]
  exact .refl _

theorem leaves_acknowledgeFilters : Leaves t (acknowledgeFilters answers) := by
  intro c
  unfold acknowledgeFilters
  dsimp only
  split
  · exact .refl _
  · cases t <;> exact .refl _

theorem leaves_verifyTunnel : Leaves t (verifyTunnel answers) := by
  intro c
  unfold verifyTunnel
  dsimp only
  split
  · exact .refl _
  · split <;> cases t <;> exact ⟨_, _, rfl⟩

theorem leaves_reportBypass : Leaves t (reportBypass answers now) := by
  intro c
  unfold reportBypass
  dsimp only
  split
  · exact .refl _
  · cases t <;> exact ⟨_, _, rfl⟩

section
variable (c : Controller) (answers : Answers) (now : Duration) (t : Tunnel)

theorem helloDue_iff : c.HelloDue now t ↔ ¬ ((! (c.state.link t).isEstablished) = true ∨
    now.since (c.state.link t).helloSent < c.state.session.helloPeriod) := by
  rw [not_or, Duration.not_lt, HelloDue]
  simp

theorem controller_sendHello : (sendHello answers now t c).controller =
    if c.HelloDue now t then c.withState (c.state.updateLink t (·.greet now)) else c := by
  unfold sendHello
  dsimp only
  by_cases h : c.HelloDue now t
  · rw [if_neg ((helloDue_iff c now t).1 h), if_pos h]
    exact congrArg c.withState (updateLink_congr rfl)
  · rw [if_pos (not_not.1 fun hn => h ((helloDue_iff c now t).2 hn)), if_neg h]
    rfl

theorem link_sendHello : (sendHello answers now t c).controller.state.link t = c.greeted now t := by
  rw [controller_sendHello, greeted]
  split
  · rw [state_withState, link_updateLink_self]
  · rfl

theorem effects_sendHello (h : c.HelloDue now t) :
    (c.send answers (hello c.state.session t (Stamp.ofUptime now))).2 ⊆
      (sendHello answers now t c).effects := by
  unfold sendHello
  dsimp only
  rw [if_neg ((helloDue_iff c now t).1 h)]
  exact List.subset_append_right _ _

theorem controller_demoteSilentLink : (demoteSilentLink t c).controller =
    if (c.state.link t).isEstablished = true ∧ c.state.session.retryLimit ≤ (c.state.link t).missed
    then c.withState (c.state.updateLink t Link.reset) else c := by
  unfold demoteSilentLink
  dsimp only
  split <;> rfl

end

theorem leaves_sendHello {t' : Tunnel} (h : t ≠ t') : Leaves t (sendHello answers now t') := by
  intro c
  rw [controller_sendHello]
  split
  · exact leaves_updateLink h _ _
  · exact .refl _

theorem leaves_demoteSilentLink {t' : Tunnel} (h : t ≠ t') : Leaves t (demoteSilentLink t') := by
  intro c
  rw [controller_demoteSilentLink]
  split
  · exact leaves_updateLink h _ _
  · exact .refl _

/-! ## Acts that send no hello -/

/-- An act that sends no hello over a link. -/
def Quiet (t : Tunnel) (a : Act) : Prop := ∀ c, ∀ e ∈ (a c).effects, ¬ e.IsHello t

theorem Tacit.quiet {a : Act} (h : Tacit a) : Quiet t a := fun c e he hello => by
  have hpost := hello.isTransmit.isPost
  rw [h c e he] at hpost
  cases hpost

/-- Whether a message is a hello over a link. -/
def isHello (t : Tunnel) (m : Message) : Bool := m.kind = .hello ∧ m.tunnel = t

theorem Errand.Mails.quiet {x : Errand} (h : x.Mails answers) (ha : x.Avoids (isHello t)) :
    Quiet t x.act := by
  intro c e he hello
  obtain ⟨m, hm, hc⟩ := h.carries he hello.isTransmit
  exact of_decide_eq_false (ha c m hm) (hc.isHello_iff.1 hello).symm

theorem quiet_sequence {as : List Act} (h : ∀ a ∈ as, Quiet t a) : Quiet t (sequence as) :=
  sequence_induction (R := fun _ es _ => ∀ e ∈ es, ¬ e.IsHello t)
    (fun _ _ he => absurd he List.not_mem_nil)
    (fun _ _ _ _ _ h h' e he => (List.mem_append.1 he).elim (h e) (h' e)) h

/-- Greet the server over a tunnel when it is time. -/
def greeting (answers : Answers) (now : Duration) (t : Tunnel) : Errand :=
  ⟨sendHello answers now t, due (HelloDue · now t) fun c =>
    hello c.state.session t (Stamp.ofUptime now)⟩

theorem mails_greeting (answers : Answers) (now : Duration) (t : Tunnel) :
    (greeting answers now t).Mails answers := by
  intro c
  simp only [greeting, sendHello, due]
  by_cases h : c.HelloDue now t
  · rw [if_neg ((helloDue_iff c now t).1 h), if_pos h]
    -- a notice about a hello that stayed unanswered comes first, and is not about sending
    dsimp only
    rw [posts_append]
    split <;> simpa [posts, Effect.isPost] using posts_send c answers _
  · rw [if_pos (not_not.1 fun hn => h ((helloDue_iff c now t).2 hn)), if_neg h]
    rfl

theorem quiet_acknowledgeFilters : Quiet t (acknowledgeFilters answers) :=
  (mails_acknowledging answers).quiet (avoids_of_due fun _ => rfl)

theorem quiet_verifyTunnel : Quiet t (verifyTunnel answers) :=
  (mails_verifying answers).quiet (avoids_of_due fun _ => rfl)

theorem quiet_reportBypass : Quiet t (reportBypass answers now) :=
  (mails_reporting answers now).quiet (avoids_of_due fun _ => rfl)

theorem quiet_sendRequest : Quiet t (sendRequest answers) :=
  (mails_asking answers).quiet (avoids_asking fun _ _ _ => rfl)

theorem avoids_greeting {t' : Tunnel} (h : t ≠ t') :
    (greeting answers now t').Avoids (isHello t) :=
  avoids_of_due fun _ => by simpa [isHello, hello, outbound] using h.symm

theorem quiet_sendHello {t' : Tunnel} (h : t ≠ t') : Quiet t (sendHello answers now t') :=
  (mails_greeting answers now t').quiet (avoids_greeting h)

theorem quiet_takeLeave : Quiet t (takeLeave answers) := by
  have hfailing : ∀ t', Quiet t (reportFailure answers t') := fun t' =>
    (mails_failing answers t').quiet fun _ _ hm => by cases hm; rfl
  intro c
  unfold takeLeave
  split
  · exact quiet_sequence (List.forall_mem_cons.2
      ⟨hfailing .lte, List.forall_mem_singleton.2 (hfailing .dsl)⟩) c
  · split
    · exact List.forall_mem_singleton.2 id
    · exact tacit_idle.quiet c

/-- An act that has nothing to do with the hellos over a link. -/
def Apart (t : Tunnel) (a : Act) : Prop := Leaves t a ∧ Quiet t a

/-! ## The opening of a round -/

theorem wanted?_eq_some {s : State} (h : wanted? s = some t) :
    (s.link t).isEstablished = false ∧ (t = .dsl → s.bonding = true) := by
  unfold wanted? at h
  split at h
  · next hlte =>
    cases h
    exact ⟨by simpa [State.link] using hlte, fun ht => by cases ht⟩
  · split at h
    · next hdsl =>
      cases h
      exact ⟨by simpa [State.link] using hdsl.2, fun _ => hdsl.1⟩
    · cases h

theorem controller_sendRequest (c : Controller) (answers : Answers) :
    (sendRequest answers c).controller = c ∨
    ∃ t, wanted? c.state = some t ∧ (sendRequest answers c).controller =
      c.withState (c.state.updateLink t fun l => { l with status := .requesting }) := by
  unfold sendRequest
  split
  · exact Or.inl rfl
  · next t ht =>
    dsimp only
    split
    · exact Or.inr ⟨t, ht, rfl⟩
    · exact Or.inl rfl

/-- Nothing that comes before the hellos touches an established link. -/
theorem link_opening (h : (c.state.link t).isEstablished = true) (answers : Answers) :
    (sequence [forgetDownLinks, sendRequest answers] c).controller.state.link t =
      c.state.link t := by
  have hup : (c.state.link t).status = .established := by simpa [Link.isEstablished] using h
  have hforget : (forgetDownLinks c).controller.state.link t = c.state.link t := by
    rw [link_forgetDownLinks, if_neg fun hd => by rw [hup] at hd; cases hd.1]
  refine Eq.trans ?_ hforget
  rw [← hforget] at h
  generalize hd : (forgetDownLinks c).controller = d at h
  simp only [sequence, hd]
  rcases controller_sendRequest d answers with hs | ⟨t', ht', hs⟩
  · rw [hs]
  · have hne : t ≠ t' := by
      rintro rfl
      rw [(wanted?_eq_some ht').1] at h
      cases h
    rw [hs, state_withState, link_updateLink, if_neg hne]

/-! ## A whole round -/

/-- The acts around the hello of a link and the look at its silence. -/
theorem exists_split (answers : Answers) (now : Duration) (t : Tunnel) :
    ∃ before between behind : List Act,
      talking answers now = sendRequest answers ::
        before ++ (sendHello answers now t :: between ++ demoteSilentLink t :: behind) ∧
      (∀ a ∈ before, Apart t a) ∧ (∀ a ∈ between, Apart t a) ∧ ∀ a ∈ behind, Apart t a := by
  have hpre : ∀ a ∈ [acknowledgeFilters answers, verifyTunnel answers], Apart t a :=
    List.forall_mem_cons.2 ⟨⟨leaves_acknowledgeFilters, quiet_acknowledgeFilters⟩,
      List.forall_mem_singleton.2 ⟨leaves_verifyTunnel, quiet_verifyTunnel⟩⟩
  have hhello : ∀ t', t ≠ t' → Apart t (sendHello answers now t') := fun _ h =>
    ⟨leaves_sendHello h, quiet_sendHello h⟩
  have hdemote : ∀ t', t ≠ t' → Apart t (demoteSilentLink t') := fun _ h =>
    ⟨leaves_demoteSilentLink h, tacit_demoteSilentLink.quiet⟩
  have hreport : Apart t (reportBypass answers now) := ⟨leaves_reportBypass, quiet_reportBypass⟩
  cases t with
  | lte =>
    refine ⟨_, [sendHello answers now .dsl], [demoteSilentLink .dsl, reportBypass answers now],
      rfl, hpre, List.forall_mem_singleton.2 (hhello .dsl (by decide)), ?_⟩
    exact List.forall_mem_cons.2 ⟨hdemote .dsl (by decide), List.forall_mem_singleton.2 hreport⟩
  | dsl =>
    refine ⟨[acknowledgeFilters answers, verifyTunnel answers] ++ [sendHello answers now .lte],
      [demoteSilentLink .lte], [reportBypass answers now], rfl, ?_,
      List.forall_mem_singleton.2 (hdemote .lte (by decide)), List.forall_mem_singleton.2 hreport⟩
    exact List.forall_mem_append.2
      ⟨hpre, List.forall_mem_singleton.2 (hhello .lte (by decide))⟩

theorem talk_sequence {as : List Act} (h : as ⊆ forgetDownLinks :: talking answers now)
    (c : Controller) : Talk c (sequence as c).effects (sequence as c).controller := by
  refine sequence_induction Talk.refl Talk.trans (fun a ha d => ?_) c
  rcases List.mem_cons.1 (h ha) with rfl | ha
  · exact talk_forgetDownLinks d
  · exact talk_of_mem d answers now ha

theorem Talk.session (h : Talk c es d) : d.state.session =
    { c.state.session with filterAcked := d.state.session.filterAcked } :=
  (congrArg (·.state.session) h.rest :)

theorem Talk.helloDue_iff (h : Talk c es d) (hl : (c.state.link t).Alike (d.state.link t)) :
    d.HelloDue now t ↔ c.HelloDue now t := by
  rw [HelloDue, HelloDue, hl.isEstablished, hl.helloSent, h.session]
  rfl

theorem Talk.greeted (h : Talk c es d) (hl : (c.state.link t).Alike (d.state.link t))
    (now : Duration) : (c.greeted now t).Alike (d.greeted now t) := by
  rw [Controller.greeted, Controller.greeted]
  simp only [h.helloDue_iff hl]
  split
  · exact hl.greet now
  · exact hl

/-- The controller when it comes to the hello of a link, and when it comes to the look at its
silence. -/
structure Passes (c : Controller) (answers : Answers) (now : Duration) (t : Tunnel)
    (d e : Controller) : Prop where
  talk : ∃ es, Talk c es d
  talk' : ∃ es, Talk c es e
  sent : (sendHello answers now t d).effects ⊆
    (sequence (forgetDownLinks :: talking answers now) c).effects
  only : ∀ x ∈ (sequence (forgetDownLinks :: talking answers now) c).effects, x.IsHello t →
    x ∈ (sendHello answers now t d).effects
  link : (c.state.link t).isEstablished = true → (c.state.link t).Alike (d.state.link t)
  greeted : (c.state.link t).isEstablished = true → (c.greeted now t).Alike (e.state.link t)
  demoted : ((demoteSilentLink t e).controller.state.link t).Alike
    ((c.talked answers now).state.link t)

theorem exists_passes (c : Controller) (answers : Answers) (now : Duration) (t : Tunnel) :
    ∃ d e, Passes c answers now t d e := by
  obtain ⟨before, between, behind, hsplit, hbefore, hbetween, hbehind⟩ :=
    exists_split answers now t
  have hacts : forgetDownLinks :: talking answers now =
      [forgetDownLinks, sendRequest answers] ++ before ++
        ((sendHello answers now t :: between) ++ (demoteSilentLink t :: behind)) := by
    rw [hsplit]; rfl
  generalize hfirst : [forgetDownLinks, sendRequest answers] ++ before = first at hacts
  have hquiet : Quiet t (sequence first) := by
    rw [← hfirst]
    refine quiet_sequence (List.forall_mem_append.2 ⟨List.forall_mem_cons.2
      ⟨tacit_forgetDownLinks.quiet, List.forall_mem_singleton.2 quiet_sendRequest⟩,
      fun a ha => (hbefore a ha).2⟩)
  -- up to the hello
  have htalk : Talk c _ (sequence first c).controller :=
    talk_sequence (by rw [hacts]; exact List.subset_append_left _ _) c
  have hlink : (c.state.link t).isEstablished = true →
      (c.state.link t).Alike ((sequence first c).controller.state.link t) := by
    intro h
    rw [← hfirst, sequence_append]
    have hopen := link_opening h answers
    generalize (sequence [forgetDownLinks, sendRequest answers] c).controller = d at hopen ⊢
    exact hopen ▸ leaves_sequence (fun a ha => (hbefore a ha).1) d
  -- from the hello to the look at the link
  have htalk' : Talk c _ (sequence (first ++ (sendHello answers now t :: between)) c).controller :=
    talk_sequence (by rw [hacts, ← List.append_assoc]; exact List.subset_append_left _ _) c
  refine ⟨_, _, ⟨_, htalk⟩, ⟨_, htalk'⟩, ?_, ?_, hlink, fun h => ?_, ?_⟩
  · rw [hacts, sequence_append, sequence_append, sequence_cons]
    exact List.Subset.trans (List.subset_append_left _ _) (List.Subset.trans
      (List.subset_append_left _ _) (List.subset_append_right _ _))
  · intro x hx hello
    rw [hacts, sequence_append, sequence_append, sequence_cons, sequence_cons] at hx
    simp only [List.mem_append] at hx
    rcases hx with hx | (hx | hx) | hx | hx
    · exact absurd hello (hquiet _ x hx)
    · exact hx
    · exact absurd hello (quiet_sequence (fun a ha => (hbetween a ha).2) _ x hx)
    · exact absurd hello (tacit_demoteSilentLink.quiet _ x hx)
    · exact absurd hello (quiet_sequence (fun a ha => (hbehind a ha).2) _ x hx)
  · rw [sequence_append, sequence_cons]
    have hgreeted := htalk.greeted (hlink h) now
    generalize (sequence first c).controller = d at hgreeted ⊢
    rw [← link_sendHello d answers now t] at hgreeted
    exact hgreeted.trans (leaves_sequence (fun a ha => (hbetween a ha).1) _)
  · rw [talked, hacts, ← List.append_assoc, sequence_append (first ++ _), sequence_cons]
    exact leaves_sequence (fun a ha => (hbehind a ha).1) _

/-- **A round greets an established link if a hello is due, and gives it up if too many hellos
stayed unanswered.** -/
theorem alike_tick (h : (c.state.link t).isEstablished = true) (ht : c.tick answers now = .ok r) :
    (if c.state.session.retryLimit ≤ (c.greeted now t).missed then (c.greeted now t).reset
      else c.greeted now t).Alike (r.controller.state.link t) := by
  obtain ⟨_, d, hpasses⟩ := exists_passes c answers now t
  obtain ⟨_, htalk⟩ := hpasses.talk'
  have hgreeted := hpasses.greeted h
  have hdemoted := hpasses.demoted
  have hup : (d.state.link t).isEstablished = true := by
    rw [hgreeted.isEstablished, isEstablished_greeted, h]
  have hlimit : d.state.session.retryLimit = c.state.session.retryLimit := by
    rw [htalk.session]; rfl
  rw [controller_demoteSilentLink, hlimit, hgreeted.missed] at hdemoted
  rw [link_tick ht t]
  refine Link.Alike.trans ?_ hdemoted
  split
  · next hn =>
    rw [if_pos ⟨hup, hn⟩, state_withState, link_updateLink_self]
    exact hgreeted.reset
  · next hn =>
    rw [if_neg fun hd => hn hd.2]
    exact hgreeted

theorem alike_greeted (ht : c.tick answers now = .ok r)
    (hup : (r.controller.state.link t).isEstablished = true) :
    (c.greeted now t).Alike (r.controller.state.link t) := by
  have hlink := alike_tick (established_tick ht hup) ht
  split at hlink
  · rw [hlink.isEstablished] at hup
    cases hup
  · exact hlink

/-- **A hello that is due is sent, or it is logged why it is not.** -/
theorem sends_hello (h : c.HelloDue now t) (ht : c.tick answers now = .ok r) :
    (c.send answers (hello c.state.session t (Stamp.ofUptime now))).2 ⊆ r.effects := by
  obtain ⟨d, _, hpasses⟩ := exists_passes c answers now t
  obtain ⟨_, htalk⟩ := hpasses.talk
  have hsend : d.send answers (hello d.state.session t (Stamp.ofUptime now)) =
      c.send answers (hello c.state.session t (Stamp.ofUptime now)) := by
    rw [htalk.rest]; rfl
  have hd := effects_sendHello d answers now t ((htalk.helloDue_iff (hpasses.link h.1)).2 h)
  rw [hsend] at hd
  exact List.Subset.trans hd (List.Subset.trans hpasses.sent (effects_tick ht))

/-- No hello is sent that is not due. -/
theorem mem_send_of_isHello (ht : c.tick answers now = .ok r) {x : Effect} (hx : x ∈ r.effects)
    (hello : x.IsHello t) : c.HelloDue now t ∧
      x ∈ (c.send answers (Control.hello c.state.session t (Stamp.ofUptime now))).2 := by
  have htalked := (transmit_tick ht hx hello.isTransmit).resolve_right fun hleave =>
    quiet_takeLeave _ x hleave hello
  obtain ⟨d, _, hpasses⟩ := exists_passes c answers now t
  obtain ⟨_, htalk⟩ := hpasses.talk
  obtain ⟨_, hm, hsend⟩ :=
    (mails_greeting answers now t).mem_send (hpasses.only x htalked hello) hello.isTransmit
  rw [greeting] at hm
  dsimp only at hm
  obtain ⟨hdue, rfl⟩ := due_eq_some.1 hm
  refine ⟨(htalk.helloDue_iff (hpasses.link ((htalk.link t).established hdue.1))).1 hdue, ?_⟩
  rw [htalk.rest] at hsend
  exact hsend

theorem helloDue_of_isHello (ht : c.tick answers now = .ok r) {x : Effect} (hx : x ∈ r.effects)
    (hello : x.IsHello t) : c.HelloDue now t ∧
      c.Carries (Control.hello c.state.session t (Stamp.ofUptime now)) x := by
  obtain ⟨hdue, hsend⟩ := mem_send_of_isHello ht hx hello
  exact ⟨hdue, carries_of_send hsend hello.isTransmit⟩

/-- **Over a link with a socket, a round sends a hello just if one is due.** -/
theorem exists_isHello_iff (hsocket : t = .dsl → c.hasDsl = true)
    (ht : c.tick answers now = .ok r) :
    (∃ x ∈ r.effects, x.IsHello t) ↔ c.HelloDue now t := by
  constructor
  · rintro ⟨x, hx, hello⟩
    exact (helloDue_of_isHello ht hx hello).1
  · intro h
    obtain ⟨x, hx, hcarries⟩ := exists_carries (c := c)
      (m := hello c.state.session t (Stamp.ofUptime now)) rfl hsocket answers
    exact ⟨x, sends_hello h ht hx, hcarries.isHello_iff.2 ⟨rfl, rfl⟩⟩

end Control.Controller

end HybridAccess
