/-
  HybridAccess — what the server is owed.

  Along a history an answer that a notify asks for stays owed until a round
  delivers it, it is asked for anew, or session or link are reset, and it counts
  as given only if a round has delivered it. A round tries each answer that it
  owes once (`acknowledgements_tick`, `verifications_tick`). Main statement:
  `answers_owed`.
-/
import HybridAccess.Proofs.Control.History
import HybridAccess.Proofs.Control.Honours
import HybridAccess.Proofs.Control.Letters

namespace HybridAccess.Control

open Message (Attribute Kind)

/-- Whether a message has an attribute of a kind. -/
def mentions (id : UInt8) (m : Message) : Bool := m.attributes.any (·.id = id)

/-- A request has no attributes but these. -/
theorem mentions_request (s : Session) (t : Tunnel) (name : Bytes) {id : UInt8}
    (h : id ∉ [Attribute.clientName, Attribute.sessionId, Attribute.padding]) :
    mentions id (request s t name) = false := by
  simp only [List.mem_cons, List.not_mem_nil, or_false, not_or, ← ne_eq] at h
  obtain ⟨hname, hid, hpad⟩ := h
  have hids : ∀ a ∈ (request s t name).attributes,
      a.id = Attribute.clientName ∨ a.id = Attribute.sessionId ∨ a.id = Attribute.padding := by
    intro a ha
    simp only [request, outbound, List.mem_append, List.mem_singleton] at ha
    rcases ha with (ha | ha) | rfl
    · split at ha
      · exact Or.inl (by rw [List.mem_singleton.1 ha])
      · exact absurd ha List.not_mem_nil
    · split at ha
      · exact absurd ha List.not_mem_nil
      · exact Or.inr (Or.inl (by rw [List.mem_singleton.1 ha]; rfl))
    · exact Or.inr (Or.inr rfl)
  refine List.any_eq_false.2 fun a ha hid' => ?_
  rcases hids a ha with h | h | h <;> rw [of_decide_eq_true hid'] at h <;> contradiction

/-- The packet of a message that has an attribute is handed to a link. -/
def Effect.brings (id : UInt8) : Effect → Bool
  | transmit _ packet .. => (Message.decode packet).toOption.any (mentions id)
  | _ => false

theorem Effect.isTransmit_of_brings {id : UInt8} {e : Effect} (h : e.brings id = true) :
    e.IsTransmit := by
  cases e <;> trivial

namespace Controller

variable {c d : Controller} {answers : Answers} {now : Duration} {r : Round} {m : Message}

/-! ## Steps -/

namespace Step

/-- The numbers of the lists of filters in the notify of a step. -/
def listed (s : Step) : List UInt32 := Control.listed (s.attributes .notify)

/-- Whether a step takes note of a list of filters. -/
def lists (s : Step) : Bool := ! s.listed.isEmpty

/-- Whether the notify of a step asks for a verification of the tunnel. -/
def demands (s : Step) : Bool := Control.demands (s.attributes .notify)

/-- The packet of a message is handed to the established cellular link, for the server, and the link
takes it. -/
def Delivers (s : Step) (m : Message) : Prop :=
  s.before.state.lte.isEstablished = true ∧ s.before.Delivers s.effects m

/-- The cellular link is reset: a round finds it down with something to remember, or gives it up. -/
def ResetsLte : Step → Prop
  | round c _ _ r _ => c.state.lte.status = .down ∧ c.state.lte.isPristine = false ∨
    c.state.lte.isEstablished = true ∧ r.controller.state.lte.isEstablished = false
  | packet .. | stop _ => False

/-- What a packet makes of the answers that are owed. -/
theorem owed_packet (c : Controller) (bytes : Bytes) (source : IPv6) (now : Duration) :
    let s := packet c bytes source now
    s.after.state.session.filterCount = lastOr c.state.session.filterCount s.listed ∧
    s.after.state.session.filterAcked = (c.state.session.filterAcked && s.listed.isEmpty) ∧
    s.after.state.lte.verify = (c.state.lte.verify || s.demands) := by
  intro s
  rcases packet_cases c bytes source now with ⟨hm, hc⟩ | ⟨m, hm, hc⟩
  · simp only [s, listed, demands, attributes_of_none hm, hc]
    exact ⟨rfl, (Bool.and_true _).symm, (Bool.or_false _).symm⟩
  · simp only [s, listed, demands, attributes_of_some hm, hc]
    by_cases hk : m.kind = .notify
    · have happly : apply c.state m now = notified c.state m.attributes := by
        rw [← foldl_notifyAttribute_eq, apply, hk]
      rw [if_pos hk, happly]
      exact ⟨rfl, rfl, rfl⟩
    · obtain ⟨hcount, hacked, hverify⟩ := (changes_apply c.state m now).owed hk
      rw [if_neg hk, state_withState, hcount, hacked, hverify]
      exact ⟨rfl, (Bool.and_true _).symm, (Bool.or_false _).symm⟩

/-- Only a list of filters and a new session change the number of the last list. -/
theorem filterCount (s : Step) (h : s.renews = false) : s.after.state.session.filterCount =
    lastOr s.before.state.session.filterCount s.listed := by
  cases s with
  | packet c bytes source now => exact (owed_packet c bytes source now).1
  | stop c => rfl
  | round c answers now r possible =>
    rw [renews_round, Bool.not_eq_false'] at h
    have hs := session_tick possible
    rw [if_pos h] at hs
    exact (congrArg Session.filterCount hs :)

/-- A list of filters counts as acknowledged only if it did so before or a round has delivered the
acknowledgement. -/
theorem filterAcked (s : Step) (h : s.after.state.session.filterAcked = true) :
    s.lists = false ∧ s.renews = false ∧ (s.before.state.session.filterAcked = true ∨
      s.before.state.session.filterCount ≠ 0 ∧ s.Delivers (acknowledgement
        s.before.state.session.key s.before.state.session.filterCount)) := by
  cases s with
  | packet c bytes source now =>
    rw [(owed_packet c bytes source now).2.1, Bool.and_eq_true] at h
    exact ⟨by rw [lists, h.2]; rfl, rfl, Or.inl h.1⟩
  | stop c => exact ⟨rfl, rfl, Or.inl h⟩
  | round c answers now r possible =>
    obtain ⟨-, -, -, -, hs⟩ := tick_rest possible
    cases hup : (c.talked answers now).state.anyUp with
    | false =>
      have hreset : r.controller.state.session.filterAcked = false := by rw [hs, hup]; rfl
      cases hreset.symm.trans h
    | true =>
      rw [hup, if_pos rfl] at hs
      refine ⟨rfl, by rw [renews, hup]; rfl, ?_⟩
      rcases (honours_talked c answers now).acked (hs ▸ h) with hacked | ⟨hlte, hcount, hsent⟩
      · exact Or.inl hacked
      · exact Or.inr ⟨hcount, hlte, hsent.mono (effects_tick possible)⟩

/-- The verification of the tunnel stays owed until it is delivered or the link is reset. -/
theorem verify (s : Step) (h : s.before.state.lte.verify = true) :
    s.after.state.lte.verify = true ∨
      s.Delivers (verification s.before.state.session.key) ∨ s.ResetsLte := by
  cases s with
  | packet c bytes source now =>
    refine Or.inl ((owed_packet c bytes source now).2.2.trans ?_)
    rw [show c.state.lte.verify = true from h, Bool.true_or]
  | stop c => exact Or.inl h
  | round c answers now r possible =>
    obtain ⟨hlte, -⟩ := tick_rest possible
    have hhonours := honours_talked c answers now
    -- a link that owes something is not pristine
    have howing : c.state.lte.isPristine = false := by
      simp [Link.isPristine, show c.state.lte.verify = true from h]
    have hsub := effects_tick possible
    generalize c.talked answers now = d at hlte hhonours
    generalize (sequence (forgetDownLinks :: talking answers now) c).effects = es at hhonours hsub
    rcases hhonours.verify h with hv | ⟨hup, hsent⟩ | hd | ⟨hup, hdown⟩
    · exact Or.inl ((congrArg Link.verify hlte).trans hv)
    · exact Or.inr (Or.inl ⟨hup, hsent.mono hsub⟩)
    · exact Or.inr (Or.inr (Or.inl ⟨hd, howing⟩))
    · exact Or.inr (Or.inr (Or.inr ⟨hup, (congrArg Link.isEstablished hlte).trans hdown⟩))

theorem listed_of_lists {s : Step} (h : s.lists = true) : s.listed ≠ [] := by
  simpa [lists] using h

theorem listed_of_not_lists {s : Step} (h : s.lists = false) : s.listed = [] := by
  simpa [lists] using h

/-- A list of filters is owed an acknowledgement at once. -/
theorem owed_of_lists {s : Step} (h : s.lists = true) :
    s.after.state.session.filterCount = lastOr 0 s.listed ∧
      s.after.state.session.filterAcked = false := by
  cases s with
  | round | stop => cases h
  | packet c bytes source now =>
    obtain ⟨hcount, -⟩ := owed_packet c bytes source now
    refine ⟨hcount.trans (lastOr_eq_iff.2 (Or.inr (listed_of_lists h))),
      Bool.eq_false_iff.2 fun ha => ?_⟩
    rw [((packet c bytes source now).filterAcked ha).1] at h
    cases h

theorem verify_of_demands {s : Step} (h : s.demands = true) : s.after.state.lte.verify = true := by
  cases s with
  | round | stop => cases h
  | packet c bytes source now =>
    rw [(owed_packet c bytes source now).2.2, h, Bool.or_true]

end Step

/-! ## Attempts -/

section
variable {id : UInt8}

theorem Carries.brings_iff {x : Effect} (h : c.Carries m x) :
    x.brings id = true ↔ mentions id m = true := by
  obtain ⟨packet, failure, hb, rfl⟩ := h
  rw [Effect.brings, Message.decode_of_encode hb]
  rfl

theorem filter_brings_send_eq_nil (h : mentions id m = false) :
    (c.send answers m).2.filter (Effect.brings id) = [] := by
  refine List.filter_eq_nil_iff.2 fun x hx hb => ?_
  rw [(carries_of_send hx (Effect.isTransmit_of_brings hb)).brings_iff, h] at hb
  cases hb

theorem filter_brings_send {packet : Bytes} (hb : m.encode = .ok packet) (hlte : m.tunnel = .lte)
    (h : mentions id m = true) : (c.send answers m).2.filter (Effect.brings id) =
      [.transmit .lte packet c.state.session.server (answers.transmit m)] := by
  have hbrings : (Message.decode packet).toOption.any (mentions id) = true := by
    rw [Message.decode_of_encode hb]
    exact h
  have hposted := posted_send c answers m
  generalize c.send answers m = o at hposted ⊢
  cases hposted with
  | noSocket hdsl => cases hlte.symm.trans hdsl
  | unwritten e he => cases hb.symm.trans he
  | sent packet' hb' ha =>
    cases hb.symm.trans hb'
    simp [Effect.brings, hbrings, hlte, ha]
  | refused packet' reason hb' ha =>
    cases hb.symm.trans hb'
    simp [Effect.brings, hbrings, hlte, ha]

/-- The packets with an attribute are those of the letters with it. -/
theorem filter_brings_tick (ht : c.tick answers now = .ok r)
    (hparting : ∀ s t, mentions id (linkFailure s t) = false) :
    r.effects.filter (Effect.brings id) =
      ((c.letters answers now).filter (mentions id ·.message)).flatMap fun l =>
        (l.posts answers).filter (Effect.brings id) := by
  have hposts : r.effects.filter (Effect.brings id) = (posts r.effects).filter (Effect.brings id) := by
    rw [posts, List.filter_filter]
    refine List.filter_congr fun x _ => ?_
    cases hx : x.brings id with
    | false => rfl
    | true => rw [(Effect.isTransmit_of_brings hx).isPost]; rfl
  rw [hposts, posts_round ht, ← filter_roundLetters hparting c answers now r]
  induction c.roundLetters answers now r with
  | nil => rfl
  | cons l ls ih =>
    rw [List.flatMap_cons, List.filter_append, ih]
    cases hl : mentions id l.message with
    | false =>
      rw [List.filter_cons_of_neg (by simp [hl]), Letter.posts, filter_brings_send_eq_nil hl]
      rfl
    | true => rw [List.filter_cons_of_pos (by simp [hl]), List.flatMap_cons]

end

section
variable (c : Controller) (answers : Answers) (now : Duration)

/-- The controller when a round comes to the answers. -/
def opened : Controller := (sequence [forgetDownLinks, sendRequest answers] c).controller

theorem session_opened : (c.opened answers).state.session = c.state.session := by
  rw [opened, sequence_cons, sequence_cons]
  rcases controller_sendRequest (forgetDownLinks c).controller answers with hs | ⟨t, -, hs⟩
  · simp only [sequence_nil, hs]
    rfl
  · simp only [sequence_nil, hs, state_withState]
    cases t <;> rfl

theorem established_opened (t : Tunnel) :
    ((c.opened answers).state.link t).isEstablished = (c.state.link t).isEstablished := by
  have hsub : [forgetDownLinks, sendRequest answers] ⊆
      forgetDownLinks :: talking answers .zero := by simp [talking]
  have htalk := talk_sequence hsub c
  rw [Bool.eq_iff_iff]
  refine ⟨(htalk.link t).established, fun h => ?_⟩
  rw [opened, link_opening h]
  exact h

theorem ackDue_opened : (c.opened answers).AckDue ↔ c.AckDue := by
  have hlte := established_opened c answers .lte
  rw [State.link, State.link] at hlte
  rw [AckDue, hlte, session_opened, AckDue]

theorem filter_letters_acknowledgement :
    (c.letters answers now).filter (mentions Attribute.filterListAck ·.message) =
      ((acknowledging answers).due? (c.opened answers)).toList.map
        (Letter.mk (c.opened answers)) := by
  have hfirst : ∀ e ∈ [silent forgetDownLinks, asking answers],
      e.Avoids (mentions Attribute.filterListAck) := by
    simp only [List.forall_mem_cons]
    exact ⟨avoids_silent _ _, avoids_asking fun s t _ => mentions_request s t _ (by decide),
      fun _ h => absurd h List.not_mem_nil⟩
  have hlast : ∀ e ∈ [verifying answers, greeting answers now .lte, greeting answers now .dsl,
      silent (demoteSilentLink .lte), silent (demoteSilentLink .dsl), reporting answers now],
      e.Avoids (mentions Attribute.filterListAck) := by
    simp only [List.forall_mem_cons]
    exact ⟨avoids_of_due fun _ => rfl, avoids_of_due fun _ => rfl, avoids_of_due fun _ => rfl,
      avoids_silent _ _, avoids_silent _ _, avoids_of_due fun _ => rfl,
      fun _ h => absurd h List.not_mem_nil⟩
  exact filter_lettersOf hfirst (keeps_of_due fun _ => rfl) hlast c

/-- The controller when a round comes to the verification. -/
def acknowledged : Controller :=
  (sequence [forgetDownLinks, sendRequest answers, acknowledgeFilters answers] c).controller

theorem acknowledged_eq :
    c.acknowledged answers = (acknowledgeFilters answers (c.opened answers)).controller := by
  simp only [acknowledged, opened, sequence_cons, sequence_nil]

theorem filter_letters_verification :
    (c.letters answers now).filter (mentions Attribute.tunnelVerification ·.message) =
      ((verifying answers).due? (c.acknowledged answers)).toList.map
        (Letter.mk (c.acknowledged answers)) := by
  have hfirst : ∀ e ∈ [silent forgetDownLinks, asking answers, acknowledging answers],
      e.Avoids (mentions Attribute.tunnelVerification) := by
    simp only [List.forall_mem_cons]
    exact ⟨avoids_silent _ _, avoids_asking fun s t _ => mentions_request s t _ (by decide),
      avoids_of_due fun _ => rfl, fun _ h => absurd h List.not_mem_nil⟩
  have hlast : ∀ e ∈ [greeting answers now .lte, greeting answers now .dsl,
      silent (demoteSilentLink .lte), silent (demoteSilentLink .dsl), reporting answers now],
      e.Avoids (mentions Attribute.tunnelVerification) := by
    simp only [List.forall_mem_cons]
    exact ⟨avoids_of_due fun _ => rfl, avoids_of_due fun _ => rfl, avoids_silent _ _,
      avoids_silent _ _, avoids_of_due fun _ => rfl, fun _ h => absurd h List.not_mem_nil⟩
  exact filter_lettersOf hfirst (keeps_of_due fun _ => rfl) hlast c

theorem lte_acknowledged : (c.acknowledged answers).state.lte = (c.opened answers).state.lte := by
  rw [acknowledged_eq, acknowledgeFilters_eq]
  split <;> rfl

theorem session_acknowledged : ∃ acked, (c.acknowledged answers).state.session =
    { c.state.session with filterAcked := acked } := by
  rw [← session_opened c answers, acknowledged_eq, acknowledgeFilters_eq]
  split
  · exact ⟨_, rfl⟩
  · exact ⟨_, rfl⟩

theorem verificationDue_acknowledged : (c.acknowledged answers).VerificationDue ↔
    c.VerificationDue := by
  have hup := established_opened c answers .lte
  rw [State.link, State.link] at hup
  rw [VerificationDue, lte_acknowledged, hup, VerificationDue]
  refine and_congr_right fun h => ?_
  have hlte : (c.opened answers).state.lte = c.state.lte := link_opening (t := .lte) h answers
  rw [hlte]

variable {c answers now}

/-- **A round tries an acknowledgement that is owed once, and no other one.** -/
theorem acknowledgements_tick (ht : c.tick answers now = .ok r) : ∃ packet,
    (acknowledgement c.state.session.key c.state.session.filterCount).encode = .ok packet ∧
    r.effects.filter (Effect.brings Attribute.filterListAck) =
      if c.AckDue then [.transmit .lte packet c.state.session.server (answers.transmit
        (acknowledgement c.state.session.key c.state.session.filterCount))] else [] := by
  obtain ⟨packet, hb⟩ : ∃ packet, (acknowledgement c.state.session.key
    c.state.session.filterCount).encode = .ok packet := ⟨_, rfl⟩
  refine ⟨packet, hb, ?_⟩
  rw [filter_brings_tick ht fun s t => by cases t <;> rfl, filter_letters_acknowledgement,
    acknowledging]
  dsimp only
  rw [due]
  simp only [ackDue_opened]
  split
  · simp only [Option.toList_some, List.map_cons, List.map_nil, List.flatMap_cons,
      List.flatMap_nil, List.append_nil, Letter.posts, filterListAck_eq, session_opened]
    rw [filter_brings_send hb rfl rfl, session_opened]
  · rfl

/-- **A round tries a verification that is owed once, and no other one.** -/
theorem verifications_tick (ht : c.tick answers now = .ok r) : ∃ packet,
    (verification c.state.session.key).encode = .ok packet ∧
    r.effects.filter (Effect.brings Attribute.tunnelVerification) =
      if c.VerificationDue then [.transmit .lte packet c.state.session.server (answers.transmit
        (verification c.state.session.key))] else [] := by
  obtain ⟨acked, hs⟩ := session_acknowledged c answers
  obtain ⟨packet, hb⟩ : ∃ packet, (verification c.state.session.key).encode = .ok packet :=
    ⟨_, rfl⟩
  refine ⟨packet, hb, ?_⟩
  rw [filter_brings_tick ht fun s t => by cases t <;> rfl, filter_letters_verification, verifying]
  dsimp only
  rw [due]
  simp only [verificationDue_acknowledged]
  split
  · simp only [Option.toList_some, List.map_cons, List.map_nil, List.flatMap_cons,
      List.flatMap_nil, List.append_nil, Letter.posts, tunnelVerification_eq, hs]
    rw [filter_brings_send hb rfl rfl, hs]
  · rfl

end

/-! ## Histories -/

/-- A list of filters that counts as acknowledged is so because its acknowledgement was delivered
since it came. -/
theorem acked_of_history {steps : List Step} (h : History c steps d)
    (hnone : c.state.session.filterAcked = false) (ha : d.state.session.filterAcked = true) :
    d.state.session.filterCount ≠ 0 ∧ ∃ s ∈ since Step.lists steps,
      s.Delivers (acknowledgement s.before.state.session.key d.state.session.filterCount) := by
  induction h with
  | start => cases hnone.symm.trans ha
  | step s past ih =>
    -- neither the list nor its number is new, so that the delivery is at most as old as the list
    obtain ⟨hlists, hrenews, hacked⟩ := s.filterAcked ha
    have hcount := s.filterCount hrenews
    rw [Step.listed_of_not_lists hlists, lastOr_nil] at hcount
    rw [hcount, since_concat, hlists, if_neg Bool.false_ne_true]
    rcases hacked with hacked | ⟨hne, hsent⟩
    · obtain ⟨hne, x, hx, hsent⟩ := ih hacked
      exact ⟨hne, x, List.mem_append_left _ hx, hsent⟩
    · exact ⟨hne, s, List.mem_append_right _ List.mem_cons_self, hsent⟩

/-- An acknowledgement stays owed until it is delivered, another list of filters comes, or the
session is started over. -/
theorem ack_owed_of_history {steps past later : List Step} {s : Step} (h : History c steps d)
    (hsteps : steps = past ++ s :: later) (hlists : s.lists = true)
    (hlater : ∀ x ∈ later, x.lists = false ∧ x.renews = false ∧
      ¬ x.Delivers (acknowledgement x.before.state.session.key (lastOr 0 s.listed))) :
    d.state.session.filterCount = lastOr 0 s.listed ∧ d.state.session.filterAcked = false := by
  refine h.lasts (P := fun c => c.state.session.filterCount = lastOr 0 s.listed ∧
    c.state.session.filterAcked = false) (E := fun x => ¬ (x.lists = false ∧ x.renews = false ∧
      ¬ x.Delivers (acknowledgement x.before.state.session.key (lastOr 0 s.listed))))
    (fun x ⟨hcount, hacked⟩ hends => ?_) hsteps (Step.owed_of_lists hlists)
    fun x hx => not_not_intro (hlater x hx)
  obtain ⟨hquiet, hrenews, hsent⟩ := not_not.1 hends
  refine ⟨?_, Bool.eq_false_iff.2 fun ha => ?_⟩
  · rw [x.filterCount hrenews, Step.listed_of_not_lists hquiet, lastOr_nil, hcount]
  · obtain ⟨-, -, hbefore | ⟨-, hdelivered⟩⟩ := x.filterAcked ha
    · cases hacked.symm.trans hbefore
    · rw [hcount] at hdelivered
      exact hsent hdelivered

/-- A verification stays owed until it is delivered or the cellular link is reset. -/
theorem verification_owed_of_history {steps past later : List Step} {s : Step}
    (h : History c steps d) (hsteps : steps = past ++ s :: later) (hdemands : s.demands = true)
    (hlater : ∀ x ∈ later,
      ¬ x.Delivers (verification x.before.state.session.key) ∧ ¬ x.ResetsLte) :
    d.state.lte.verify = true :=
  h.lasts (P := fun c => c.state.lte.verify = true)
    (E := fun x => x.Delivers (verification x.before.state.session.key) ∨ x.ResetsLte)
    (fun x hx hends => (x.verify hx).resolve_right hends) hsteps (Step.verify_of_demands hdemands)
    fun x hx => not_or.2 (hlater x hx)

/-- **No answer that a notify asks for is lost or faked.** A list of filters counts as acknowledged
only if the acknowledgement of just this list was delivered since it came. An answer that was asked
for stays owed until it is delivered over the established cellular link, asked for anew, or forgotten
with the session or the link. A round that finds the link established tries each answer that is
owed once; it finds the link so where it comes to the answers just if it was so before
(`established_opened`). -/
theorem answers_owed (config : Config) (lte : IPv6) (dsl : Option IPv6) (helper4 helper6 : Bool)
    (steps : List Step) (c : Controller)
    (h : History (initial config lte dsl helper4 helper6) steps c) :
    (c.state.session.filterAcked = true → c.state.session.filterCount ≠ 0 ∧
      ∃ s ∈ since Step.lists steps,
        s.Delivers (acknowledgement s.before.state.session.key c.state.session.filterCount)) ∧
    (∀ past s later, steps = past ++ s :: later → s.lists = true →
      (∀ x ∈ later, x.lists = false ∧ x.renews = false ∧
        ¬ x.Delivers (acknowledgement x.before.state.session.key (lastOr 0 s.listed))) →
      c.state.session.filterCount = lastOr 0 s.listed ∧ c.state.session.filterAcked = false) ∧
    (∀ past s later, steps = past ++ s :: later → s.demands = true →
      (∀ x ∈ later, ¬ x.Delivers (verification x.before.state.session.key) ∧ ¬ x.ResetsLte) →
      c.state.lte.verify = true) ∧
    ∀ d answers now r possible, .round d answers now r possible ∈ steps →
      (∃ packet,
        (acknowledgement d.state.session.key d.state.session.filterCount).encode = .ok packet ∧
        r.effects.filter (Effect.brings Attribute.filterListAck) =
          if d.AckDue then [.transmit .lte packet d.state.session.server (answers.transmit
            (acknowledgement d.state.session.key d.state.session.filterCount))] else []) ∧
      ∃ packet, (verification d.state.session.key).encode = .ok packet ∧
        r.effects.filter (Effect.brings Attribute.tunnelVerification) =
          if d.VerificationDue then [.transmit .lte packet d.state.session.server
            (answers.transmit (verification d.state.session.key))] else [] :=
  ⟨acked_of_history h rfl, fun _ _ _ hsteps hlists => ack_owed_of_history h hsteps hlists,
    fun _ _ _ hsteps hdemands => verification_owed_of_history h hsteps hdemands,
    fun _ _ _ _ possible _ => ⟨acknowledgements_tick possible, verifications_tick possible⟩⟩

/-- The first round behind the fifth list of filters acknowledges it. -/
theorem fifth_list_acknowledged : ∃ steps c,
    History (initial .default .unspecified none false false) steps c ∧
    c.state.session.filterAcked = true ∧
    ∃ s ∈ since Step.lists steps, s.Delivers (acknowledgement s.before.state.session.key 5) := by
  have hround : (filtered.tick willing .zero).toOption.map (fun r =>
      (r.controller.state.session.filterAcked, r.controller.state.session.filterCount)) =
      some (true, 5) := by decide +kernel
  cases hr : filtered.tick willing .zero with
  | error e => rw [hr] at hround; cases hround
  | ok r =>
    rw [hr] at hround
    obtain ⟨hacked, hcount⟩ := Prod.mk.inj (Option.some.inj hround)
    have h := History.step (.round filtered willing .zero r hr)
      (.step (.packet _ filters Config.default.anycast .zero)
        (.step (.packet _ acceptance Config.default.anycast .zero)
          (.start (c := initial .default .unspecified none false false))))
    obtain ⟨-, s, hs, hsent⟩ := (answers_owed _ _ _ _ _ _ _ h).1 hacked
    refine ⟨_, _, h, hacked, s, hs, ?_⟩
    rw [← hcount]
    exact hsent

end Controller

end HybridAccess.Control
