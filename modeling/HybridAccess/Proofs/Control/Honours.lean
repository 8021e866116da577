/-
  HybridAccess — answers that the server waits for.

  A notify can ask for two answers, the acknowledgement of a list of filters and
  the verification of the tunnel. `notified` says what a notify makes of them,
  and `Honours` what talking to the server may: an answer is no longer owed only
  if the cellular link took its packet, or because the link was reset
  (`honours_talked`).
-/
import HybridAccess.Proofs.Control.Hello

namespace HybridAccess.Control

open Message (Attribute Kind)

/-- The acknowledgement of the list of filters with a number. -/
def acknowledgement (key count : UInt32) : Message :=
  ⟨.notify, .lte, key,
    [⟨Attribute.filterListAck, Bytes.be32 count ++ [filterListOk]⟩, Attribute.pad]⟩

/-- The answer that the tunnel works. -/
def verification (key : UInt32) : Message :=
  ⟨.notify, .lte, key, [.flag Attribute.tunnelVerification, Attribute.pad]⟩

theorem filterListAck_eq (s : Session) : filterListAck s = acknowledgement s.key s.filterCount :=
  rfl

theorem tunnelVerification_eq (s : Session) : tunnelVerification s = verification s.key := rfl

/-! ## Packets -/

/-- The numbers of the lists of filters that some attributes bring. -/
def listed (as : List Attribute) : List UInt32 := brought Attribute.filterList (·.asWord?) as

/-- Whether some attributes ask for a verification of the tunnel. -/
def demands (as : List Attribute) : Bool := as.any (·.id = Attribute.tunnelVerification)

/-- The state behind a notify with the given attributes. -/
def notified (s : State) (as : List Attribute) : State :=
  { s with
    session := { s.session with
      filterCount := lastOr s.session.filterCount (listed as)
      filterAcked := s.session.filterAcked && (listed as).isEmpty }
    lte := { s.lte with verify := s.lte.verify || demands as } }

/-- One attribute changes at most what its identifier names. -/
theorem notifyAttribute_eq (s : State) (a : Attribute) : notifyAttribute s a =
    { s with
      session := { s.session with
        filterCount := (valueOf? Attribute.filterList (·.asWord?) a).getD s.session.filterCount
        filterAcked := s.session.filterAcked &&
          (valueOf? Attribute.filterList (·.asWord?) a).isNone }
      lte := { s.lte with
        verify := s.lte.verify || decide (a.id = Attribute.tunnelVerification) } } := by
  unfold notifyAttribute valueOf?
  by_cases hl : a.id = Attribute.filterList
  · have hv : ¬ a.id = Attribute.tunnelVerification := by rw [hl]; decide
    rw [if_pos hl, if_pos hl]
    rcases Option.eq_none_or_eq_some a.asWord? with hw | ⟨count, hw⟩ <;> simp [hv, hw]
  · rw [if_neg hl, if_neg hl]
    by_cases hv : a.id = Attribute.tunnelVerification <;> simp [hv]

theorem isEmpty_toList_append {β : Type} (o : Option β) (values : List β) :
    (o.toList ++ values).isEmpty = (o.isNone && values.isEmpty) := by cases o <;> rfl

theorem foldl_notifyAttribute_eq (s : State) (as : List Attribute) :
    as.foldl notifyAttribute s = notified s as := by
  induction as generalizing s with
  | nil => simp [notified, listed, demands, brought]
  | cons a as ih =>
    rw [List.foldl_cons, ih, notifyAttribute_eq]
    simp only [notified, listed, demands, brought_cons, lastOr_toList_append, isEmpty_toList_append,
      List.any_cons, Bool.and_assoc, Bool.or_assoc]

/-- Only a notify asks for an answer, and only it puts one off. -/
theorem Changes.owed {s s' : State} {t : Tunnel} {k : Kind} (h : Changes s s' t k)
    (hk : k ≠ .notify) : s'.session.filterCount = s.session.filterCount ∧
      s'.session.filterAcked = s.session.filterAcked ∧ s'.lte.verify = s.lte.verify := by
  cases k with
  | notify => exact absurd rfl hk
  | deny =>
    rcases h with rfl | ⟨-, rfl⟩
    · exact ⟨rfl, rfl, rfl⟩
    · cases t <;> exact ⟨rfl, rfl, rfl⟩
  | hello | accept => cases t <;> (rw [h]; exact ⟨rfl, rfl, rfl⟩)
  | request | teardown => rw [h]; exact ⟨rfl, rfl, rfl⟩

namespace Controller

variable {c d e : Controller} {answers : Answers} {now : Duration} {r : Round} {m : Message}
  {es fs : List Effect} {t : Tunnel}

/-! ## Talking -/

/-- The packet of a message is handed to its link, for the server, and the link takes it. -/
def Delivers (c : Controller) (es : List Effect) (m : Message) : Prop :=
  ∃ packet, m.encode = .ok packet ∧
    .transmit m.tunnel packet c.state.session.server none ∈ es

theorem delivers_of_send (h : (c.send answers m).1 = true) :
    c.Delivers (c.send answers m).2 m := by
  have hposted := posted_send c answers m
  generalize c.send answers m = o at hposted h ⊢
  cases hposted with
  | sent packet hb => exact ⟨packet, hb, List.mem_cons_self⟩
  | noSocket | unwritten | refused => cases h

theorem Delivers.mono (h : c.Delivers es m) (hsub : es ⊆ fs) : c.Delivers fs m := by
  obtain ⟨packet, hb, he⟩ := h
  exact ⟨packet, hb, hsub he⟩

/-- What talking to the server may make of the answers that are owed. -/
structure Honours (c : Controller) (es : List Effect) (d : Controller) : Prop where
  talk : Talk c es d
  down : d.state.lte.status = .down →
    c.state.lte.status = .down ∨ c.state.lte.isEstablished = true
  acked : d.state.session.filterAcked = true → c.state.session.filterAcked = true ∨
    c.state.lte.isEstablished = true ∧ c.state.session.filterCount ≠ 0 ∧
      c.Delivers es (acknowledgement c.state.session.key c.state.session.filterCount)
  verify : c.state.lte.verify = true → d.state.lte.verify = true ∨
    (c.state.lte.isEstablished = true ∧ c.Delivers es (verification c.state.session.key)) ∨
    c.state.lte.status = .down ∨
    c.state.lte.isEstablished = true ∧ d.state.lte.isEstablished = false

namespace Honours

theorem refl (c : Controller) : Honours c [] c := ⟨.refl c, Or.inl, Or.inl, Or.inl⟩

theorem established (h : Honours c es d) (hd : d.state.lte.isEstablished = true) :
    c.state.lte.isEstablished = true := (h.talk.link .lte).established hd

/-- What is delivered later is delivered for the same session. -/
theorem delivers (h : Honours c es d) (hd : d.Delivers fs m) : c.Delivers (es ++ fs) m := by
  obtain ⟨packet, hb, he⟩ := hd
  rw [h.talk.session] at he
  exact ⟨packet, hb, List.mem_append_right _ he⟩

theorem trans (c d e : Controller) (es fs : List Effect) (h : Honours c es d)
    (h' : Honours d fs e) : Honours c (es ++ fs) e := by
  have hs := h.talk.session
  refine ⟨Talk.trans _ _ _ _ _ h.talk h'.talk, fun hd => ?_, fun ha => ?_, fun hv => ?_⟩
  · exact (h'.down hd).elim h.down fun hup => Or.inr (h.established hup)
  · rcases h'.acked ha with ha | ⟨hup, hcount, hsent⟩
    · refine (h.acked ha).imp id fun ⟨hup, hcount, hsent⟩ => ⟨hup, hcount, ?_⟩
      exact hsent.mono (List.subset_append_left _ _)
    · rw [hs] at hcount hsent
      exact Or.inr ⟨h.established hup, hcount, h.delivers hsent⟩
  · rcases h.verify hv with hv | ⟨hup, hsent⟩ | hd | ⟨hup, hdown⟩
    · rcases h'.verify hv with hv | ⟨hup, hsent⟩ | hd | ⟨hup, hdown⟩
      · exact Or.inl hv
      · rw [hs] at hsent
        exact Or.inr (Or.inl ⟨h.established hup, h.delivers hsent⟩)
      · -- a link that went down in between stays so
        refine (h.down hd).elim (fun hc => Or.inr (Or.inr (Or.inl hc))) fun hup => ?_
        refine Or.inr (Or.inr (Or.inr ⟨hup, Bool.eq_false_iff.2 fun he => ?_⟩))
        have hup' := h'.established he
        rw [Link.isEstablished, hd] at hup'
        cases hup'
      · exact Or.inr (Or.inr (Or.inr ⟨h.established hup, hdown⟩))
    · exact Or.inr (Or.inl ⟨hup, hsent.mono (List.subset_append_left _ _)⟩)
    · exact Or.inr (Or.inr (Or.inl hd))
    · refine Or.inr (Or.inr (Or.inr ⟨hup, Bool.eq_false_iff.2 fun he => ?_⟩))
      rw [h'.established he] at hdown
      cases hdown

/-- Whoever leaves the answers alone. -/
theorem of_same (h : Talk c es d) (hs : d.state.session = c.state.session)
    (hv : d.state.lte.verify = c.state.lte.verify)
    (hd : d.state.lte.status = .down → c.state.lte.status = .down) : Honours c es d :=
  ⟨h, Or.inl ∘ hd, fun ha => Or.inl (hs ▸ ha), fun hc => Or.inl (hv ▸ hc)⟩

end Honours

theorem session_updateLink (s : State) (t : Tunnel) (f : Link → Link) :
    (s.updateLink t f).session = s.session := by cases t <;> rfl

/-- What a change of links keeps, it keeps of the cellular link. -/
theorem lte_updateLink {β : Type} {g : Link → β} {f : Link → Link} (h : ∀ l, g (f l) = g l)
    (s : State) (t : Tunnel) : g (s.updateLink t f).lte = g s.lte := by
  cases t with
  | lte => exact h s.lte
  | dsl => rfl

section
variable (c : Controller) (answers : Answers) (now : Duration)

theorem honours_forgetDownLinks :
    Honours c (forgetDownLinks c).effects (forgetDownLinks c).controller := by
  have hlink := link_forgetDownLinks c .lte
  refine ⟨talk_forgetDownLinks c, fun hd => Or.inl ?_, Or.inl, fun hv => ?_⟩
  · rw [← State.link, hlink] at hd
    split at hd
    · next h => exact h.1
    · exact hd
  · rw [← State.link, hlink]
    split
    · next h => exact Or.inr (Or.inr (Or.inl h.1))
    · exact Or.inl hv

theorem honours_sendRequest :
    Honours c (sendRequest answers c).effects (sendRequest answers c).controller := by
  have htalk := talk_sendRequest c answers
  generalize (sendRequest answers c).effects = es at htalk
  rcases controller_sendRequest c answers with hs | ⟨t, -, hs⟩
  · rw [hs] at htalk ⊢
    exact .of_same htalk rfl rfl id
  · rw [hs] at htalk ⊢
    cases t with
    | lte => exact .of_same htalk rfl rfl fun hd => (by cases hd)
    | dsl => exact .of_same htalk rfl rfl id

theorem honours_acknowledgeFilters :
    Honours c (acknowledgeFilters answers c).effects (acknowledgeFilters answers c).controller := by
  have htalk := talk_acknowledgeFilters c answers
  rw [acknowledgeFilters_eq] at htalk ⊢
  split
  · next hdue =>
    rw [if_pos hdue] at htalk
    refine ⟨htalk, Or.inl, fun ha => Or.inr ⟨hdue.1, hdue.2.1, ?_⟩, Or.inl⟩
    rw [← filterListAck_eq]
    exact delivers_of_send ha
  · exact .refl c

theorem honours_verifyTunnel :
    Honours c (verifyTunnel answers c).effects (verifyTunnel answers c).controller := by
  have htalk := talk_verifyTunnel c answers
  rw [verifyTunnel_eq] at htalk ⊢
  split
  · next hdue =>
    rw [if_pos hdue] at htalk
    dsimp only at htalk ⊢
    split
    · next hsent =>
      rw [if_pos hsent] at htalk
      refine ⟨htalk, Or.inl, Or.inl, fun _ => Or.inr (Or.inl ⟨hdue.1, ?_⟩)⟩
      rw [← tunnelVerification_eq]
      exact delivers_of_send hsent
    · next hfailed =>
      rw [if_neg hfailed] at htalk
      exact .of_same htalk rfl rfl id
  · exact .refl c

theorem honours_sendHello (t : Tunnel) :
    Honours c (sendHello answers now t c).effects (sendHello answers now t c).controller := by
  have htalk := talk_sendHello c answers now t
  rw [controller_sendHello] at htalk ⊢
  split
  · next hdue =>
    rw [if_pos hdue] at htalk
    refine .of_same htalk (session_updateLink ..) (lte_updateLink (Link.verify_greet · now) ..)
      fun hd => ?_
    rwa [state_withState, lte_updateLink (Link.status_greet · now)] at hd
  · next hdue =>
    rw [if_neg hdue] at htalk
    exact .of_same htalk rfl rfl id

theorem honours_demoteSilentLink (t : Tunnel) :
    Honours c (demoteSilentLink t c).effects (demoteSilentLink t c).controller := by
  have htalk := talk_demoteSilentLink c t
  rw [controller_demoteSilentLink] at htalk ⊢
  split
  · next hsilent =>
    rw [if_pos hsilent] at htalk
    cases t with
    | lte =>
      exact ⟨htalk, fun _ => Or.inr hsilent.1, Or.inl,
        fun _ => Or.inr (Or.inr (Or.inr ⟨hsilent.1, rfl⟩))⟩
    | dsl => exact .of_same htalk rfl rfl id
  · next hheard =>
    rw [if_neg hheard] at htalk
    exact .of_same htalk rfl rfl id

theorem honours_reportBypass :
    Honours c (reportBypass answers now c).effects (reportBypass answers now c).controller := by
  have htalk := talk_reportBypass c answers now
  rw [reportBypass_eq] at htalk ⊢
  split
  · next hdue =>
    rw [if_pos hdue] at htalk
    exact .of_same htalk rfl rfl id
  · exact .refl c

/-- **Talking to the server honours what it is owed.** -/
theorem honours_talked : Honours c (sequence (forgetDownLinks :: talking answers now) c).effects
    (c.talked answers now) := by
  refine sequence_induction Honours.refl Honours.trans (fun a ha d => ?_) c
  simp only [talking, List.mem_cons, List.not_mem_nil, or_false] at ha
  rcases ha with rfl | rfl | rfl | rfl | rfl | rfl | rfl | rfl | rfl
  · exact honours_forgetDownLinks d
  · exact honours_sendRequest d answers
  · exact honours_acknowledgeFilters d answers
  · exact honours_verifyTunnel d answers
  · exact honours_sendHello d answers now .lte
  · exact honours_sendHello d answers now .dsl
  · exact honours_demoteSilentLink d .lte
  · exact honours_demoteSilentLink d .dsl
  · exact honours_reportBypass d answers now

end

end Controller

end HybridAccess.Control
