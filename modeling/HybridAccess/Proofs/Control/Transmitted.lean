/-
  HybridAccess — what is handed to the links.

  Each packet that is handed to a link is that of a message which was sent
  (`Carries`). `posts` is all that sending leaves behind. The acts that do not
  even try to send are `Tacit`, so that everything in a round is sent while the
  controller talks to the server or takes leave of it (`posts_tick`).
-/
import HybridAccess.Proofs.Control.Links
import HybridAccess.Proofs.Message.Written

namespace HybridAccess.Control

/-- A packet is handed to a link. -/
def Effect.IsTransmit : Effect → Prop
  | transmit .. => True
  | _ => False

/-- What sending a message leaves behind: the packet handed to its link, and the notices about
it. -/
def Effect.isPost : Effect → Bool
  | transmit .. | note (.noSocket _) | note (.notEncoded ..) | note (.sent ..)
  | note (.contents ..) | note (.notSent ..) => true
  | _ => false

theorem Effect.IsTransmit.isPost {e : Effect} (h : e.IsTransmit) : e.isPost = true := by
  cases e <;> first | rfl | exact h.elim

/-- The packet of a hello is handed to its link. -/
def Effect.IsHello (t : Tunnel) : Effect → Prop
  | transmit tunnel packet .. =>
    tunnel = t ∧ ∃ m, Message.decode packet = .ok m ∧ m.kind = .hello
  | _ => False

theorem Effect.IsHello.isTransmit {t : Tunnel} {e : Effect} (h : e.IsHello t) : e.IsTransmit := by
  cases e <;> trivial

namespace Controller

variable {c : Controller} {answers : Answers} {now : Duration} {m : Message} {e : Effect}
  {t : Tunnel} {a : Act}

/-- The packet of a message is handed to its link, for the server. -/
def Carries (c : Controller) (m : Message) (e : Effect) : Prop :=
  ∃ packet failure, m.encode = .ok packet ∧
    e = .transmit m.tunnel packet c.state.session.server failure

theorem Carries.isHello_iff (h : c.Carries m e) :
    e.IsHello t ↔ m.tunnel = t ∧ m.kind = .hello := by
  obtain ⟨packet, failure, hb, rfl⟩ := h
  have hm := Message.decode_of_encode hb
  constructor
  · rintro ⟨ht, m', hm', hk⟩
    cases hm.symm.trans hm'
    exact ⟨ht, hk⟩
  · exact fun ⟨ht, hk⟩ => ⟨ht, m, hm, hk⟩

theorem carries_of_send (he : e ∈ (c.send answers m).2) (h : e.IsTransmit) : c.Carries m e := by
  have hposted := posted_send c answers m
  generalize c.send answers m = o at hposted he
  cases hposted with
  | noSocket | unwritten => rw [List.mem_singleton.1 he] at h; exact h.elim
  | sent packet hb =>
    simp only [List.mem_cons, List.not_mem_nil, or_false] at he
    rcases he with rfl | rfl | rfl
    · exact ⟨packet, _, hb, rfl⟩
    · exact h.elim
    · exact h.elim
  | refused packet reason hb =>
    simp only [List.mem_cons, List.not_mem_nil, or_false] at he
    rcases he with rfl | rfl
    · exact ⟨packet, _, hb, rfl⟩
    · exact h.elim

/-- A packet is handed to the broadband link only if there is a socket for it. -/
theorem socket_of_send (he : e ∈ (c.send answers m).2) (h : e.IsTransmit) (hdsl : m.tunnel = .dsl) :
    c.hasDsl = true := by
  refine Bool.of_not_eq_false fun hno => ?_
  rw [send, if_pos ⟨hdsl, by rw [hno]; rfl⟩, List.mem_singleton] at he
  rw [he] at h
  exact h

theorem exists_carries {packet : Bytes} (hb : m.encode = .ok packet)
    (hsocket : m.tunnel = .dsl → c.hasDsl = true) (answers : Answers) :
    ∃ e ∈ (c.send answers m).2, c.Carries m e := by
  have hposted := posted_send c answers m
  generalize c.send answers m = o at hposted
  cases hposted with
  | noSocket hdsl hno => cases hno.symm.trans (hsocket hdsl)
  | unwritten e he => cases hb.symm.trans he
  | sent packet hb => exact ⟨_, List.mem_cons_self, packet, _, hb, rfl⟩
  | refused packet reason hb => exact ⟨_, List.mem_cons_self, packet, _, hb, rfl⟩

/-- An act that sends nothing. -/
def Tacit (a : Act) : Prop := ∀ c, ∀ e ∈ (a c).effects, e.isPost = false

theorem tacit_sequence {as : List Act} (h : ∀ a ∈ as, Tacit a) : Tacit (sequence as) :=
  sequence_induction (R := fun _ es _ => ∀ e ∈ es, e.isPost = false)
    (fun _ _ he => absurd he List.not_mem_nil)
    (fun _ _ _ _ _ h h' e he => (List.mem_append.1 he).elim (h e) (h' e)) h

/-- What sending a message leaves behind. -/
def posts (es : List Effect) : List Effect := es.filter Effect.isPost

theorem posts_append (es fs : List Effect) : posts (es ++ fs) = posts es ++ posts fs :=
  List.filter_append ..

theorem posts_eq_nil_iff {es : List Effect} : posts es = [] ↔ ∀ e ∈ es, e.isPost = false := by
  simp only [posts, List.filter_eq_nil_iff, Bool.not_eq_true]

theorem posts_send (c : Controller) (answers : Answers) (m : Message) :
    posts (c.send answers m).2 = (c.send answers m).2 := by
  have hposted := posted_send c answers m
  generalize c.send answers m = o at hposted ⊢
  cases hposted <;> rfl

theorem Tacit.posts (h : Tacit a) (c : Controller) : posts (a c).effects = [] :=
  posts_eq_nil_iff.2 (h c)

/-! ## Acts that send nothing -/

theorem tacit_idle : Tacit idle := fun _ _ he => absurd he List.not_mem_nil

theorem tacit_forgetDownLinks : Tacit forgetDownLinks := fun _ _ he => absurd he List.not_mem_nil

theorem tacit_demoteSilentLink : Tacit (demoteSilentLink t) := by
  intro c
  unfold demoteSilentLink
  dsimp only
  split
  · exact posts_eq_nil_iff.1 rfl
  · exact tacit_idle c

/-! ## Looking after session, device and leases -/

theorem tacit_killHelper (family : Dhcp.Family) : Tacit (killHelper family) := by
  intro c
  unfold killHelper
  cases c.helper family with
  | absent => exact tacit_idle c
  | idle | running => exact posts_eq_nil_iff.1 rfl

theorem tacit_dropLease (family : Dhcp.Family) : Tacit (dropLease family) := by
  intro c
  unfold dropLease
  split
  · exact tacit_idle c
  · exact posts_eq_nil_iff.1 rfl

theorem tacit_releaseLeases : Tacit releaseLeases := by
  refine tacit_sequence fun a ha => ?_
  simp only [List.mem_cons, List.not_mem_nil, or_false] at ha
  rcases ha with rfl | rfl | rfl | rfl
  · exact tacit_killHelper .ipv4
  · exact tacit_killHelper .ipv6
  · exact tacit_dropLease .ipv4
  · exact tacit_dropLease .ipv6

theorem tacit_resetSession : Tacit resetSession := by
  intro c
  unfold resetSession
  split
  · exact tacit_idle c
  · exact tacit_releaseLeases _

theorem tacit_createDevice : Tacit (createDevice answers) := by
  intro c
  unfold createDevice
  cases answers.create <;> exact posts_eq_nil_iff.1 rfl

theorem tacit_destroyDevice : Tacit (destroyDevice answers) := by
  intro c
  unfold destroyDevice
  cases answers.destroy <;> exact posts_eq_nil_iff.1 rfl

theorem tacit_updateDevice : Tacit (updateDevice answers) := by
  intro c
  unfold updateDevice
  split
  · exact tacit_createDevice c
  · split
    · exact tacit_destroyDevice c
    · exact tacit_idle c

theorem tacit_giveUp : Tacit (giveUp answers) := by
  refine tacit_sequence (List.forall_mem_cons.2 ⟨tacit_releaseLeases,
    List.forall_mem_singleton.2 fun c => ?_⟩)
  split
  · exact tacit_destroyDevice c
  · exact tacit_idle c

theorem tacit_takeLease (family : Dhcp.Family) (output : String) :
    Tacit (takeLease family output now) := by
  intro c
  have hnoise : ∀ e ∈ (Dhcp.Report.noise output).map fun line => Effect.note (.helperLine line),
      e.isPost = false := by
    intro e he
    obtain ⟨line, -, rfl⟩ := List.mem_map.1 he
    rfl
  unfold takeLease
  dsimp only
  split
  · exact List.forall_mem_append.2 ⟨hnoise, posts_eq_nil_iff.1 rfl⟩
  · exact List.forall_mem_append.2 ⟨hnoise, posts_eq_nil_iff.1 rfl⟩

theorem tacit_pollHelper (family : Dhcp.Family) : Tacit (pollHelper answers now family) := by
  intro c
  unfold pollHelper
  cases c.helper family with
  | absent => exact tacit_idle c
  | idle =>
    dsimp only
    split
    · cases answers.start family <;> exact posts_eq_nil_iff.1 rfl
    · exact tacit_idle c
  | running =>
    dsimp only
    cases answers.poll family with
    | none => exact posts_eq_nil_iff.1 rfl
    | some result =>
      cases result with
      | error f => exact posts_eq_nil_iff.1 rfl
      | ok output => exact List.forall_mem_cons.2 ⟨rfl, tacit_takeLease family output _⟩

theorem tacit_expireLease {family : Dhcp.Family} {o : Outcome}
    (h : expireLease now family c = .ok o) : ∀ e ∈ o.effects, e.isPost = false := by
  rcases expireLease_cases h with ⟨rfl, -⟩ | ⟨l, -, rfl⟩
  · exact tacit_idle c
  · exact List.forall_mem_cons.2 ⟨rfl, tacit_dropLease family c⟩

/-! ## A whole round -/

section
variable (c : Controller) (answers : Answers) (now : Duration)

/-- Up to the expiry of leases, only talking to the server sends something. -/
theorem posts_acts : posts (sequence (acts answers now) c).effects =
    posts (sequence (forgetDownLinks :: talking answers now) c).effects := by
  have hacts : acts answers now = (forgetDownLinks :: talking answers now) ++ [resetSession,
    updateDevice answers, pollHelper answers now .ipv4, pollHelper answers now .ipv6] := rfl
  have htacit : Tacit (sequence [resetSession, updateDevice answers, pollHelper answers now .ipv4,
      pollHelper answers now .ipv6]) := by
    refine tacit_sequence fun a ha => ?_
    simp only [List.mem_cons, List.not_mem_nil, or_false] at ha
    rcases ha with rfl | rfl | rfl | rfl
    · exact tacit_resetSession
    · exact tacit_updateDevice
    · exact tacit_pollHelper .ipv4
    · exact tacit_pollHelper .ipv6
  rw [hacts, sequence_append, posts_append, htacit.posts, List.append_nil]

theorem posts_shutdown : posts (shutdown answers c).effects =
    posts (takeLeave answers c.bare).effects := by
  rw [shutdown_eq]
  change posts ((giveUp answers c).effects ++ _) = _
  rw [posts_append, posts_append, tacit_giveUp.posts]
  exact List.append_nil _

end

variable {r : Round}

/-- **What is sent in a round is sent while the controller talks to the server, or when it takes
leave of it.** -/
theorem posts_tick (ht : c.tick answers now = .ok r) : posts r.effects =
    posts (sequence (forgetDownLinks :: talking answers now) c).effects ++
      if r.finished then posts (takeLeave answers r.controller).effects else [] := by
  obtain ⟨o₄, o₆, h₄, h₆, hr⟩ := tick_cases ht
  have hacts : (parts c answers now).effects = (sequence (acts answers now) c).effects := by
    rw [sequence_acts]
  generalize parts c answers now = p at h₄ hr hacts
  have hparts : posts (p.effects ++ o₄.effects ++ o₆.effects) =
      posts (sequence (forgetDownLinks :: talking answers now) c).effects := by
    rw [posts_append, posts_append, posts_eq_nil_iff.2 (tacit_expireLease h₄),
      posts_eq_nil_iff.2 (tacit_expireLease h₆), List.append_nil, List.append_nil, hacts,
      posts_acts]
  rcases hr with rfl | rfl
  · simp only [hparts, Bool.false_eq_true, if_false, List.append_nil]
  · simp only [posts_append _ (shutdown answers o₆.controller).effects, hparts, posts_shutdown,
      if_true]

theorem transmit_tick (ht : c.tick answers now = .ok r) (he : e ∈ r.effects) (h : e.IsTransmit) :
    e ∈ (sequence (forgetDownLinks :: talking answers now) c).effects ∨
      e ∈ (takeLeave answers r.controller).effects := by
  have hpost : e ∈ posts r.effects := List.mem_filter.2 ⟨he, h.isPost⟩
  rw [posts_tick ht] at hpost
  rcases List.mem_append.1 hpost with hpost | hpost
  · exact Or.inl (List.mem_of_mem_filter hpost)
  · split at hpost
    · exact Or.inr (List.mem_of_mem_filter hpost)
    · exact absurd hpost List.not_mem_nil

end Controller

end HybridAccess.Control
