/-
  HybridAccess — what a control packet may change.

  A packet is acted on only if the server sent it, it can be read, and it
  carries the key of the session or is an accept (`handle_cases`). `Changes`
  lists, for each kind of message, the fields that may differ afterwards;
  `handle_changes` shows that nothing else does, whatever bytes arrive.
-/
import Mathlib.Logic.Basic
import HybridAccess.Control.Controller
import HybridAccess.Proofs.Control.Accept

namespace HybridAccess.Control

open Message (Attribute Kind)

section
variable {s : State} {packet : Bytes} {m : Message} {now : Duration}

/-! ## Which messages are acted on -/

/-- A message may be acted on. -/
def Entitled (s : State) (m : Message) : Prop := m.key = s.session.key ∨ m.kind = .accept

theorem authorized_eq_ok : authorized s packet = .ok m ↔
    Message.decode packet = .ok m ∧ Entitled s m := by
  unfold authorized
  cases Message.decode packet with
  | error e => simp [bind, Except.bind]
  | ok m' =>
    by_cases hk : m'.key ≠ s.session.key ∧ m'.kind ≠ .accept
    · simp only [bind, Except.bind, if_pos hk, Except.ok.injEq]
      constructor
      · intro h
        cases h
      · rintro ⟨rfl, h⟩
        exact absurd hk (not_and_or.2 (h.imp not_not_intro not_not_intro))
    · have he : Entitled s m' := (not_and_or.1 hk).imp not_not.1 not_not.1
      simp only [bind, Except.bind, if_neg hk, pure, Except.pure, Except.ok.injEq]
      exact ⟨fun h => ⟨h, h ▸ he⟩, fun h => h.1⟩

theorem process_of_authorized (h : authorized s packet = .ok m) (now : Duration) :
    process s packet now = .ok (m.kind, apply s m now) := by
  simp [process, h, bind, Except.bind, pure, Except.pure]

theorem process_of_error {e : PacketError} (h : authorized s packet = .error e) (now : Duration) :
    process s packet now = .error e := by
  simp [process, h, bind, Except.bind]

/-! ## The fields that may change -/

/-- The state behind a message of some kind for a tunnel, seen from the state before it: all that
is written as before is as before. -/
def Changes (s s' : State) (tunnel : Tunnel) : Kind → Prop
  | .request => s' = s
  | .deny => s' = s ∨ (s.link tunnel).status = .requesting ∧
      s' = s.updateLink tunnel fun l => { l with status := .down }
  | .hello => s' = s.updateLink tunnel fun l =>
      { l with
        roundTrip := (s'.link tunnel).roundTrip
        helloAnswered := (s'.link tunnel).helloAnswered
        missed := (s'.link tunnel).missed }
  | .notify => s' =
      { s with
        session := { s.session with
          filterCount := s'.session.filterCount
          filterAcked := s'.session.filterAcked }
        lte := { s.lte with verify := s'.lte.verify } }
  | .teardown => s' =
      { s with
        lte := { s.lte with status := .down }
        dsl := { s.dsl with status := .down } }
  | .accept => s' = State.updateLink
      { s with
        session := { s.session with
          server := s'.session.server
          id := s'.session.id
          key := s'.session.key
          helloInterval := s'.session.helloInterval
          helloRetries := s'.session.helloRetries
          bypassInterval := s'.session.bypassInterval } }
      tunnel fun l =>
      { l with
        status := .established
        helloSent := (s'.link tunnel).helloSent
        helloAnswered := (s'.link tunnel).helloAnswered
        missed := (s'.link tunnel).missed }

@[simp] theorem link_updateLink_self (s : State) (t : Tunnel) (f : Link → Link) :
    (s.updateLink t f).link t = f (s.link t) := by cases t <;> rfl

theorem updateLink_congr {s : State} {t : Tunnel} {f g : Link → Link}
    (h : f (s.link t) = g (s.link t)) : s.updateLink t f = s.updateLink t g := by
  cases t <;> simp_all [State.updateLink, State.link]

/-- The link behind the answer to the hello with a stamp. -/
def hear (now : Duration) (l : Link) (stamp : Message.Stamp) : Link :=
  { l with roundTrip := now.since stamp.toDuration, helloAnswered := stamp.toDuration, missed := 0 }

/-- A link hears the stamps that can be read, one after the other. -/
theorem foldl_helloAttribute_eq (now : Duration) (l : Link) (as : List Attribute) :
    as.foldl (helloAttribute now) l =
      (brought Attribute.timestamp (·.asStamp?) as).foldl (hear now) l := by
  induction as generalizing l with
  | nil => rfl
  | cons a as ih =>
    rw [List.foldl_cons, ih, brought_cons, List.foldl_append]
    congr 1
    unfold helloAttribute valueOf?
    split
    · cases ha : a.asStamp? <;> simp [ha, hear]
    · rfl

/-- The answer to a hello brings a round trip and the hello that was answered. -/
theorem foldl_helloAttribute (now : Duration) (l : Link) (as : List Attribute) :
    let l' := as.foldl (helloAttribute now) l
    l' = { l with
      roundTrip := l'.roundTrip
      helloAnswered := l'.helloAnswered
      missed := l'.missed } := by
  induction as generalizing l with
  | nil => rfl
  | cons a as ih =>
    have hstep : ∃ r h n, helloAttribute now l a =
        { l with roundTrip := r, helloAnswered := h, missed := n } := by
      unfold helloAttribute
      split
      · split
        · exact ⟨_, _, _, rfl⟩
        · exact ⟨_, _, _, rfl⟩
      · exact ⟨_, _, _, rfl⟩
    obtain ⟨r, h, n, he⟩ := hstep
    simpa [List.foldl_cons, he] using ih (helloAttribute now l a)

theorem foldl_notifyAttribute (s : State) (as : List Attribute) :
    let s' := as.foldl notifyAttribute s
    s' = { s with
      session := { s.session with
        filterCount := s'.session.filterCount
        filterAcked := s'.session.filterAcked }
      lte := { s.lte with verify := s'.lte.verify } } := by
  induction as generalizing s with
  | nil => rfl
  | cons a as ih =>
    have hstep : ∃ c b v, notifyAttribute s a =
        { s with
          session := { s.session with filterCount := c, filterAcked := b }
          lte := { s.lte with verify := v } } := by
      unfold notifyAttribute
      split
      · split
        · exact ⟨_, _, _, rfl⟩
        · exact ⟨_, _, _, rfl⟩
      · split
        · exact ⟨_, _, _, rfl⟩
        · exact ⟨_, _, _, rfl⟩
    obtain ⟨c, b, v, he⟩ := hstep
    simpa [List.foldl_cons, he] using ih (notifyAttribute s a)

/-- **A message changes only the fields of its kind.** -/
theorem changes_apply (s : State) (m : Message) (now : Duration) :
    Changes s (apply s m now) m.tunnel m.kind := by
  cases hk : m.kind with
  | request => simp only [apply, hk, Changes]
  | accept =>
    simp only [apply, hk, Changes, applyAccept, foldl_acceptAttribute]
    cases m.tunnel <;> rfl
  | deny =>
    simp only [apply, hk, Changes]
    by_cases hl : (s.link m.tunnel).status = .requesting
    · exact Or.inr ⟨hl, updateLink_congr (if_pos hl)⟩
    · have h : s.updateLink m.tunnel denyLink = s.updateLink m.tunnel id :=
        updateLink_congr (if_neg hl)
      rw [h]
      exact Or.inl (by cases m.tunnel <;> rfl)
  | hello =>
    simp only [apply, hk, Changes, link_updateLink_self]
    exact updateLink_congr (foldl_helloAttribute now (s.link m.tunnel) m.attributes)
  | teardown => simp only [apply, hk, Changes, applyTeardown]
  | notify =>
    simp only [apply, hk, Changes]
    exact foldl_notifyAttribute s m.attributes

/-- Whatever the message, links and session are all that changes, and the session keeps what it goes
back to. -/
theorem Changes.rest {s s' : State} {t : Tunnel} {k : Kind} (h : Changes s s' t k) :
    s' = { s with lte := s'.lte, dsl := s'.dsl, session := s'.session } ∧
      s'.session.reset = s.session.reset := by
  cases k with
  | deny =>
    rcases h with rfl | ⟨-, rfl⟩
    · exact ⟨rfl, rfl⟩
    · cases t <;> exact ⟨rfl, rfl⟩
  | hello | accept => cases t <;> (rw [h]; exact ⟨rfl, rfl⟩)
  | request | notify | teardown => rw [h]; exact ⟨rfl, rfl⟩

end

/-! ## Packets at the controller -/

namespace Controller

section
variable {c : Controller} {packet : Bytes} {source : IPv6} {m : Message} {now : Duration}

theorem handle_of_entitled (hs : source = c.state.session.server)
    (hd : Message.decode packet = .ok m) (he : Entitled c.state m) :
    c.handled? packet source now = some m.kind ∧
      c.handle packet source now = c.withState (apply c.state m now) := by
  have hp := process_of_authorized (authorized_eq_ok.2 ⟨hd, he⟩) now
  exact ⟨by simp [handled?, hs, hp, Except.toOption], by simp [handle, hs, after, hp]⟩

theorem handle_of_source_ne (hs : source ≠ c.state.session.server) :
    c.handled? packet source now = none ∧ c.handle packet source now = c :=
  ⟨if_pos hs, if_pos hs⟩

theorem handle_of_error {e : PacketError} (hp : process c.state packet now = .error e) :
    c.handled? packet source now = none ∧ c.handle packet source now = c := by
  by_cases hs : source = c.state.session.server
  · exact ⟨by simp [handled?, hs, hp, Except.toOption], by simp [handle, hs, after, hp, withState]⟩
  · exact handle_of_source_ne hs

theorem process_of_decode_error {e : PacketError} {s : State}
    (h : Message.decode packet = .error e) : process s packet now = .error e :=
  process_of_error (by simp [authorized, h, bind, Except.bind]) now

theorem process_of_not_entitled {s : State} (hd : Message.decode packet = .ok m)
    (hk : m.kind ≠ .accept) (hkey : m.key ≠ s.session.key) :
    process s packet now = .error (.invalidKey m.key) :=
  process_of_error (by simp [authorized, hd, bind, Except.bind, hk, hkey, throw, throwThe,
    MonadExceptOf.throw]) now

/-- A packet is ignored, or the server sent a message that may be acted on. -/
theorem handle_cases (c : Controller) (packet : Bytes) (source : IPv6) (now : Duration) :
    (c.handled? packet source now = none ∧ c.handle packet source now = c) ∨
    ∃ m, source = c.state.session.server ∧ Message.decode packet = .ok m ∧ Entitled c.state m ∧
      c.handled? packet source now = some m.kind ∧
      c.handle packet source now = c.withState (apply c.state m now) := by
  by_cases hs : source = c.state.session.server
  · cases hd : Message.decode packet with
    | error e => exact Or.inl (handle_of_error (process_of_decode_error hd))
    | ok m =>
      by_cases he : Entitled c.state m
      · exact Or.inr ⟨m, hs, rfl, he, handle_of_entitled hs hd he⟩
      · obtain ⟨hkey, hk⟩ := not_or.1 he
        exact Or.inl (handle_of_error (process_of_not_entitled hd hk hkey))
  · exact Or.inl (handle_of_source_ne hs)

end

/-- **A packet of another sender, one that cannot be read and one with a wrong key change nothing;
any other changes the fields of its kind, and nothing else.** -/
theorem handle_changes (c : Controller) (packet : Bytes) (source : IPv6) (now : Duration) :
    let c' := c.handle packet source now
    (source ≠ c.state.session.server → c' = c) ∧
    (∀ e, process c.state packet now = .error e → c' = c) ∧
    (∀ e, Message.decode packet = .error e → c' = c) ∧
    ∀ m, Message.decode packet = .ok m →
      (m.kind ≠ .accept → m.key ≠ c.state.session.key → c' = c) ∧
      (m.kind = .request → c' = c) ∧
      (source = c.state.session.server → m.kind = .accept ∨ m.key = c.state.session.key →
        c.handled? packet source now = some m.kind ∧ c' = c.withState c'.state ∧
        Changes c.state c'.state m.tunnel m.kind) := by
  intro c'
  refine ⟨fun hs => (handle_of_source_ne hs).2, fun e hp => (handle_of_error hp).2,
    fun e hd => (handle_of_error (process_of_decode_error hd)).2, fun m hd => ⟨?_, ?_, ?_⟩⟩
  · intro hk hkey
    exact (handle_of_error (process_of_not_entitled hd hk hkey)).2
  · intro hk
    rcases c.handle_cases packet source now with ⟨-, hc⟩ | ⟨m', -, hd', -, -, hc⟩
    · exact hc
    · obtain rfl : m' = m := Except.ok.inj (hd'.symm.trans hd)
      have hsame := changes_apply c.state m' now
      rw [hk] at hsame
      exact hc.trans (congrArg c.withState hsame)
  · intro hs he
    obtain ⟨hsome, hc⟩ : c.handled? packet source now = some m.kind ∧
        c' = c.withState (apply c.state m now) := handle_of_entitled hs hd he.symm
    have hstate : c'.state = apply c.state m now := congrArg Controller.state hc
    rw [hstate]
    exact ⟨hsome, hc, changes_apply c.state m now⟩

end Controller

end HybridAccess.Control
