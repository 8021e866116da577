/-
  HybridAccess — the messages that the acts of a round send.

  Each act that talks to the server sends at most one message, and only when it
  is due. An `Errand` is such an act with the message, and `Errand.Mails` says
  that the act sends just this message. What else is known of the packets of an
  act follows from it.
-/
import HybridAccess.Proofs.Control.Transmitted

namespace HybridAccess

theorem Duration.not_lt {a b : Duration} : ¬ a < b ↔ b ≤ a := Nat.not_lt

namespace Control.Controller

variable {c : Controller} {answers : Answers} {m : Message}

/-! ## Errands -/

/-- An act, and the message that it is to send, if there is one. -/
structure Errand where
  act : Act
  due? : Controller → Option Message

namespace Errand

variable {e : Errand} {p : Message → Bool}

/-- The act sends the message that is due, and nothing else. -/
def Mails (answers : Answers) (e : Errand) : Prop :=
  ∀ c, posts (e.act c).effects = (e.due? c).toList.flatMap fun m => (c.send answers m).2

theorem Mails.mem_send (h : e.Mails answers) {x : Effect} (hx : x ∈ (e.act c).effects)
    (ht : x.IsTransmit) : ∃ m, e.due? c = some m ∧ x ∈ (c.send answers m).2 := by
  have hpost : x ∈ posts (e.act c).effects := List.mem_filter.2 ⟨hx, ht.isPost⟩
  rw [h c] at hpost
  obtain ⟨m, hm, hsend⟩ := List.mem_flatMap.1 hpost
  exact ⟨m, Option.mem_toList.1 hm, hsend⟩

/-- What the act hands to a link is the packet of the message that is due. -/
theorem Mails.carries (h : e.Mails answers) {x : Effect} (hx : x ∈ (e.act c).effects)
    (ht : x.IsTransmit) : ∃ m, e.due? c = some m ∧ c.Carries m x := by
  obtain ⟨m, hm, hsend⟩ := h.mem_send hx ht
  exact ⟨m, hm, carries_of_send hsend ht⟩

/-- An errand never sends a message with a property. -/
def Avoids (p : Message → Bool) (e : Errand) : Prop := ∀ c m, e.due? c = some m → p m = false

/-- An errand sends only messages with a property. -/
def Keeps (p : Message → Bool) (e : Errand) : Prop := ∀ c m, e.due? c = some m → p m = true

end Errand

/-- A message that is due under a condition. -/
def due (P : Controller → Prop) [DecidablePred P] (f : Controller → Message) (c : Controller) :
    Option Message := if P c then some (f c) else none

section
variable {a : Act} {P : Controller → Prop} [DecidablePred P] {f : Controller → Message}
  {p : Message → Bool}

theorem due_eq_some : due P f c = some m ↔ P c ∧ m = f c := by
  simp [due, eq_comm]

theorem mails_of_due {g : Controller → Controller} (h : ∀ c, a c =
    if P c then ⟨g c, (c.send answers (f c)).2⟩ else idle c) :
    Errand.Mails answers ⟨a, due P f⟩ := by
  intro c
  simp only [h, due]
  split
  · simpa using posts_send c answers _
  · rfl

theorem avoids_of_due (h : ∀ c, p (f c) = false) : Errand.Avoids p ⟨a, due P f⟩ := by
  intro c m hm
  obtain ⟨-, rfl⟩ := due_eq_some.1 hm
  exact h c

theorem keeps_of_due (h : ∀ c, p (f c) = true) : Errand.Keeps p ⟨a, due P f⟩ := by
  intro c m hm
  obtain ⟨-, rfl⟩ := due_eq_some.1 hm
  exact h c

end

/-- An act that is not to send anything. -/
def silent (a : Act) : Errand := ⟨a, fun _ => none⟩

theorem mails_silent {a : Act} (h : Tacit a) (answers : Answers) : (silent a).Mails answers :=
  fun c => h.posts c

theorem avoids_silent (a : Act) (p : Message → Bool) : (silent a).Avoids p :=
  fun _ _ h => by cases h

/-! ## What is due -/

/-- A list of filters is to be acknowledged, and the cellular link is established. -/
def AckDue (c : Controller) : Prop :=
  c.state.lte.isEstablished = true ∧ c.state.session.filterCount ≠ 0 ∧
    c.state.session.filterAcked = false

/-- The server wants to know that the tunnel works, and the cellular link is established. -/
def VerificationDue (c : Controller) : Prop :=
  c.state.lte.isEstablished = true ∧ c.state.lte.verify = true

/-- The broadband link is established and the time for a report of bypass traffic has come. -/
def BypassDue (now : Duration) (c : Controller) : Prop :=
  c.state.dsl.isEstablished = true ∧ c.state.session.bypassPeriod < now.since c.state.dsl.bypassSent

instance : DecidablePred AckDue := fun _ => inferInstanceAs (Decidable (_ ∧ _))
instance : DecidablePred VerificationDue := fun _ => inferInstanceAs (Decidable (_ ∧ _))
instance (now : Duration) : DecidablePred (BypassDue now) :=
  fun _ => inferInstanceAs (Decidable (_ ∧ _))

/-- Ask the server for the tunnel that is wanted next, if there is one. -/
def asking (answers : Answers) : Errand :=
  ⟨sendRequest answers, fun c => (wanted? c.state).map fun t =>
    request c.state.session t c.identification⟩

/-- Acknowledge filters that came from the server. -/
def acknowledging (answers : Answers) : Errand :=
  ⟨acknowledgeFilters answers, due AckDue fun c => filterListAck c.state.session⟩

/-- Answer a question of the server whether the tunnel is up. -/
def verifying (answers : Answers) : Errand :=
  ⟨verifyTunnel answers, due VerificationDue fun c => tunnelVerification c.state.session⟩

/-- Tell the server, from time to time, how much traffic goes around the tunnel. -/
def reporting (answers : Answers) (now : Duration) : Errand :=
  ⟨reportBypass answers now, due (BypassDue now) fun c =>
    bypassTraffic c.state.session c.bypassRate⟩

/-- Tell the server over a tunnel that the other one has failed. -/
def failing (answers : Answers) (t : Tunnel) : Errand :=
  ⟨reportFailure answers t, fun c => some (linkFailure c.state.session t)⟩

section
variable (c : Controller) (answers : Answers) (now : Duration)

theorem acknowledgeFilters_eq : acknowledgeFilters answers c =
    if c.AckDue then
      ⟨c.withState { c.state with session := { c.state.session with
        filterAcked := (c.send answers (filterListAck c.state.session)).1 } },
        (c.send answers (filterListAck c.state.session)).2⟩
    else idle c := by
  have hdue : ((! c.state.lte.isEstablished) = true ∨ c.state.session.filterCount = 0 ∨
      c.state.session.filterAcked = true) ↔ ¬ c.AckDue := by
    simp only [AckDue, not_and_or, ne_eq, not_not, Bool.not_eq_true', Bool.not_eq_true,
      Bool.not_eq_false]
  simp only [acknowledgeFilters, hdue, ite_not]

theorem verifyTunnel_eq : verifyTunnel answers c =
    if c.VerificationDue then
      ⟨if (c.send answers (tunnelVerification c.state.session)).1 then
        c.withState { c.state with lte := { c.state.lte with verify := false } } else c,
        (c.send answers (tunnelVerification c.state.session)).2⟩
    else idle c := by
  have hdue : ((! c.state.lte.isEstablished) = true ∨ (! c.state.lte.verify) = true) ↔
      ¬ c.VerificationDue := by
    simp only [VerificationDue, not_and_or, Bool.not_eq_true', Bool.not_eq_true]
  simp only [verifyTunnel, hdue, ite_not]
  split
  · split <;> rfl
  · rfl

theorem reportBypass_eq : reportBypass answers now c =
    if c.BypassDue now then
      ⟨c.withState { c.state with dsl := { c.state.dsl with bypassSent := now } },
        (c.send answers (bypassTraffic c.state.session c.bypassRate)).2⟩
    else idle c := by
  have hdue : ((! c.state.dsl.isEstablished) = true ∨
      now.since c.state.dsl.bypassSent ≤ c.state.session.bypassPeriod) ↔ ¬ c.BypassDue now := by
    simp only [BypassDue, not_and_or, Bool.not_eq_true', Bool.not_eq_true, Duration.not_lt]
  simp only [reportBypass, hdue, ite_not]

theorem mails_asking : (asking answers).Mails answers := by
  intro c
  simp only [asking, sendRequest]
  cases wanted? c.state with
  | none => rfl
  | some t =>
    have hsend := posts_send c answers (request c.state.session t c.identification)
    dsimp only
    split <;> simpa using hsend

theorem mails_acknowledging : (acknowledging answers).Mails answers :=
  mails_of_due (acknowledgeFilters_eq · answers)

theorem mails_verifying : (verifying answers).Mails answers :=
  mails_of_due (verifyTunnel_eq · answers)

theorem mails_reporting : (reporting answers now).Mails answers :=
  mails_of_due (reportBypass_eq · answers now)

theorem mails_failing (t : Tunnel) : (failing answers t).Mails answers := by
  intro c
  simpa [failing, reportFailure] using posts_send c answers _

end

theorem avoids_asking {p : Message → Bool} (h : ∀ s t name, p (request s t name) = false) :
    (asking answers).Avoids p := by
  intro c m hm
  obtain ⟨t, -, rfl⟩ := Option.map_eq_some_iff.1 hm
  exact h _ t _

end Control.Controller

end HybridAccess
