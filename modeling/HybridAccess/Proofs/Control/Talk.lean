/-
  HybridAccess — the talking part of a round.

  In the first part of a round the controller talks to the server (`talking`).
  `Talk` says what may differ afterwards: the links and the acknowledgement of
  filters. No link becomes established by it, packets are handed to the links
  and notices are logged. `talk_round` puts the acts of this part together.
-/
import Mathlib.Logic.Basic
import HybridAccess.Control.Controller

namespace HybridAccess

/-- A link that is down has nothing to remember. -/
def State.Tidy (s : State) : Prop := ∀ t, (s.link t).status = .down → (s.link t).isPristine = true

namespace Control

/-- Packets are handed to links and notices are logged, and nothing else is done. -/
def Effect.IsTalk : Effect → Prop
  | transmit .. | note _ => True
  | _ => False

theorem Effect.IsTalk.event? {e : Effect} (h : e.IsTalk) : e.event? = none := by
  cases e <;> first | rfl | exact h.elim

namespace Controller

/-! ## Several acts in order -/

theorem sequence_nil (c : Controller) : sequence [] c = ⟨c, []⟩ := rfl

theorem sequence_cons (a : Act) (as : List Act) (c : Controller) :
    sequence (a :: as) c = ⟨(sequence as (a c).controller).controller,
      (a c).effects ++ (sequence as (a c).controller).effects⟩ := rfl

theorem sequence_append (as bs : List Act) (c : Controller) :
    sequence (as ++ bs) c =
      ⟨(sequence bs (sequence as c).controller).controller,
        (sequence as c).effects ++ (sequence bs (sequence as c).controller).effects⟩ := by
  induction as generalizing c with
  | nil => rfl
  | cons a as ih => simp only [List.cons_append, sequence, ih, List.append_assoc]

/-- What holds of doing nothing and of doing one thing after another holds of several acts, if it
holds of each one. -/
theorem sequence_induction {R : Controller → List Effect → Controller → Prop} {as : List Act}
    (refl : ∀ c, R c [] c)
    (trans : ∀ c d e es fs, R c es d → R d fs e → R c (es ++ fs) e)
    (h : ∀ a ∈ as, ∀ c, R c (a c).effects (a c).controller) (c : Controller) :
    R c (sequence as c).effects (sequence as c).controller := by
  induction as generalizing c with
  | nil => exact refl c
  | cons a as ih =>
    exact trans _ _ _ _ _ (h a List.mem_cons_self c)
      (ih (fun b hb => h b (List.mem_cons_of_mem a hb)) _)

/-! ## Talking to the server -/

/-- A link after the controller has talked: it was established if it is, and it is not left down
with something to remember. -/
structure LinkTalk (l l' : Link) : Prop where
  established : l'.isEstablished = true → l.isEstablished = true
  tidy : (l.status = .down → l.isPristine = true) → l'.status = .down → l'.isPristine = true

namespace LinkTalk

theorem refl (l : Link) : LinkTalk l l := ⟨id, id⟩

theorem trans {l l' l'' : Link} (h : LinkTalk l l') (h' : LinkTalk l' l'') : LinkTalk l l'' :=
  ⟨h.established ∘ h'.established, h'.tidy ∘ h.tidy⟩

theorem of_established {l l' : Link} (h : l.isEstablished = true) (h' : l'.status = l.status) :
    LinkTalk l l' := by
  have hl : l.status = .established := by simpa [Link.isEstablished] using h
  refine ⟨fun _ => h, fun _ hd => ?_⟩
  rw [h', hl] at hd
  cases hd

theorem requesting (l : Link) : LinkTalk l { l with status := .requesting } :=
  ⟨fun h => (by cases h), fun _ h => (by cases h)⟩

theorem reset (l : Link) : LinkTalk l l.reset := ⟨fun h => (by cases h), fun _ _ => rfl⟩

end LinkTalk

/-- What may differ when the controller has talked to the server. -/
structure Talk (c : Controller) (effects : List Effect) (d : Controller) : Prop where
  rest : d = c.withState
    { c.state with
      lte := d.state.lte
      dsl := d.state.dsl
      session := { c.state.session with filterAcked := d.state.session.filterAcked } }
  link : ∀ t, LinkTalk (c.state.link t) (d.state.link t)
  effects : ∀ e ∈ effects, e.IsTalk

namespace Talk

theorem refl (c : Controller) : Talk c [] c :=
  ⟨rfl, fun _ => .refl _, fun _ h => absurd h List.not_mem_nil⟩

theorem trans (c d e : Controller) (es fs : List Effect) (h : Talk c es d) (h' : Talk d fs e) :
    Talk c (es ++ fs) e := by
  refine ⟨?_, fun t => (h.link t).trans (h'.link t), fun x hx => ?_⟩
  · rw [h'.rest, h.rest]; rfl
  · rcases List.mem_append.1 hx with hx | hx
    · exact h.effects x hx
    · exact h'.effects x hx

/-- The controller only sends and logs. -/
theorem of_effects (c : Controller) {es : List Effect} (h : ∀ e ∈ es, e.IsTalk) : Talk c es c :=
  ⟨rfl, fun _ => .refl _, h⟩

theorem of_updateLink {c : Controller} {es : List Effect} {t : Tunnel} {f : Link → Link}
    (hl : LinkTalk (c.state.link t) (f (c.state.link t))) (h : ∀ e ∈ es, e.IsTalk) :
    Talk c es (c.withState (c.state.updateLink t f)) := by
  refine ⟨by cases t <;> rfl, fun t' => ?_, h⟩
  cases t <;> cases t'
  · exact hl
  · exact .refl _
  · exact .refl _
  · exact hl

end Talk

/-- What sending a message can do. -/
inductive Posted (c : Controller) (answers : Answers) (m : Message) : Bool × List Effect → Prop
  | noSocket (dsl : m.tunnel = .dsl) (socket : c.hasDsl = false) :
    Posted c answers m (false, [.note (.noSocket m.tunnel)])
  | unwritten (e : PacketError) (encode : m.encode = .error e) :
    Posted c answers m (false, [.note (.notEncoded m.kind e)])
  | sent (packet : Bytes) (encode : m.encode = .ok packet) (taken : answers.transmit m = none) :
    Posted c answers m (true, [.transmit m.tunnel packet c.state.session.server none,
      .note (.sent m.kind m.tunnel), .note (.contents m.kind packet)])
  | refused (packet : Bytes) (reason : String) (encode : m.encode = .ok packet)
    (refused : answers.transmit m = some reason) :
    Posted c answers m (false, [.transmit m.tunnel packet c.state.session.server (some reason),
      .note (.notSent m.kind m.tunnel reason)])

section
variable (c : Controller) (answers : Answers) (now : Duration)

theorem posted_send (m : Message) : Posted c answers m (c.send answers m) := by
  unfold send
  split
  · next h => exact .noSocket h.1 (by simpa using h.2)
  · cases hb : m.encode with
    | error e => exact .unwritten e hb
    | ok packet =>
      cases ha : answers.transmit m with
      | none => exact .sent packet hb ha
      | some reason => exact .refused packet reason hb ha

theorem isTalk_send (m : Message) : ∀ e ∈ (c.send answers m).2, e.IsTalk := by
  have h := posted_send c answers m
  generalize c.send answers m = o at h ⊢
  cases h <;> simp [Effect.IsTalk]

theorem talk_idle : Talk c (idle c).effects (idle c).controller := .refl c

theorem link_forgetDownLinks (t : Tunnel) : (forgetDownLinks c).controller.state.link t =
    if (c.state.link t).status = .down ∧ ! (c.state.link t).isPristine then (c.state.link t).reset
    else c.state.link t := by
  cases t <;> rfl

theorem tidy_forgetDownLinks : (forgetDownLinks c).controller.state.Tidy := by
  intro t
  rw [link_forgetDownLinks]
  split
  · exact fun _ => rfl
  · next h => intro hd; simpa [hd] using h

theorem talk_forgetDownLinks :
    Talk c (forgetDownLinks c).effects (forgetDownLinks c).controller := by
  refine ⟨rfl, fun t => ?_, fun _ h => absurd h List.not_mem_nil⟩
  rw [link_forgetDownLinks]
  split
  · exact .reset _
  · exact .refl _

theorem talk_sendRequest :
    Talk c (sendRequest answers c).effects (sendRequest answers c).controller := by
  unfold sendRequest
  split
  · exact talk_idle c
  · next t _ =>
    have he := isTalk_send c answers (request c.state.session t c.identification)
    generalize c.send answers (request c.state.session t c.identification) = r at he ⊢
    obtain ⟨sent, es⟩ := r
    cases sent with
    | true => exact .of_updateLink (.requesting _) he
    | false => exact .of_effects c he

theorem talk_acknowledgeFilters :
    Talk c (acknowledgeFilters answers c).effects (acknowledgeFilters answers c).controller := by
  unfold acknowledgeFilters
  dsimp only
  split
  · exact talk_idle c
  · exact ⟨rfl, fun t => by cases t <;> exact .refl _, isTalk_send c answers _⟩

theorem talk_verifyTunnel :
    Talk c (verifyTunnel answers c).effects (verifyTunnel answers c).controller := by
  unfold verifyTunnel
  dsimp only
  split
  · exact talk_idle c
  · next h =>
    have he := isTalk_send c answers (tunnelVerification c.state.session)
    generalize c.send answers (tunnelVerification c.state.session) = r at he ⊢
    obtain ⟨sent, es⟩ := r
    cases sent with
    | true =>
      have hl : c.state.lte.isEstablished = true := by simpa using (not_or.1 h).1
      exact .of_updateLink (t := .lte) (f := fun l => { l with verify := false })
        (.of_established hl rfl) he
    | false => exact .of_effects c he

theorem talk_sendHello (t : Tunnel) :
    Talk c (sendHello answers now t c).effects (sendHello answers now t c).controller := by
  unfold sendHello
  dsimp only
  split
  · exact talk_idle c
  · next h =>
    have hl : (c.state.link t).isEstablished = true := by simpa using (not_or.1 h).1
    refine .of_updateLink (.of_established hl rfl) fun e he => ?_
    rcases List.mem_append.1 he with he | he
    · split at he
      · exact absurd he List.not_mem_nil
      · rw [List.mem_singleton.1 he]; trivial
    · exact isTalk_send c answers _ e he

theorem talk_demoteSilentLink (t : Tunnel) :
    Talk c (demoteSilentLink t c).effects (demoteSilentLink t c).controller := by
  unfold demoteSilentLink
  dsimp only
  split
  · refine .of_updateLink (.reset _) fun e he => ?_
    rw [List.mem_singleton.1 he]; trivial
  · exact talk_idle c

theorem talk_reportBypass :
    Talk c (reportBypass answers now c).effects (reportBypass answers now c).controller := by
  unfold reportBypass
  dsimp only
  split
  · exact talk_idle c
  · next h =>
    have hl : c.state.dsl.isEstablished = true := by simpa using (not_or.1 h).1
    exact .of_updateLink (t := .dsl) (f := fun l => { l with bypassSent := now })
      (.of_established hl rfl) (isTalk_send c answers _)

/-- The acts that only talk to the server. -/
def talking (answers : Answers) (now : Duration) : List Act :=
  [sendRequest answers, acknowledgeFilters answers, verifyTunnel answers,
    sendHello answers now .lte, sendHello answers now .dsl, demoteSilentLink .lte,
    demoteSilentLink .dsl, reportBypass answers now]

theorem talk_of_mem {a : Act} (ha : a ∈ talking answers now) :
    Talk c (a c).effects (a c).controller := by
  simp only [talking, List.mem_cons, List.not_mem_nil, or_false] at ha
  rcases ha with rfl | rfl | rfl | rfl | rfl | rfl | rfl | rfl
  · exact talk_sendRequest c answers
  · exact talk_acknowledgeFilters c answers
  · exact talk_verifyTunnel c answers
  · exact talk_sendHello c answers now .lte
  · exact talk_sendHello c answers now .dsl
  · exact talk_demoteSilentLink c .lte
  · exact talk_demoteSilentLink c .dsl
  · exact talk_reportBypass c answers now

theorem talk_talking : Talk c (sequence (talking answers now) c).effects
    (sequence (talking answers now) c).controller :=
  sequence_induction Talk.refl Talk.trans (fun _ ha c => talk_of_mem c answers now ha) c

/-- **The first part of a round only talks, and leaves no link down with something to remember.** -/
theorem talk_round : let o := sequence (forgetDownLinks :: talking answers now) c
    Talk c o.effects o.controller ∧ o.controller.state.Tidy := by
  rw [sequence_cons]
  have h := talk_talking (forgetDownLinks c).controller answers now
  generalize sequence (talking answers now) (forgetDownLinks c).controller = o at h ⊢
  exact ⟨Talk.trans _ _ _ _ _ (talk_forgetDownLinks c) h,
    fun t => (h.link t).tidy (tidy_forgetDownLinks c t)⟩

end

end Controller

end Control

end HybridAccess
