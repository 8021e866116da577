/-
  HybridAccess — what a round sends.

  Each act that talks to the server sends at most one message, and only when it
  is due (`Errand.Mails`). The `letters` of a round are these messages in order,
  each with the controller at the moment when it is sent. Together with the
  `parting` of the last round they are all that is sent (`posts_round`). Main
  statement: `round_sends_letters`.
-/
import HybridAccess.Proofs.Control.Hello

namespace HybridAccess.Control

open Message (Attribute Kind Stamp)

/-- A request can be written, whatever the name in it. -/
theorem exists_encode_request (s : Session) (t : Tunnel) (name : Bytes) :
    ∃ packet, (request s t name).encode = .ok packet := by
  have hname : Attribute.sizeAll (if t = .lte then
      [⟨Attribute.clientName, fitted Config.identificationLength name⟩] else []) ≤ 43 := by
    split <;> simp [Attribute.sizeAll, Attribute.encodedLength, Attribute.prefixLength,
      Config.identificationLength]
  have hid : Attribute.sizeAll (if s.id = 0 then [] else [.ofWord Attribute.sessionId s.id]) ≤ 7 := by
    split <;> simp [Attribute.sizeAll, Attribute.encodedLength, Attribute.prefixLength,
      Attribute.ofWord]
  have hpad : Attribute.sizeAll [Attribute.pad] = 3 := rfl
  refine Message.exists_encode_iff.2 ?_
  simp only [request, outbound, Message.size, Message.maxLength, Message.fixedLength,
    Gre.Header.shortLength, Attribute.sizeAll_append, hpad]
  omega

namespace Controller

variable {c d : Controller} {answers : Answers} {now : Duration} {m : Message} {r : Round}

/-! ## Letters -/

/-- A message, and the controller at the moment when it is sent. -/
structure Letter where
  sender : Controller
  message : Message

/-- What sending a letter leaves behind. -/
def Letter.posts (answers : Answers) (l : Letter) : List Effect :=
  (l.sender.send answers l.message).2

/-- A letter that can be written, with the key of the session; only a request may go over a link that
is not established. -/
structure Letter.Proper (l : Letter) : Prop where
  written : ∃ packet, l.message.encode = .ok packet
  key : l.message.key = l.sender.state.session.key
  link : l.message.kind ≠ .request →
    (l.sender.state.link l.message.tunnel).isEstablished = true

/-- A message that can be written is not logged as one that cannot. -/
theorem notEncoded_not_mem_send {packet : Bytes} (hb : m.encode = .ok packet) (kind : Kind)
    (e : PacketError) : Effect.note (.notEncoded kind e) ∉ (c.send answers m).2 := by
  have hposted := posted_send c answers m
  generalize c.send answers m = o at hposted ⊢
  cases hposted with
  | unwritten e he => cases hb.symm.trans he
  | noSocket | sent | refused => simp

/-- What the controller does when it talks to the server, with the messages that it sends. -/
def errands (answers : Answers) (now : Duration) : List Errand :=
  [silent forgetDownLinks, asking answers, acknowledging answers, verifying answers,
    greeting answers now .lte, greeting answers now .dsl, silent (demoteSilentLink .lte),
    silent (demoteSilentLink .dsl), reporting answers now]

theorem map_act_errands (answers : Answers) (now : Duration) :
    (errands answers now).map Errand.act = forgetDownLinks :: talking answers now := rfl

theorem mails_of_mem {e : Errand} (he : e ∈ errands answers now) : e.Mails answers := by
  simp only [errands, List.mem_cons, List.not_mem_nil, or_false] at he
  rcases he with rfl | rfl | rfl | rfl | rfl | rfl | rfl | rfl | rfl
  · exact mails_silent tacit_forgetDownLinks answers
  · exact mails_asking answers
  · exact mails_acknowledging answers
  · exact mails_verifying answers
  · exact mails_greeting answers now .lte
  · exact mails_greeting answers now .dsl
  · exact mails_silent tacit_demoteSilentLink answers
  · exact mails_silent tacit_demoteSilentLink answers
  · exact mails_reporting answers now

/-- The letters of an errand are as they should be. -/
def Errand.Proper (e : Errand) : Prop := ∀ c m, e.due? c = some m → Letter.Proper ⟨c, m⟩

theorem proper_silent (a : Act) : (silent a).Proper := fun _ _ h => by cases h

theorem proper_asking (answers : Answers) : (asking answers).Proper := by
  intro c m h
  obtain ⟨t, -, rfl⟩ := Option.map_eq_some_iff.1 h
  exact ⟨exists_encode_request _ t _, rfl, fun hk => absurd rfl hk⟩

theorem proper_of_due {a : Act} {P : Controller → Prop} [DecidablePred P]
    {f : Controller → Message} (written : ∀ c, ∃ packet, (f c).encode = .ok packet)
    (key : ∀ c, (f c).key = c.state.session.key)
    (link : ∀ c, P c → (c.state.link (f c).tunnel).isEstablished = true) :
    Errand.Proper ⟨a, due P f⟩ := by
  intro c m h
  obtain ⟨hdue, rfl⟩ := due_eq_some.1 h
  exact ⟨written c, key c, fun _ => link c hdue⟩

theorem proper_of_mem {e : Errand} (he : e ∈ errands answers now) : e.Proper := by
  simp only [errands, List.mem_cons, List.not_mem_nil, or_false] at he
  rcases he with rfl | rfl | rfl | rfl | rfl | rfl | rfl | rfl | rfl
  · exact proper_silent _
  · exact proper_asking answers
  · exact proper_of_due (fun _ => ⟨_, rfl⟩) (fun _ => rfl) fun _ h => h.1
  · exact proper_of_due (fun _ => ⟨_, rfl⟩) (fun _ => rfl) fun _ h => h.1
  · exact proper_of_due (fun _ => ⟨_, rfl⟩) (fun _ => rfl) fun _ h => h.1
  · exact proper_of_due (fun _ => ⟨_, rfl⟩) (fun _ => rfl) fun _ h => h.1
  · exact proper_silent _
  · exact proper_silent _
  · exact proper_of_due (fun _ => ⟨_, rfl⟩) (fun _ => rfl) fun _ h => h.1

/-! ## The letters of a round -/

/-- The letters of some errands, each with the controller at that moment. -/
def lettersOf : List Errand → Controller → List Letter
  | [], _ => []
  | e :: es, c => (e.due? c).toList.map (Letter.mk c) ++ lettersOf es (e.act c).controller

/-- The letters that a controller sends when it talks to the server. -/
def letters (c : Controller) (answers : Answers) (now : Duration) : List Letter :=
  lettersOf (errands answers now) c

/-- The letters by which a controller takes leave of the server. -/
def parting (c : Controller) : List Letter :=
  if c.state.allUp then
    [⟨c, linkFailure c.state.session .lte⟩, ⟨c, linkFailure c.state.session .dsl⟩] else []

/-- The letters of a round: those of its errands, and those on parting if it is the last one. -/
def roundLetters (c : Controller) (answers : Answers) (now : Duration) (r : Round) : List Letter :=
  c.letters answers now ++ if r.finished then r.controller.parting else []

section
variable {es fs : List Errand} {e : Errand} {p : Message → Bool}

theorem posts_sequence (h : ∀ e ∈ es, e.Mails answers) (c : Controller) :
    posts (sequence (es.map Errand.act) c).effects =
      (lettersOf es c).flatMap (Letter.posts answers) := by
  induction es generalizing c with
  | nil => rfl
  | cons e es ih =>
    have hfirst := h e List.mem_cons_self c
    have hrest := ih (fun x hx => h x (List.mem_cons_of_mem e hx)) (e.act c).controller
    rw [List.map_cons, sequence_cons, posts_append, hfirst, hrest, lettersOf, List.flatMap_append,
      List.flatMap_map]
    rfl

theorem lettersOf_append (es fs : List Errand) (c : Controller) : lettersOf (es ++ fs) c =
    lettersOf es c ++ lettersOf fs (sequence (es.map Errand.act) c).controller := by
  induction es generalizing c with
  | nil => rfl
  | cons e es ih => simp only [List.cons_append, lettersOf, ih, List.append_assoc, List.map_cons,
      sequence_cons]

theorem mem_lettersOf {l : Letter} (h : l ∈ lettersOf es c) :
    ∃ e ∈ es, e.due? l.sender = some l.message := by
  induction es generalizing c with
  | nil => cases h
  | cons e es ih =>
    rcases List.mem_append.1 h with h | h
    · obtain ⟨m, hm, rfl⟩ := List.mem_map.1 h
      exact ⟨e, List.mem_cons_self, Option.mem_toList.1 hm⟩
    · obtain ⟨x, hx, hdue⟩ := ih h
      exact ⟨x, List.mem_cons_of_mem e hx, hdue⟩

theorem filter_lettersOf_eq_nil (h : ∀ e ∈ es, e.Avoids p) (c : Controller) :
    (lettersOf es c).filter (p ·.message) = [] := by
  refine List.filter_eq_nil_iff.2 fun l hl hp => ?_
  obtain ⟨e, he, hdue⟩ := mem_lettersOf hl
  rw [h e he _ _ hdue] at hp
  cases hp

/-- Where one errand sends messages with a property, and no other does, there is at most one letter
with it. -/
theorem filter_lettersOf (hes : ∀ x ∈ es, x.Avoids p) (he : e.Keeps p) (hfs : ∀ x ∈ fs, x.Avoids p)
    (c : Controller) : (lettersOf (es ++ e :: fs) c).filter (p ·.message) =
      let d := (sequence (es.map Errand.act) c).controller
      (e.due? d).toList.map (Letter.mk d) := by
  rw [lettersOf_append, List.filter_append, filter_lettersOf_eq_nil hes, lettersOf,
    List.filter_append, filter_lettersOf_eq_nil hfs, List.append_nil, List.nil_append]
  refine List.filter_eq_self.2 fun l hl => ?_
  obtain ⟨m, hm, rfl⟩ := List.mem_map.1 hl
  exact he _ m (Option.mem_toList.1 hm)

end

/-! ## What is sent -/

theorem posts_takeLeave (c : Controller) (answers : Answers) :
    posts (takeLeave answers c).effects = c.parting.flatMap (Letter.posts answers) := by
  unfold takeLeave parting
  split
  · simp only [sequence, reportFailure, List.append_nil, posts_append, posts_send,
      List.flatMap_cons, List.flatMap_nil, Letter.posts]
  · split <;> rfl

theorem mem_parting {l : Letter} (h : l ∈ c.parting) :
    c.state.allUp = true ∧ ∃ t, l = ⟨c, linkFailure c.state.session t⟩ := by
  unfold parting at h
  split at h
  · next hup =>
    simp only [List.mem_cons, List.not_mem_nil, or_false] at h
    exact ⟨hup, h.elim (⟨_, ·⟩) (⟨_, ·⟩)⟩
  · exact absurd h List.not_mem_nil

theorem proper_of_mem_parting {l : Letter} (h : l ∈ c.parting) : l.Proper := by
  obtain ⟨hup, t, rfl⟩ := mem_parting h
  obtain ⟨hlte, hdsl⟩ := Bool.and_eq_true_iff.1 hup
  cases t with
  | lte => exact ⟨⟨_, rfl⟩, rfl, fun _ => hlte⟩
  | dsl => exact ⟨⟨_, rfl⟩, rfl, fun _ => hdsl⟩

theorem proper_of_mem_roundLetters {l : Letter} (h : l ∈ c.roundLetters answers now r) :
    l.Proper := by
  rcases List.mem_append.1 h with h | h
  · obtain ⟨e, he, hdue⟩ := mem_lettersOf h
    exact proper_of_mem he _ _ hdue
  · split at h
    · exact proper_of_mem_parting h
    · exact absurd h List.not_mem_nil

/-- A round sends its letters, and nothing else. -/
theorem posts_round (ht : c.tick answers now = .ok r) :
    posts r.effects = (c.roundLetters answers now r).flatMap (Letter.posts answers) := by
  rw [posts_tick ht, ← map_act_errands, posts_sequence fun _ he => mails_of_mem he,
    roundLetters, List.flatMap_append, letters]
  split
  · rw [posts_takeLeave]
  · rfl

/-- What is not sent on parting is sent while the controller talks to the server. -/
theorem filter_roundLetters {p : Message → Bool}
    (hp : ∀ s t, p (linkFailure s t) = false) (c : Controller) (answers : Answers) (now : Duration)
    (r : Round) : (c.roundLetters answers now r).filter (p ·.message) =
      (c.letters answers now).filter (p ·.message) := by
  rw [roundLetters, List.filter_append, List.append_right_eq_self, List.filter_eq_nil_iff]
  intro l hl
  split at hl
  · obtain ⟨-, t, rfl⟩ := mem_parting hl
    rw [hp]
    exact Bool.false_ne_true
  · exact absurd hl List.not_mem_nil

/-! ## Counting letters -/

section
variable (c : Controller) (answers : Answers) (now : Duration)

theorem filter_letters_request : (c.letters answers now).filter (·.message.kind = .request) =
    let d := (forgetDownLinks c).controller
    ((asking answers).due? d).toList.map (Letter.mk d) := by
  have hfirst : ∀ e ∈ [silent forgetDownLinks], e.Avoids (·.kind = .request) :=
    List.forall_mem_singleton.2 (avoids_silent _ _)
  have hkeeps : (asking answers).Keeps (·.kind = .request) := by
    intro c m hm
    obtain ⟨t, -, rfl⟩ := Option.map_eq_some_iff.1 hm
    rfl
  have hlast : ∀ e ∈ [acknowledging answers, verifying answers, greeting answers now .lte,
      greeting answers now .dsl, silent (demoteSilentLink .lte), silent (demoteSilentLink .dsl),
      reporting answers now], e.Avoids (·.kind = .request) := by
    simp only [List.forall_mem_cons]
    exact ⟨avoids_of_due fun _ => rfl, avoids_of_due fun _ => rfl, avoids_of_due fun _ => rfl,
      avoids_of_due fun _ => rfl, avoids_silent _ _, avoids_silent _ _,
      avoids_of_due fun _ => rfl, fun _ h => absurd h List.not_mem_nil⟩
  exact filter_lettersOf hfirst hkeeps hlast c

theorem filter_letters_hello (t : Tunnel) :
    ∃ d, (c.letters answers now).filter (isHello t ·.message) =
      ((greeting answers now t).due? d).toList.map (Letter.mk d) := by
  have hfirst : ∀ e ∈ [silent forgetDownLinks, asking answers, acknowledging answers,
      verifying answers], e.Avoids (isHello t) := by
    simp only [List.forall_mem_cons]
    exact ⟨avoids_silent _ _, avoids_asking fun _ _ _ => rfl, avoids_of_due fun _ => rfl,
      avoids_of_due fun _ => rfl, fun _ h => absurd h List.not_mem_nil⟩
  have hkeeps : (greeting answers now t).Keeps (isHello t) :=
    keeps_of_due fun _ => by simp [isHello, hello, outbound]
  have hlast : ∀ e ∈ [silent (demoteSilentLink .lte), silent (demoteSilentLink .dsl),
      reporting answers now], e.Avoids (isHello t) := by
    simp only [List.forall_mem_cons]
    exact ⟨avoids_silent _ _, avoids_silent _ _, avoids_of_due fun _ => rfl,
      fun _ h => absurd h List.not_mem_nil⟩
  cases t with
  | lte =>
    exact ⟨_, filter_lettersOf hfirst hkeeps
      (List.forall_mem_cons.2 ⟨avoids_greeting (by decide), hlast⟩) c⟩
  | dsl =>
    exact ⟨_, filter_lettersOf (List.forall_mem_append.2
      ⟨hfirst, List.forall_mem_singleton.2 (avoids_greeting (by decide))⟩) hkeeps hlast c⟩

end

theorem wanted?_eq_lte_iff {s : State} : wanted? s = some .lte ↔ s.lte.isEstablished = false := by
  unfold wanted?
  cases s.lte.isEstablished <;> simp

theorem wanted?_eq_dsl_iff {s : State} : wanted? s = some .dsl ↔
    s.bonding = true ∧ s.lte.isEstablished = true ∧ s.dsl.isEstablished = false := by
  unfold wanted?
  cases s.lte.isEstablished <;> simp

/-! ## Main statement -/

/-- What is handed to a link is the packet of a letter. -/
theorem letter_of_transmit {ls : List Letter} {tunnel : Tunnel} {packet : Bytes}
    {destination : IPv6} {failure : Option String}
    (h : .transmit tunnel packet destination failure ∈ ls.flatMap (Letter.posts answers)) :
    ∃ l ∈ ls, l.message.encode = .ok packet ∧ l.message.tunnel = tunnel ∧
      l.sender.state.session.server = destination := by
  obtain ⟨l, hl, he⟩ := List.mem_flatMap.1 h
  obtain ⟨_, _, hb, heq⟩ := carries_of_send he trivial
  cases heq
  exact ⟨l, hl, hb, rfl, rfl⟩

/-- **What a round sends.** No message fails to be written, and each packet handed to a link reads
back as a message of that link, with the key and for the address of the session at that moment. There
is at most one request, as the links want it when it is sent, and at most one hello for each link;
only a request goes over a link that is not established. -/
theorem round_sends_letters (c : Controller) (answers : Answers) (now : Duration) (r : Round)
    (ht : c.tick answers now = .ok r) :
    let letters := c.roundLetters answers now r
    let asker := (forgetDownLinks c).controller
    posts r.effects = letters.flatMap (Letter.posts answers) ∧
    (∀ l ∈ letters, ∃ packet, l.message.encode = .ok packet) ∧
    (∀ kind e, .note (.notEncoded kind e) ∉ r.effects) ∧
    (∀ tunnel packet destination failure,
      .transmit tunnel packet destination failure ∈ r.effects → ∃ l ∈ letters,
        Message.decode packet = .ok l.message ∧ l.message.encode = .ok packet ∧
        l.message.tunnel = tunnel ∧ l.message.key = l.sender.state.session.key ∧
        destination = l.sender.state.session.server ∧
        (l.message.kind ≠ .request → (l.sender.state.link tunnel).isEstablished = true)) ∧
    (∃ asked : Option Tunnel, letters.filter (·.message.kind = .request) =
        (asked.map fun t => ⟨asker, request asker.state.session t asker.identification⟩).toList ∧
      (asked = some .lte ↔ asker.state.lte.isEstablished = false) ∧
      (asked = some .dsl ↔ asker.state.bonding = true ∧ asker.state.lte.isEstablished = true ∧
        asker.state.dsl.isEstablished = false)) ∧
    ∀ t, (letters.filter fun l => l.message.kind = .hello ∧ l.message.tunnel = t).length ≤ 1 := by
  intro letters asker
  have hposts : posts r.effects = letters.flatMap (Letter.posts answers) := posts_round ht
  have hproper : ∀ l ∈ letters, l.Proper := fun l hl => proper_of_mem_roundLetters hl
  have hsent : ∀ e ∈ r.effects, e.isPost = true → e ∈ letters.flatMap (Letter.posts answers) :=
    fun e he hp => hposts ▸ List.mem_filter.2 ⟨he, hp⟩
  refine ⟨hposts, fun l hl => (hproper l hl).written, fun kind e he => ?_, ?_, ?_, fun t => ?_⟩
  · obtain ⟨l, hl, hnote⟩ := List.mem_flatMap.1 (hsent _ he rfl)
    obtain ⟨packet, hb⟩ := (hproper l hl).written
    exact notEncoded_not_mem_send hb kind e hnote
  · intro tunnel packet destination failure he
    obtain ⟨l, hl, hb, rfl, rfl⟩ := letter_of_transmit (hsent _ he rfl)
    exact ⟨l, hl, Message.decode_of_encode hb, hb, rfl, (hproper l hl).key, rfl,
      (hproper l hl).link⟩
  · refine ⟨wanted? asker.state, ?_, wanted?_eq_lte_iff, wanted?_eq_dsl_iff⟩
    rw [filter_roundLetters (p := (·.kind = .request)) fun _ _ => rfl, filter_letters_request]
    dsimp only [asking]
    cases wanted? asker.state <;> rfl
  · obtain ⟨d, hd⟩ := filter_letters_hello c answers now t
    change (letters.filter (isHello t ·.message)).length ≤ 1
    rw [filter_roundLetters (fun _ _ => rfl), hd, List.length_map]
    exact Option.length_toList_le

/-- The first round asks over the cellular link, and sends nothing else. -/
theorem first_round_sends_request :
    ∃ r, (initial .default .unspecified none false false).tick willing .zero = .ok r ∧
      (∀ kind e, .note (.notEncoded kind e) ∉ r.effects) ∧
      ((initial .default .unspecified none false false).roundLetters willing .zero r).map
        (fun l => (l.message.kind, l.message.tunnel)) = [(.request, .lte)] := by
  have hround : ((initial .default .unspecified none false false).tick willing .zero).toOption.map
      (fun r => ((initial .default .unspecified none false false).roundLetters willing .zero r).map
        fun l => (l.message.kind, l.message.tunnel)) = some [(.request, .lte)] := by decide +kernel
  cases hr : (initial .default .unspecified none false false).tick willing .zero with
  | error e => rw [hr] at hround; cases hround
  | ok r =>
    rw [hr] at hround
    obtain ⟨-, -, hnote, -⟩ := round_sends_letters _ _ _ r hr
    exact ⟨r, rfl, hnote, Option.some.inj hround⟩

end Controller

end HybridAccess.Control
