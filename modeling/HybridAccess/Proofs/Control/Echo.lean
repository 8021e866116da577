/-
  HybridAccess — answers to hellos.

  An answer brings the stamp of the hello back, and the link remembers the last
  stamp it heard, whichever hello that belongs to (`Hears`). `Waits` is the
  time between two hellos over a link. `answered_hello_counts_iff` says when a
  hello that was answered in this time is not counted as missed by the next
  one: just if no answer to another hello came after it.
-/
import HybridAccess.Proofs.Control.Hello
import HybridAccess.Proofs.Control.Renewal
import HybridAccess.Proofs.Message.Written

namespace HybridAccess.Control

open Message (Attribute Kind Stamp)

/-! ## What a link hears -/

/-- The stamps that a message brings back over a link. -/
def echoed (m : Message) (t : Tunnel) : List Stamp :=
  if m.kind = .hello ∧ m.tunnel = t then brought Attribute.timestamp (·.asStamp?) m.attributes
  else []

/-- A link that has heard some stamps: the last one is that of the answered hello, and no hello
counts as missed. -/
structure Hears (l : Link) (stamps : List Stamp) (l' : Link) : Prop where
  helloSent : l'.helloSent = l.helloSent
  answered : l'.helloAnswered = lastOr l.helloAnswered (stamps.map Stamp.toDuration)
  missed : l'.missed = if stamps = [] then l.missed else 0

namespace Hears

variable {l l' l'' : Link} {xs ys : List Stamp}

theorem trans (h : Hears l xs l') (h' : Hears l' ys l'') : Hears l (xs ++ ys) l'' := by
  refine ⟨h'.helloSent.trans h.helloSent, ?_, ?_⟩
  · rw [h'.answered, h.answered, List.map_append, lastOr_append]
  · rw [h'.missed, h.missed]
    by_cases hy : ys = []
    · simp [hy]
    · simp [hy]

theorem stamp {answered : Duration} {stamp : Stamp} (h : stamp.toDuration = answered) (l : Link)
    (trip : Duration) :
    Hears l [stamp] { l with roundTrip := trip, helloAnswered := answered, missed := 0 } := by
  refine ⟨rfl, ?_, rfl⟩
  rw [← h]
  rfl

theorem foldl (now : Duration) (l : Link) (as : List Attribute) :
    Hears l (brought Attribute.timestamp (·.asStamp?) as)
      (as.foldl (Control.helloAttribute now) l) := by
  rw [foldl_helloAttribute_eq]
  generalize brought Attribute.timestamp (·.asStamp?) as = stamps
  induction stamps generalizing l with
  | nil => exact ⟨rfl, rfl, rfl⟩
  | cons stamp stamps ih => exact (Hears.stamp rfl l _).trans (ih (hear now l stamp))

/-- Only an accept for the link makes it forget what it heard. -/
theorem apply {s : State} {m : Message} {t : Tunnel} (h : ¬ (m.kind = .accept ∧ m.tunnel = t))
    (now : Duration) : Hears (s.link t) (echoed m t) ((apply s m now).link t) := by
  have hc := changes_apply s m now
  by_cases hm : m.kind = .hello ∧ m.tunnel = t
  · obtain ⟨hk, rfl⟩ := hm
    rw [echoed, if_pos ⟨hk, rfl⟩, Control.apply, hk]
    simp only [link_updateLink_self]
    exact foldl now _ _
  · rw [echoed, if_neg hm]
    generalize Control.apply s m now = s' at hc ⊢
    cases hk : m.kind with
    | request => rw [hk] at hc; rw [hc]; exact ⟨rfl, rfl, rfl⟩
    | notify | teardown => rw [hk] at hc; rw [hc]; cases t <;> exact ⟨rfl, rfl, rfl⟩
    | deny =>
      rw [hk] at hc
      rcases hc with rfl | ⟨-, rfl⟩
      · exact ⟨rfl, rfl, rfl⟩
      · rw [link_updateLink]
        split <;> exact ⟨rfl, rfl, rfl⟩
    | hello =>
      rw [hk] at hc
      rw [hc, link_updateLink, if_neg fun ht => hm ⟨hk, ht.symm⟩]
      exact ⟨rfl, rfl, rfl⟩
    | accept =>
      rw [hk] at hc
      rw [hc, link_updateLink, if_neg fun ht => h ⟨hk, ht.symm⟩]
      cases t <;> exact ⟨rfl, rfl, rfl⟩

end Hears

namespace Controller

variable {c d : Controller} {bytes : Bytes} {source : IPv6} {answers : Answers} {now : Duration}
  {r : Round} {t : Tunnel} {stamps : List Stamp}

/-- The stamps that a packet brings back over a link. -/
def heard (c : Controller) (bytes : Bytes) (source : IPv6) (now : Duration) (t : Tunnel) :
    List Stamp :=
  match c.handled? bytes source now, Message.decode bytes with
  | some _, .ok m => echoed m t
  | _, _ => []

theorem hears_handle (h : ¬ c.Accepts bytes source now t) :
    Hears (c.state.link t) (c.heard bytes source now t)
      ((c.handle bytes source now).state.link t) := by
  rcases c.handle_cases bytes source now with ⟨hnone, hc⟩ | ⟨m, -, hm, -, hsome, hc⟩
  · rw [hc, heard, hnone]
    exact ⟨rfl, rfl, rfl⟩
  · rw [hc, heard, hsome, hm]
    exact Hears.apply (fun hk => h ⟨hk.1 ▸ hsome, m, hm, hk.2⟩) now

theorem hears_tick (hquiet : ¬ c.HelloDue now t) (ht : c.tick answers now = .ok r)
    (hup : (r.controller.state.link t).isEstablished = true) :
    Hears (c.state.link t) [] (r.controller.state.link t) := by
  have hlink := alike_greeted ht hup
  rw [greeted, if_neg hquiet] at hlink
  exact ⟨hlink.helloSent, hlink.helloAnswered, hlink.missed⟩

theorem brought_hello (s : Session) (t : Tunnel) (stamp : Stamp) :
    brought Attribute.timestamp (·.asStamp?) (hello s t stamp).attributes = [stamp] := by
  simp [hello, outbound, brought, valueOf?, Attribute.asStamp?, Attribute.pad, Attribute.flag,
    Attribute.padding, Attribute.timestamp, Stamp.decode?_encode]

theorem handled?_echo {s : Session} {stamp : Stamp} (hb : (hello s t stamp).encode = .ok bytes)
    (hkey : s.key = c.state.session.key) (hs : source = c.state.session.server) (now : Duration) :
    c.handled? bytes source now = some .hello :=
  (handle_of_entitled hs (Message.decode_of_encode hb) (Or.inl hkey)).1

/-- The packet of a hello, sent back by the server, brings its stamp. -/
theorem heard_echo {s : Session} {stamp : Stamp} (hb : (hello s t stamp).encode = .ok bytes)
    (hkey : s.key = c.state.session.key) (hs : source = c.state.session.server) (now : Duration) :
    c.heard bytes source now t = [stamp] := by
  rw [heard, handled?_echo hb hkey hs, Message.decode_of_encode hb]
  exact (if_pos ⟨rfl, rfl⟩).trans (brought_hello s t stamp)

/-! ## Between two hellos -/

/-- Some time in which a link is not accepted anew and no hello is sent over it; the stamps are
those that come back. -/
inductive Waits (t : Tunnel) (c : Controller) : List Stamp → Controller → Prop
  | start : Waits t c [] c
  | packet {stamps : List Stamp} {d : Controller} (waits : Waits t c stamps d) (bytes : Bytes)
      (source : IPv6) (now : Duration) (other : ¬ d.Accepts bytes source now t) :
      Waits t c (stamps ++ d.heard bytes source now t) (d.handle bytes source now)
  | round {stamps : List Stamp} {d : Controller} (waits : Waits t c stamps d) (answers : Answers)
      (now : Duration) (r : Round) (possible : d.tick answers now = .ok r)
      (quiet : ¬ d.HelloDue now t) : Waits t c stamps r.controller
  | stop {stamps : List Stamp} {d : Controller} (waits : Waits t c stamps d) :
      Waits t c stamps d.requestShutdown

/-- An answer that comes back as the hello was sent brings its stamp in this time. -/
theorem Waits.answered (h : Waits t c stamps d) {s : Session} {stamp : Stamp}
    (hb : (hello s t stamp).encode = .ok bytes) (hkey : s.key = d.state.session.key)
    (hs : source = d.state.session.server) (now : Duration) :
    Waits t c (stamps ++ [stamp]) (d.handle bytes source now) := by
  rw [← heard_echo hb hkey hs now]
  refine h.packet bytes source now fun haccept => ?_
  have hkind := (handled?_echo hb hkey hs now).symm.trans haccept.1
  cases hkind

/-- A link that is established in the end has been so all the time, and has heard the stamps. -/
theorem Waits.hears (h : Waits t c stamps d) (hup : (d.state.link t).isEstablished = true) :
    (c.state.link t).isEstablished = true ∧ Hears (c.state.link t) stamps (d.state.link t) := by
  induction h with
  | start => exact ⟨hup, rfl, rfl, rfl⟩
  | packet _ bytes source now other ih =>
    obtain ⟨hstart, hears⟩ := ih ((established_handle hup).resolve_right other)
    exact ⟨hstart, hears.trans (hears_handle other)⟩
  | round _ answers now r possible quiet ih =>
    obtain ⟨hstart, hears⟩ := ih (established_tick possible hup)
    have hround := hears.trans (hears_tick quiet possible hup)
    rw [List.append_nil] at hround
    exact ⟨hstart, hround⟩
  | stop _ ih => cases t <;> exact ih hup

theorem helloSent_tick (hdue : c.HelloDue now t) (ht : c.tick answers now = .ok r)
    (hup : (r.controller.state.link t).isEstablished = true) :
    (r.controller.state.link t).helloSent = (Stamp.ofUptime now).toDuration := by
  rw [(alike_greeted ht hup).helloSent, greeted, if_pos hdue, Link.greet]

/-- A hello finds the link as it should be just if the hello before it was the one answered last. -/
theorem greeted_unmissed_iff (hdue : c.HelloDue now t) (ht : c.tick answers now = .ok r)
    (hmissed : (c.state.link t).missed = 0) :
    ((r.controller.state.link t).isEstablished = true ∧
        (r.controller.state.link t).missed = (c.state.link t).missed) ↔
      (c.state.link t).helloAnswered = (c.state.link t).helloSent := by
  have hlink := alike_tick hdue.1 ht
  have hup := c.isEstablished_greeted now t
  have hpos := c.state.session.retryLimit_pos
  have hgreet : (c.greeted now t).missed =
      if (c.state.link t).helloAnswered = (c.state.link t).helloSent then 0 else 1 := by
    rw [greeted, if_pos hdue, Link.greet, hmissed]
  rw [hmissed]
  split at hlink
  · next hlimit =>
    -- the link is given up, which only a missed hello can lead to
    have hne : (c.state.link t).helloAnswered ≠ (c.state.link t).helloSent := fun he => by
      rw [hgreet, if_pos he] at hlimit
      omega
    rw [hlink.isEstablished]
    exact iff_of_false (fun h => by cases h.1) hne
  · rw [hlink.isEstablished, hlink.missed, hup, hdue.1, hgreet]
    split <;> simp [*]

/-- **A hello that was answered is not counted as missed by the next one just if the answer that
came last before this was to that hello.** -/
theorem answered_hello_counts_iff (c d : Controller) (t : Tunnel) (answers answers' : Answers)
    (sent next : Duration) (r r' : Round) (stamps : List Stamp)
    (hsent : c.HelloDue sent t) (ht : c.tick answers sent = .ok r)
    (hwaits : Waits t r.controller stamps d) (hecho : Stamp.ofUptime sent ∈ stamps)
    (hnext : d.HelloDue next t) (ht' : d.tick answers' next = .ok r') :
    ((r'.controller.state.link t).isEstablished = true ∧
        (r'.controller.state.link t).missed = (d.state.link t).missed) ↔
      stamps.getLast?.map Stamp.toDuration = some (Stamp.ofUptime sent).toDuration := by
  obtain ⟨hup, hears⟩ := hwaits.hears hnext.1
  have hne : stamps ≠ [] := List.ne_nil_of_mem hecho
  have hmissed : (d.state.link t).missed = 0 := by rw [hears.missed, if_neg hne]
  have hlast : stamps.getLast? = some (stamps.getLast hne) := List.getLast?_eq_some_getLast hne
  rw [greeted_unmissed_iff hnext ht' hmissed, hears.answered, hears.helloSent,
    helloSent_tick hsent ht hup, lastOr, List.getLast?_map, hlast]
  simp

/-! ## A delayed answer -/

/-- The default settings, but a hello every second. -/
def everySecond : Config := { Config.default with helloInterval := 1 }

/-- The answer to the cellular hello that was sent after some seconds, for the session with the
key 7. -/
def echo (seconds : UInt8) : Bytes :=
  [0x20, 0, 1, 1, 0, 0, 0, 7, 0x40, 5, 0, 8, 0, 0, 0, seconds, 0, 0, 0, 0, 0xFF, 0, 0]

/-- An accept after one second, and a hello after two seconds, which is answered. -/
def firstAnswer : List Input :=
  [.packet acceptance Config.default.anycast (.ofSeconds 1), .round willing (.ofSeconds 2),
    .packet (echo 2) Config.default.anycast (.ofSeconds 2)]

/-- The controller after a round in which nothing is refused. -/
def willingRound (c : Controller) (now : Duration) : Controller :=
  (c.tick willing now).toOption.elim c Round.controller

theorem exists_willingRound (c : Controller) (now : Duration)
    (h : (c.tick willing now).toOption.isSome = true) :
    ∃ r, c.tick willing now = .ok r ∧ r.controller = c.willingRound now := by
  cases hr : c.tick willing now with
  | error e => rw [hr] at h; cases h
  | ok r => exact ⟨r, rfl, by rw [willingRound, hr]; rfl⟩

/-- The controller when a second hello is due, after three seconds. -/
def answeredOnce : Controller :=
  (willingRound ((initial everySecond .unspecified none false false).handle acceptance
    Config.default.anycast (.ofSeconds 1)) (.ofSeconds 2)).handle (echo 2) Config.default.anycast
    (.ofSeconds 2)

/-- The controller with the second hello sent. -/
def askedTwice : Controller := answeredOnce.willingRound (.ofSeconds 3)

/-- The controller with an answer handled at the time of the second hello. -/
def answering (c : Controller) (seconds : UInt8) : Controller :=
  c.handle (echo seconds) Config.default.anycast (.ofSeconds 3)

theorem run_firstAnswer : ∃ k, (initial everySecond .unspecified none false false).run firstAnswer =
    .ok k ∧ k.controller = answeredOnce := by
  obtain ⟨r, hr, hc⟩ := exists_willingRound ((initial everySecond .unspecified none false
    false).handle acceptance Config.default.anycast (.ofSeconds 1)) (.ofSeconds 2)
    (by decide +kernel)
  refine ⟨⟨answeredOnce, [r]⟩, Course.follow_cons_eq_ok.2 ⟨_, rfl, Course.follow_cons_eq_ok.2
    ⟨_, Course.next_round_eq_ok.2 ⟨r, hr, rfl⟩, ?_⟩⟩, by dsimp only⟩
  rw [hc]
  rfl

theorem tick_answeredOnce : ∃ r, answeredOnce.tick willing (.ofSeconds 3) = .ok r ∧
    r.controller = askedTwice := exists_willingRound _ _ (by decide +kernel)

theorem Waits.answering {seconds : UInt8} {stamp : Stamp} (h : Waits .lte c stamps d)
    (hb : (hello d.state.session .lte stamp).encode = .ok (echo seconds))
    (hs : Config.default.anycast = d.state.session.server) :
    Waits .lte c (stamps ++ [stamp]) (d.answering seconds) :=
  h.answered hb rfl hs _

/-- A late answer to the hello before does no harm as long as the answer comes after it. -/
theorem answered_hello_counts : ∃ k r d r',
    (initial everySecond .unspecified none false false).run firstAnswer = .ok k ∧
    k.controller.HelloDue (.ofSeconds 3) .lte ∧
    k.controller.tick willing (.ofSeconds 3) = .ok r ∧
    Waits .lte r.controller [⟨2, 0⟩, ⟨3, 0⟩] d ∧ d.HelloDue (.ofSeconds 4) .lte ∧
    d.tick willing (.ofSeconds 4) = .ok r' ∧
    (r'.controller.state.link .lte).isEstablished = true ∧
    (r'.controller.state.link .lte).missed = (d.state.link .lte).missed := by
  obtain ⟨k, hrun, hk⟩ := run_firstAnswer
  obtain ⟨r, hr, hc⟩ := tick_answeredOnce
  obtain ⟨r', hr', -⟩ := exists_willingRound ((askedTwice.answering 2).answering 3)
    (.ofSeconds 4) (by decide +kernel)
  have hsent : answeredOnce.HelloDue (.ofSeconds 3) .lte := by decide +kernel
  have hnext : ((askedTwice.answering 2).answering 3).HelloDue (.ofSeconds 4) .lte := by
    decide +kernel
  have hwaits : Waits .lte r.controller [⟨2, 0⟩, ⟨3, 0⟩]
      ((askedTwice.answering 2).answering 3) := by
    rw [hc]
    exact (Waits.start.answering (by decide +kernel) (by decide +kernel)).answering
      (by decide +kernel) (by decide +kernel)
  have hcounts := (answered_hello_counts_iff _ _ .lte willing willing (.ofSeconds 3) (.ofSeconds 4)
    r r' [⟨2, 0⟩, ⟨3, 0⟩] hsent hr hwaits (by decide +kernel) hnext hr').2 (by decide +kernel)
  rw [← hk] at hsent hr
  exact ⟨k, r, _, r', hrun, hsent, hr, hwaits, hnext, hr', hcounts⟩

/-- The second hello is answered by its own packet, and behind that the first answer comes once
more: the third hello counts the second one as missed. -/
theorem answered_hello_missed : ∃ k r r',
    (initial everySecond .unspecified none false false).run firstAnswer = .ok k ∧
    k.controller.HelloDue (.ofSeconds 3) .lte ∧
    (hello k.controller.state.session .lte (Stamp.ofUptime (.ofSeconds 3))).encode.toOption =
      some (echo 3) ∧
    k.controller.tick willing (.ofSeconds 3) = .ok r ∧
    let d := (r.controller.answering 3).answering 2
    d.HelloDue (.ofSeconds 4) .lte ∧ d.tick willing (.ofSeconds 4) = .ok r' ∧
    (d.state.link .lte).missed = 0 ∧ (r'.controller.state.link .lte).isEstablished = true ∧
    (r'.controller.state.link .lte).missed = 1 := by
  obtain ⟨k, hrun, hk⟩ := run_firstAnswer
  obtain ⟨r, hr, hc⟩ := tick_answeredOnce
  obtain ⟨r', hr', hc'⟩ := exists_willingRound ((askedTwice.answering 3).answering 2)
    (.ofSeconds 4) (by decide +kernel)
  refine ⟨k, r, r', hrun, ?_, ?_, hk ▸ hr, ?_⟩
  · rw [hk]
    decide +kernel
  · rw [hk]
    decide +kernel
  · rw [hc, hc']
    exact ⟨by decide +kernel, hr', by decide +kernel, by decide +kernel, by decide +kernel⟩

end Controller

end HybridAccess.Control
