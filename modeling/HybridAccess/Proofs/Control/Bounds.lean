/-
  HybridAccess — numbers that stay in range.

  A round counts at most one hello of each established link as missed
  (`missed_prefix`), and gives up every link that has missed as many as the
  limit, which is a word; a packet never counts one. So the counters stay words
  at every moment of a round (`Bounded`), whatever an accept makes of the limit
  in between. The sums of the control plane are those of stamps and of the ends
  of leases. Main statement: `numbers_in_range`.
-/
import HybridAccess.Proofs.Control.Echo
import HybridAccess.Proofs.Control.Range

namespace HybridAccess

/-- The sum that a stamp stands for is in range. -/
theorem Message.Stamp.add?_eq (s : Stamp) : (Duration.ofSeconds s.seconds.toNat).add?
    (.ofMillis s.milliseconds.toNat) = .ok s.toDuration := by
  have hs := s.seconds.toNat_lt
  have hm := s.milliseconds.toNat_lt
  refine if_pos ?_
  simp only [Duration.ofSeconds, Duration.ofMillis, Duration.limit, Duration.second, UInt64.size]
  omega

theorem Session.retryLimit_lt (s : Session) : s.retryLimit < UInt32.size := by
  unfold retryLimit
  split
  · decide
  · exact s.helloRetries.toNat_lt

open Message (Stamp)

namespace Control.Controller

variable {c : Controller} {answers : Answers} {now : Duration} {r : Round} {t : Tunnel}
  {as : List Act}

/-! ## Counting -/

/-- A link that has missed no more hellos than before, and is established only if it was. -/
structure Uncounted (l l' : Link) : Prop where
  established : l'.isEstablished = true → l.isEstablished = true
  missed : l'.missed ≤ l.missed

namespace Uncounted

theorem refl (l : Link) : Uncounted l l := ⟨id, Nat.le_refl _⟩

theorem trans {l l' l'' : Link} (h : Uncounted l l') (h' : Uncounted l' l'') : Uncounted l l'' :=
  ⟨h.established ∘ h'.established, Nat.le_trans h'.missed h.missed⟩

theorem of_alike {l l' : Link} (h : l.Alike l') : Uncounted l l' :=
  ⟨fun hup => h.isEstablished ▸ hup, Nat.le_of_eq h.missed⟩

theorem reset (l : Link) : Uncounted l l.reset := ⟨fun h => (by cases h), Nat.zero_le _⟩

end Uncounted

/-- An act that counts no hello over a link as missed. -/
def Spares (t : Tunnel) (a : Act) : Prop :=
  ∀ c : Controller, Uncounted (c.state.link t) ((a c).controller.state.link t)

theorem Leaves.spares {a : Act} (h : Leaves t a) : Spares t a := fun c => .of_alike (h c)

theorem spares_sequence (h : ∀ a ∈ as, Spares t a) : Spares t (sequence as) :=
  sequence_induction (R := fun c _ d => Uncounted (c.state.link t) (d.state.link t))
    (fun _ => .refl _) (fun _ _ _ _ _ h h' => h.trans h') h

theorem spares_forgetDownLinks : Spares t forgetDownLinks := by
  intro c
  rw [link_forgetDownLinks]
  split
  · exact .reset _
  · exact .refl _

theorem spares_sendRequest : Spares t (sendRequest answers) := by
  intro c
  rcases controller_sendRequest c answers with hs | ⟨t', -, hs⟩
  · rw [hs]
    exact .refl _
  · rw [hs, state_withState, link_updateLink]
    split
    · exact ⟨fun h => (by cases h), Nat.le_refl _⟩
    · exact .refl _

theorem spares_demoteSilentLink (t' : Tunnel) : Spares t (demoteSilentLink t') := by
  intro c
  rw [controller_demoteSilentLink]
  split
  · rw [state_withState, link_updateLink]
    split
    · exact .reset _
    · exact .refl _
  · exact .refl _

theorem leaves_resetSession : Leaves t resetSession := by
  intro c
  unfold resetSession
  split
  · exact .refl _
  · rw [controller_releaseLeases]
    cases t <;> exact .refl _

theorem leaves_updateDevice : Leaves t (updateDevice answers) := by
  intro c
  unfold updateDevice
  split
  · unfold createDevice
    cases answers.create <;> cases t <;> exact .refl _
  · split
    · cases t <;> exact .refl _
    · exact .refl _

theorem leaves_pollHelper (family : Dhcp.Family) : Leaves t (pollHelper answers now family) := by
  intro c
  have hpolled := polled_pollHelper c answers now family
  dsimp only at hpolled
  generalize (pollHelper answers now family c).controller = d at hpolled ⊢
  generalize (pollHelper answers now family c).effects.filterMap Effect.event? = es at hpolled
  cases hpolled with
  | quiet => exact .refl _
  | started | ended => rw [state_setHelper]; exact .refl _
  | leased => rw [state_withLease, State.link_setLease, state_setHelper]; exact .refl _

theorem missed_greeted_le (c : Controller) (now : Duration) (t : Tunnel) :
    (c.greeted now t).missed ≤
      (c.state.link t).missed + if (c.state.link t).isEstablished then 1 else 0 := by
  rw [greeted]
  split
  · next hdue =>
    rw [if_pos hdue.1, Link.greet]
    dsimp only
    split <;> omega
  · exact Nat.le_add_right _ _

/-- Around its hello, nothing in a round counts a hello of a link as missed. -/
theorem exists_acts_split (answers : Answers) (now : Duration) (t : Tunnel) :
    ∃ before behind : List Act,
      acts answers now = before ++ sendHello answers now t :: behind ∧
      (∀ a ∈ before, Spares t a) ∧ ∀ a ∈ behind, Spares t a := by
  have hfirst : ∀ a ∈ [forgetDownLinks, sendRequest answers, acknowledgeFilters answers,
      verifyTunnel answers], Spares t a := by
    simp only [List.forall_mem_cons]
    exact ⟨spares_forgetDownLinks, spares_sendRequest, leaves_acknowledgeFilters.spares,
      leaves_verifyTunnel.spares, fun _ h => absurd h List.not_mem_nil⟩
  have hlast : ∀ a ∈ [demoteSilentLink .lte, demoteSilentLink .dsl, reportBypass answers now,
      resetSession, updateDevice answers, pollHelper answers now .ipv4,
      pollHelper answers now .ipv6], Spares t a := by
    simp only [List.forall_mem_cons]
    exact ⟨spares_demoteSilentLink .lte, spares_demoteSilentLink .dsl, leaves_reportBypass.spares,
      leaves_resetSession.spares, leaves_updateDevice.spares, (leaves_pollHelper .ipv4).spares,
      (leaves_pollHelper .ipv6).spares, fun _ h => absurd h List.not_mem_nil⟩
  have hother : ∀ t', t ≠ t' → Spares t (sendHello answers now t') := fun _ h =>
    (leaves_sendHello h).spares
  cases t with
  | lte => exact ⟨_, _, rfl, hfirst, List.forall_mem_cons.2 ⟨hother .dsl (by decide), hlast⟩⟩
  | dsl =>
    exact ⟨[forgetDownLinks, sendRequest answers, acknowledgeFilters answers,
      verifyTunnel answers] ++ [sendHello answers now .lte], _, rfl, List.forall_mem_append.2
        ⟨hfirst, List.forall_mem_singleton.2 (hother .lte (by decide))⟩, hlast⟩

/-- **Up to any moment of a round, at most one hello of a link is counted as missed, and none of a
link that is not established.** -/
theorem missed_prefix (h : as <+: acts answers now) (c : Controller) (t : Tunnel) :
    ((sequence as c).controller.state.link t).missed ≤
      (c.state.link t).missed + if (c.state.link t).isEstablished then 1 else 0 := by
  obtain ⟨before, behind, hacts, hbefore, hbehind⟩ := exists_acts_split answers now t
  rw [hacts] at h
  -- the acts stop before the hello of the link, or go on behind it
  rcases List.prefix_or_prefix_of_prefix h (List.prefix_append before _) with hshort | ⟨q, rfl⟩
  · have hspares := spares_sequence (fun a ha => hbefore a (hshort.subset ha)) c
    exact Nat.le_trans hspares.missed (Nat.le_add_right _ _)
  · have hfirst := spares_sequence hbefore c
    rw [sequence_append]
    generalize (sequence before c).controller = d at hfirst
    have hup : (if (d.state.link t).isEstablished then 1 else 0) ≤
        if (c.state.link t).isEstablished then 1 else 0 := by
      cases hd : (d.state.link t).isEstablished with
      | false => exact Nat.zero_le _
      | true => rw [hfirst.established hd]
    have hmissed := hfirst.missed
    rcases List.prefix_cons_iff.1 ((List.prefix_append_right_inj before).1 h) with rfl | ⟨q, rfl, hq⟩
    · exact Nat.le_trans hmissed (Nat.le_add_right _ _)
    · have hlast := (spares_sequence (fun a ha => hbehind a (hq.subset ha))
        (sendHello answers now t d).controller).missed
      rw [link_sendHello] at hlast
      have hgreeted := missed_greeted_le d now t
      rw [sequence_cons]
      dsimp only
      omega

/-! ## Courses -/

/-- The counters are words, and those of established links are so behind one more miss. -/
structure Bounded (c : Controller) : Prop where
  missed : ∀ t, (c.state.link t).missed < UInt32.size
  established : ∀ t, (c.state.link t).isEstablished = true →
    (c.state.link t).missed + 1 < UInt32.size

theorem link_requestShutdown (c : Controller) (t : Tunnel) :
    c.requestShutdown.state.link t = c.state.link t := by cases t <;> rfl

/-- **Behind a round, every established link has missed fewer hellos than the limit.** -/
theorem missed_lt_retryLimit (ht : c.tick answers now = .ok r)
    (hup : (r.controller.state.link t).isEstablished = true) :
    (r.controller.state.link t).missed < r.controller.state.session.retryLimit := by
  have hlink := alike_tick (established_tick ht hup) ht
  have hlimit : r.controller.state.session.retryLimit = c.state.session.retryLimit := by
    rw [session_tick_of_up ht hup]; rfl
  split at hlink
  · rw [hlink.isEstablished] at hup
    cases hup
  · next hn =>
    rw [hlink.missed, hlimit]
    exact Nat.lt_of_not_le hn

namespace Bounded

theorem initial (config : Config) (lte : IPv6) (dsl : Option IPv6) (helper4 helper6 : Bool) :
    (initial config lte dsl helper4 helper6).Bounded :=
  ⟨fun t => by cases t <;> exact Nat.zero_lt_of_lt (UInt32.toNat_lt 0),
    fun t h => by cases t <;> cases h⟩

theorem missed_lt (h : c.Bounded) (has : as <+: acts answers now) (t : Tunnel) :
    ((sequence as c).controller.state.link t).missed < UInt32.size := by
  have hle := missed_prefix has c t
  have hmissed := h.missed t
  cases hup : (c.state.link t).isEstablished with
  | false => rw [hup] at hle; exact Nat.lt_of_le_of_lt hle hmissed
  | true => rw [hup] at hle; exact Nat.lt_of_le_of_lt hle (h.established t hup)

theorem tick (h : c.Bounded) (ht : c.tick answers now = .ok r) : r.controller.Bounded := by
  have hprefix : forgetDownLinks :: talking answers now <+: acts answers now :=
    ⟨[resetSession, updateDevice answers, pollHelper answers now .ipv4,
      pollHelper answers now .ipv6], rfl⟩
  refine ⟨fun t => ?_, fun t hup => ?_⟩
  · rw [link_tick ht t, talked]
    exact h.missed_lt hprefix t
  · have hlt := missed_lt_retryLimit ht hup
    have hlimit := r.controller.state.session.retryLimit_lt
    omega

theorem handle (h : c.Bounded) (bytes : Bytes) (source : IPv6) (now : Duration) :
    (c.handle bytes source now).Bounded := by
  have hlink : ∀ t, ((c.handle bytes source now).state.link t).missed = 0 ∨
      Uncounted (c.state.link t) ((c.handle bytes source now).state.link t) := by
    intro t
    by_cases ha : c.Accepts bytes source now t
    · exact Or.inl (by rw [ha.link]; rfl)
    · refine Or.inr ⟨fun hup => (established_handle hup).resolve_right ha, ?_⟩
      rw [(hears_handle ha).missed]
      split
      · exact Nat.le_refl _
      · exact Nat.zero_le _
  refine ⟨fun t => ?_, fun t hup => ?_⟩
  · rcases hlink t with h0 | hlink
    · rw [h0]; decide
    · exact Nat.lt_of_le_of_lt hlink.missed (h.missed t)
  · rcases hlink t with h0 | hlink
    · rw [h0]; decide
    · have hlt := h.established t (hlink.established hup)
      have hle := hlink.missed
      omega

theorem next {k k' : Course} {i : Input} (h : k.controller.Bounded) (hk : k.next i = .ok k') :
    k'.controller.Bounded := by
  cases i with
  | packet bytes source now => cases hk; exact h.handle bytes source now
  | stop =>
    cases hk
    exact ⟨fun t => link_requestShutdown k.controller t ▸ h.missed t,
      fun t => link_requestShutdown k.controller t ▸ h.established t⟩
  | round answers now =>
    obtain ⟨r, hr, rfl⟩ := Course.next_round_eq_ok.1 hk
    exact h.tick hr

end Bounded

/-- **No sum and no counter leaves its range.** Whatever packets, answers and uptimes below the limit
come, every round is possible, so that the ends of all leases are in range. The counters of missed
hellos are words at every moment of the round, and behind it those of established links are below
the limit. -/
theorem numbers_in_range (config : Config) (lte : IPv6) (dsl : Option IPv6)
    (helper4 helper6 : Bool) (inputs : List Input)
    (hclock : ∀ i ∈ inputs, i.Before Term.limit) :
    (∀ stamp : Stamp, (Duration.ofSeconds stamp.seconds.toNat).add?
      (.ofMillis stamp.milliseconds.toNat) = .ok stamp.toDuration) ∧
    ∃ k, (initial config lte dsl helper4 helper6).run inputs = .ok k ∧
      ∀ answers now, now < Term.limit → ∃ r, k.controller.tick answers now = .ok r ∧
        (∀ as, as <+: acts answers now → ∀ t,
          ((sequence as k.controller).controller.state.link t).missed < UInt32.size) ∧
        (∀ l, (sequence (acts answers now) k.controller).controller.state.lease4 = some l →
          ∃ e, l.term.expiry = .ok e) ∧
        (∀ l, (sequence (acts answers now) k.controller).controller.state.lease6 = some l →
          ∃ e, l.term.expiry = .ok e) ∧
        ∀ t, (r.controller.state.link t).isEstablished = true →
          (r.controller.state.link t).missed < r.controller.state.session.retryLimit := by
  refine ⟨Stamp.add?_eq, ?_⟩
  obtain ⟨k, hk, hrange, hbounded⟩ := Course.exists_follow
    (P := fun k => k.controller.InRange ∧ k.controller.Bounded)
    (k := ⟨initial config lte dsl helper4 helper6, []⟩) (fun k i hi ⟨hrange, hbounded⟩ => by
      obtain ⟨k', hk', hrange'⟩ := hrange.exists_next (hclock i hi)
      exact ⟨k', hk', hrange', hbounded.next hk'⟩) ⟨.initial .., .initial ..⟩
  refine ⟨k, hk, fun answers now hnow => ?_⟩
  obtain ⟨r, hr⟩ := hrange.exists_tick answers hnow
  have hacts := hrange.acts answers hnow
  exact ⟨r, hr, fun as has t => hbounded.missed_lt has t,
    fun l hl => Term.exists_isExpired_iff.1 (hacts.lease .ipv4 l hl now),
    fun l hl => Term.exists_isExpired_iff.1 (hacts.lease .ipv6 l hl now),
    fun t hup => missed_lt_retryLimit hr hup⟩

/-- An accept at the last second before the limit, and a round at time zero behind it. -/
theorem numbers_in_range_at_the_limit :
    let late := Duration.ofSeconds (UInt64.size - UInt32.size - 1)
    (∀ i ∈ [Input.packet acceptance Config.default.anycast late, .round willing .zero],
      i.Before Term.limit) ∧ late < Term.limit ∧
    ∃ k, (initial .default .unspecified none true true).run
        [.packet acceptance Config.default.anycast late, .round willing .zero] = .ok k ∧
      ∃ r, k.controller.tick willing late = .ok r ∧
        ∀ t, (r.controller.state.link t).isEstablished = true →
          (r.controller.state.link t).missed < r.controller.state.session.retryLimit := by
  intro late
  have hlate : late < Term.limit := by decide
  have hclock : ∀ i ∈ [Input.packet acceptance Config.default.anycast late, .round willing .zero],
      i.Before Term.limit := by
    simp only [List.forall_mem_cons]
    exact ⟨hlate, (by decide : Duration.zero < Term.limit), fun _ h => absurd h List.not_mem_nil⟩
  obtain ⟨-, k, hk, hround⟩ := numbers_in_range .default .unspecified none true true _ hclock
  obtain ⟨r, hr, -, -, -, hmissed⟩ := hround willing late hlate
  exact ⟨hclock, hlate, k, hk, r, hr, hmissed⟩

end Control.Controller

end HybridAccess
