/-
  HybridAccess — a server that falls silent.

  Rounds without a packet only send hellos over an established link. The first
  hello behind an accept finds nothing unanswered, and each one after it finds
  the one before missed, because a hello that is due is later than the accept
  even when its stamp is cut to milliseconds (`Stamp.lt_ofUptime`). `Silent`
  keeps count of this, and `silent_link_demoted` says when the link goes down.
-/
import HybridAccess.Proofs.Control.Hello
import HybridAccess.Proofs.Control.Range
import HybridAccess.Proofs.Control.Renewal

namespace HybridAccess

/-- The first uptime whose seconds a stamp cannot hold. -/
def Message.Stamp.limit : Duration := .ofSeconds UInt32.size

open Message (Stamp)

theorem Message.Stamp.limit_lt : Stamp.limit < Term.limit := by decide

/-- A stamp is the uptime cut to milliseconds. -/
theorem Message.Stamp.ofUptime_bounds {now : Duration} (hnow : now < Stamp.limit) :
    (ofUptime now).toDuration ≤ now ∧ now.nanos < (ofUptime now).toDuration.nanos + 1000000 := by
  simp only [Duration.lt_def, Duration.le_def, Stamp.limit, Stamp.ofUptime, Stamp.toDuration,
    Duration.ofSeconds, Duration.seconds, Duration.subsecMillis, Duration.subsecNanos,
    Duration.second, UInt32.toNat_ofNat', UInt32.size] at *
  omega

/-- The stamp of an uptime is less than a second old. -/
theorem Message.Stamp.lt_ofUptime {now a : Duration} (hnow : now < Stamp.limit)
    (h : .ofSeconds 1 ≤ now.since a) : a < (Stamp.ofUptime now).toDuration := by
  obtain ⟨-, hlt⟩ := ofUptime_bounds hnow
  simp only [Duration.lt_def, Duration.le_def, Duration.ofSeconds, Duration.nanos_since,
    Duration.second] at *
  omega

namespace Control.Controller

variable {c : Controller} {answers : Answers} {now t₀ : Duration} {r : Round} {t : Tunnel}
  {sent n : Nat}

/-! ## Counting hellos -/

/-- The inputs of some rounds. -/
def Input.rounds (rounds : List (Answers × Duration)) : List Input :=
  rounds.map fun (answers, now) => .round answers now

theorem Input.rounds_cons (answers : Answers) (now : Duration) (rest : List (Answers × Duration)) :
    Input.rounds ((answers, now) :: rest) = .round answers now :: Input.rounds rest := rfl

/-- How many hellos are sent over a link in some rounds. -/
def hellos (t : Tunnel) : Controller → List (Answers × Duration) → Nat
  | _, [] => 0
  | c, (answers, now) :: rest =>
    (if c.HelloDue now t then 1 else 0) +
      (c.tick answers now).toOption.elim 0 fun r => hellos t r.controller rest

theorem hellos_cons (ht : c.tick answers now = .ok r) (rest : List (Answers × Duration)) :
    c.hellos t ((answers, now) :: rest) =
      (if c.HelloDue now t then 1 else 0) + r.controller.hellos t rest := by
  rw [hellos, ht]
  rfl

/-- A link that was accepted at `t₀`, and over which some hellos were sent and none was answered. -/
structure Silent (t : Tunnel) (t₀ : Duration) (n sent : Nat) (c : Controller) : Prop where
  up : (c.state.link t).isEstablished = true
  limit : c.state.session.retryLimit = n
  answered : (c.state.link t).helloAnswered = t₀
  waiting : sent = 0 → (c.state.link t).helloSent = t₀
  later : 0 < sent → t₀ < (c.state.link t).helloSent
  missed : (c.state.link t).missed = sent - 1

namespace Silent

theorem helloSent_ge (h : Silent t t₀ n sent c) : t₀ ≤ (c.state.link t).helloSent := by
  rcases Nat.eq_zero_or_pos sent with h0 | hpos
  · exact Nat.le_of_eq (congrArg Duration.nanos (h.waiting h0)).symm
  · exact Nat.le_of_lt (h.later hpos)

/-- Every hello but the first one finds the one before unanswered. -/
theorem missed_greet (h : Silent t t₀ n sent c) (now : Duration) :
    ((c.state.link t).greet now).missed = sent := by
  have hmissed := h.missed
  rw [Link.greet, h.answered]
  rcases Nat.eq_zero_or_pos sent with h0 | hpos
  · rw [if_pos (h.waiting h0).symm]
    dsimp only
    omega
  · have hne : t₀ ≠ (c.state.link t).helloSent := fun he =>
      absurd (h.later hpos) (he ▸ Nat.lt_irrefl _)
    rw [if_neg hne]
    dsimp only
    omega

/-- A hello that is due is stamped with a time behind the accept. -/
theorem lt_stamp (h : Silent t t₀ n sent c) (hdue : c.HelloDue now t) (hnow : now < Stamp.limit) :
    t₀ < (Stamp.ofUptime now).toDuration := by
  have hle : t₀.nanos ≤ (c.state.link t).helloSent.nanos := h.helloSent_ge
  have hlt : (c.state.link t).helloSent < (Stamp.ofUptime now).toDuration :=
    Stamp.lt_ofUptime hnow (Nat.le_trans c.state.session.one_le_helloPeriod hdue.2)
  exact Nat.lt_of_le_of_lt hle hlt

theorem tick (h : Silent t t₀ n sent c) (hnow : now < Stamp.limit)
    (ht : c.tick answers now = .ok r) (hn : sent + (if c.HelloDue now t then 1 else 0) ≤ n) :
    Silent t t₀ n (sent + if c.HelloDue now t then 1 else 0) r.controller := by
  have hpos : 0 < n := h.limit ▸ c.state.session.retryLimit_pos
  have hlink := alike_tick h.up ht
  have hmissed : (c.greeted now t).missed = (sent + if c.HelloDue now t then 1 else 0) - 1 := by
    rw [greeted]
    split
    · exact h.missed_greet now
    · exact h.missed
  rw [if_neg (by rw [h.limit, hmissed]; omega)] at hlink
  have hup : (r.controller.state.link t).isEstablished = true := by
    rw [hlink.isEstablished, isEstablished_greeted, h.up]
  have hsession := session_tick_of_up ht hup
  refine ⟨hup, ?_, ?_, ?_, ?_, hlink.missed.trans hmissed⟩
  · rw [hsession]
    exact h.limit
  · rw [hlink.helloAnswered, helloAnswered_greeted, h.answered]
  · intro h0
    rw [hlink.helloSent, greeted]
    split at h0
    · omega
    · next hdue =>
      rw [if_neg hdue]
      exact h.waiting h0
  · intro hlater
    rw [hlink.helloSent, greeted]
    split at hlater
    · next hdue =>
      rw [if_pos hdue]
      exact h.lt_stamp hdue hnow
    · next hdue =>
      rw [if_neg hdue]
      exact h.later hlater

/-- The hello behind as many as may stay unanswered ends the connection. -/
theorem last (h : Silent t t₀ n n c) (hdue : c.HelloDue now t) (ht : c.tick answers now = .ok r) :
    (r.controller.state.link t).status = .down ∧
      (r.controller.state.link t).isPristine = true := by
  have hlink := alike_tick h.up ht
  rw [greeted, if_pos hdue, h.missed_greet, h.limit, if_pos (Nat.le_refl n)] at hlink
  have hdown := hlink.status.trans (Link.status_reset _)
  exact ⟨hdown, tidy_tick ht t hdown⟩

theorem follow {rounds : List (Answers × Duration)} {k k' : Course}
    (h : Silent t t₀ n sent k.controller) (hclock : ∀ x ∈ rounds, x.2 < Stamp.limit)
    (hk : k.follow (Input.rounds rounds) = .ok k')
    (hn : sent + k.controller.hellos t rounds ≤ n) :
    Silent t t₀ n (sent + k.controller.hellos t rounds) k'.controller := by
  induction rounds generalizing k sent with
  | nil => cases hk; exact h
  | cons x rest ih =>
    obtain ⟨answers, now⟩ := x
    rw [Input.rounds_cons] at hk
    obtain ⟨k₁, hround, hrest⟩ := Course.follow_cons_eq_ok.1 hk
    obtain ⟨r, hr, rfl⟩ := Course.next_round_eq_ok.1 hround
    rw [hellos_cons hr, ← Nat.add_assoc] at hn ⊢
    exact ih (h.tick (hclock _ List.mem_cons_self) hr (Nat.le_of_add_right_le hn))
      (fun x hx => hclock x (List.mem_cons_of_mem _ hx)) hrest hn

end Silent

/-! ## Behind an accept -/

theorem Accepts.silent {bytes : Bytes} {source : IPv6} (h : c.Accepts bytes source t₀ t) :
    Silent t t₀ (c.handle bytes source t₀).state.session.retryLimit 0
      (c.handle bytes source t₀) := by
  have hlink := h.link
  refine ⟨?_, rfl, ?_, fun _ => ?_, fun h0 => absurd h0 (Nat.lt_irrefl 0), ?_⟩
  all_goals rw [hlink]; rfl

/-- Rounds are possible as long as their uptimes fit into stamps. -/
theorem InRange.exists_rounds {k : Course} (h : k.controller.InRange)
    {rounds : List (Answers × Duration)} (hclock : ∀ x ∈ rounds, x.2 < Stamp.limit) :
    ∃ k', k.follow (Input.rounds rounds) = .ok k' ∧ k'.controller.InRange := by
  refine Course.exists_follow (P := fun k => k.controller.InRange) (fun k i hi hk => ?_) h
  obtain ⟨⟨answers, now⟩, hx, rfl⟩ := List.mem_map.1 hi
  exact hk.exists_next (i := .round answers now) (Nat.lt_trans (hclock _ hx) Stamp.limit_lt)

/-- **Behind an accept, and without another packet, every hello but the first one counts as missed,
and the hello that exceeds the limit ends the connection in the round that sends it.** -/
theorem silent_link_demoted (config : Config) (lte : IPv6) (dsl : Option IPv6)
    (helper4 helper6 : Bool) (inputs : List Input) (k : Course) (accept : Bytes) (source : IPv6)
    (t₀ : Duration) (t : Tunnel) (rounds : List (Answers × Duration))
    (hrun : (initial config lte dsl helper4 helper6).run inputs = .ok k)
    (hup : k.controller.Accepts accept source t₀ t)
    (hclock : ∀ x ∈ rounds, x.2 < Stamp.limit) :
    let c := k.controller.handle accept source t₀
    let n := c.state.session.retryLimit
    ∃ k', c.run (Input.rounds rounds) = .ok k' ∧
      (c.hellos t rounds ≤ n → (k'.controller.state.link t).isEstablished = true ∧
        (k'.controller.state.link t).missed = c.hellos t rounds - 1) ∧
      ∀ answers now, now < Stamp.limit → c.hellos t rounds = n → k'.controller.HelloDue now t →
        ∃ r, k'.controller.tick answers now = .ok r ∧
          (r.controller.state.link t).status = .down ∧
          (r.controller.state.link t).isPristine = true := by
  intro c n
  have hsilent : Silent t t₀ n 0 c := hup.silent
  have hrange : (Course.mk c k.rounds).controller.InRange :=
    (inRange_of_run hrun).next (i := .packet accept source t₀) rfl
  obtain ⟨k', hk', hrange'⟩ := InRange.exists_rounds (k := ⟨c, []⟩) hrange hclock
  have hcount : c.hellos t rounds ≤ n → Silent t t₀ n (c.hellos t rounds) k'.controller :=
    fun hle => Nat.zero_add (c.hellos t rounds) ▸
      hsilent.follow (k := ⟨c, []⟩) hclock hk' ((Nat.zero_add _).symm ▸ hle)
  refine ⟨k', hk', fun hle => ⟨(hcount hle).up, (hcount hle).missed⟩,
    fun answers now hnow hn hdue => ?_⟩
  obtain ⟨r, hr⟩ := hrange'.exists_tick answers (Nat.lt_trans hnow Stamp.limit_lt)
  have hlast := hcount (Nat.le_of_eq hn)
  rw [hn] at hlast
  exact ⟨r, hr, hlast.last hdue hr⟩

/-- A controller that has been accepted. -/
def admitted : Controller :=
  (initial .default .unspecified none false false).handle acceptance Config.default.anycast .zero

/-- Three rounds, as far apart as the hellos of `admitted`. -/
def threeRounds : List (Answers × Duration) :=
  [5, 10, 15].map fun n => (willing, .ofSeconds n)

/-- With the default limit of three, the fourth hello is the last one. -/
theorem silent_link_demoted_by_fourth_hello :
    (initial .default .unspecified none false false).Accepts acceptance Config.default.anycast .zero
      .lte ∧
    (∀ x ∈ threeRounds, x.2 < Stamp.limit) ∧ admitted.state.session.retryLimit = 3 ∧
    ∃ k', admitted.run (Input.rounds threeRounds) = .ok k' ∧
      (k'.controller.state.link .lte).isEstablished = true ∧
      (k'.controller.state.link .lte).missed = 2 ∧ k'.controller.HelloDue (.ofSeconds 20) .lte ∧
      ∃ r, k'.controller.tick willing (.ofSeconds 20) = .ok r ∧
        (r.controller.state.link .lte).status = .down := by
  have hup : (initial .default .unspecified none false false).Accepts acceptance
      Config.default.anycast .zero .lte := ⟨by decide +kernel, _, decode_acceptance, rfl⟩
  have hclock : ∀ x ∈ threeRounds, x.2 < Stamp.limit := by
    intro x hx
    obtain ⟨n, hn, rfl⟩ := List.mem_map.1 hx
    exact (by decide : ∀ n ∈ [5, 10, 15], Duration.ofSeconds n < Stamp.limit) n hn
  have hlimit : admitted.state.session.retryLimit = 3 := by decide +kernel
  have hhellos : admitted.hellos .lte threeRounds = 3 := by decide +kernel
  have hdue : ((admitted.run (Input.rounds threeRounds)).toOption.map fun k' =>
      decide (k'.controller.HelloDue (.ofSeconds 20) .lte)) = some true := by decide +kernel
  have hn : admitted.hellos .lte threeRounds = admitted.state.session.retryLimit :=
    hhellos.trans hlimit.symm
  have hmain := silent_link_demoted .default .unspecified none false false [] ⟨_, []⟩ acceptance
    Config.default.anycast .zero .lte threeRounds rfl hup hclock
  dsimp only at hmain
  rw [← admitted] at hmain
  obtain ⟨k', hk', hcount, hlast⟩ := hmain
  obtain ⟨hestablished, hmissed⟩ := hcount (Nat.le_of_eq hn)
  rw [hhellos] at hmissed
  rw [hk'] at hdue
  have hdue' := of_decide_eq_true (Option.some.inj hdue)
  obtain ⟨r, hr, hdown, -⟩ := hlast willing (.ofSeconds 20) (by decide) hn hdue'
  exact ⟨hup, hclock, hlimit, k', hk', hestablished, hmissed, hdue', r, hr, hdown⟩

end Control.Controller

end HybridAccess
