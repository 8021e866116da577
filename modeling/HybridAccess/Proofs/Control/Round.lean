/-
  HybridAccess — what a round does.

  After talking to the server the controller looks after what it holds. `Settles`
  lists what bringing session and device in line with the links can do, `Polled`
  what can become of a helper, and leases run out. In the last round everything is given
  up (`giveUp`). `tick_cases` takes a round apart into these steps, so that no
  later proof opens an act.
-/
import HybridAccess.Proofs.Control.Talk

namespace HybridAccess

/-- A term as it is granted at some time: it lasts whole seconds, at least one. -/
def Term.Granted (t : Term) (now : Duration) : Prop :=
  t.obtained = now ∧ ∃ n : UInt32, n ≠ 0 ∧ t.length = .ofSeconds n.toNat

namespace Control.Controller

/-! ## Helpers and leases -/

section
variable (c : Controller) (family : Dhcp.Family)

@[simp] theorem state_setHelper (h : Helper) : (c.setHelper family h).state = c.state := by
  cases family <;> rfl

@[simp] theorem helper_setHelper (h : Helper) (family' : Dhcp.Family) :
    (c.setHelper family h).helper family' = if family' = family then h else c.helper family' := by
  cases family <;> cases family' <;> rfl

@[simp] theorem helper_withState (s : State) : (c.withState s).helper family = c.helper family := by
  cases family <;> rfl

@[simp] theorem state_withState (s : State) : (c.withState s).state = s := rfl

end

/-- Change the lease of a family. -/
def withLease (c : Controller) (family : Dhcp.Family) (l : Option (Lease family)) : Controller :=
  c.withState (c.state.setLease family l)

section
variable (c : Controller) (family : Dhcp.Family) (l : Option (Lease family))

@[simp] theorem state_withLease : (c.withLease family l).state = c.state.setLease family l := rfl

@[simp] theorem helper_withLease (family' : Dhcp.Family) :
    (c.withLease family l).helper family' = c.helper family' := helper_withState ..

end

/-- A helper that was stopped. -/
def stopped : Helper → Helper
  | .absent => .absent
  | .idle | .running => .idle

theorem stopped_ne_running (h : Helper) : stopped h ≠ .running := by cases h <;> decide

/-- The controller with all helpers stopped, without leases. -/
def released (c : Controller) : Controller :=
  { c with
    state := { c.state with lease4 := none, lease6 := none }
    helper4 := stopped c.helper4
    helper6 := stopped c.helper6 }

@[simp] theorem helper_released (c : Controller) (family : Dhcp.Family) :
    c.released.helper family = stopped (c.helper family) := by cases family <;> rfl

section
variable (c : Controller) (family : Dhcp.Family)

theorem controller_killHelper :
    (killHelper family c).controller = c.setHelper family (stopped (c.helper family)) := by
  obtain ⟨s, dsl, h₄, h₆, name, rate⟩ := c
  cases family
  · cases h₄ <;> rfl
  · cases h₆ <;> rfl

theorem events_killHelper : (killHelper family c).effects.filterMap Effect.event? = [] := by
  unfold killHelper
  cases c.helper family <;> rfl

theorem controller_dropLease : (dropLease family c).controller = c.withLease family none := by
  unfold dropLease
  split
  · next h => rw [withLease, ← h, State.setLease_lease]; rfl
  · rfl

theorem events_dropLease : (dropLease family c).effects.filterMap Effect.event? =
    if hasLease c.state family then [(.leaseDown family, c.state.environment)] else [] := by
  unfold dropLease hasLease
  split
  · next h => rw [h]; rfl
  · next h => rw [h]; rfl

theorem controller_releaseLeases : (releaseLeases c).controller = c.released := by
  simp only [releaseLeases, sequence, controller_killHelper, controller_dropLease]
  rfl

theorem events_releaseLeases : (releaseLeases c).effects.filterMap Effect.event? =
    (if hasLease c.state .ipv4 then [(.leaseDown .ipv4, c.state.environment)] else []) ++
      if hasLease c.state .ipv6 then
        [(.leaseDown .ipv6, (c.withLease .ipv4 none).state.environment)] else [] := by
  simp only [releaseLeases, sequence, List.filterMap_append, events_killHelper, events_dropLease,
    controller_killHelper, controller_dropLease, state_setHelper, List.nil_append, List.append_nil]
  rfl

end

/-! ## Session and device -/

/-- Everything is given up: helpers, leases and device. -/
def giveUp (answers : Answers) : Act :=
  sequence [releaseLeases, fun c => if c.state.deviceUp then destroyDevice answers c else idle c]

/-- The controller when everything is given up. -/
def bare (c : Controller) : Controller :=
  c.released.withState { c.released.state with deviceUp := false }

/-- The acts that bring session and device in line with the links. -/
def settle (answers : Answers) : Act := sequence [resetSession, updateDevice answers]

section
variable (c : Controller) (answers : Answers)

theorem controller_giveUp : (giveUp answers c).controller = c.bare := by
  simp only [giveUp, sequence, controller_releaseLeases]
  split
  · rfl
  · next h =>
    have hd : c.state.deviceUp = false := by simpa [released] using h
    simp [idle, bare, released, withState, hd]

theorem events_giveUp : (giveUp answers c).effects.filterMap Effect.event? =
    (releaseLeases c).effects.filterMap Effect.event? ++
      if c.state.deviceUp then [(.tunnelDown, c.bare.state.environment)] else [] := by
  simp only [giveUp, sequence, controller_releaseLeases, List.append_nil, List.filterMap_append]
  congr 1
  by_cases h : c.state.deviceUp = true
  · have hd : c.released.state.deviceUp = true := h
    simp only [hd, h, if_true, destroyDevice]
    cases answers.destroy <;> rfl
  · have hd : ¬ c.released.state.deviceUp = true := h
    simp only [hd, h]
    rfl

end

/-- The controller with its session started over. -/
def renewed (c : Controller) : Controller :=
  c.withState { c.state with session := c.state.session.reset }

/-- The controller with a tunnel device. -/
def equipped (c : Controller) : Controller := c.withState { c.state with deviceUp := true }

/-- What settling session and device can do. -/
inductive Settles (c : Controller) (answers : Answers) : Outcome → Prop
  | kept (up : c.state.anyUp = true) (device : c.state.deviceUp = true) : Settles c answers ⟨c, []⟩
  | created (up : c.state.anyUp = true) (device : c.state.deviceUp = false)
      (create : answers.create = none) :
      Settles c answers ⟨c.equipped, [.create c.state.tunnelName c.state.tunnelMtu none,
        .event .tunnelUp c.equipped.state.environment]⟩
  | refused (up : c.state.anyUp = true) (device : c.state.deviceUp = false) (reason : String)
      (create : answers.create = some reason) :
      Settles c answers ⟨c, [.create c.state.tunnelName c.state.tunnelMtu (some reason),
        .note (.notCreated c.state.tunnelName reason)]⟩
  | down (down : c.state.anyUp = false) : Settles c answers (giveUp answers c.renewed)

section
variable (c : Controller) (answers : Answers)

theorem updateDevice_of_down (h : c.state.anyUp = false) : updateDevice answers c =
    if c.state.deviceUp then destroyDevice answers c else idle c := by
  simp [updateDevice, h]

theorem settle_of_down (h : c.state.anyUp = false) :
    settle answers c = giveUp answers c.renewed := by
  have hd : (releaseLeases c.renewed).controller.state.anyUp = false := by
    rw [controller_releaseLeases]
    exact h
  simp only [settle, giveUp, sequence, resetSession, h, Bool.false_eq_true, if_false]
  rw [← renewed, updateDevice_of_down _ answers hd]

theorem settles_createDevice (hup : c.state.anyUp = true) (hd : c.state.deviceUp = false) :
    Settles c answers (createDevice answers c) := by
  unfold createDevice
  cases hc : answers.create with
  | none => exact .created hup hd hc
  | some reason => exact .refused hup hd reason hc

theorem settles_settle : Settles c answers (settle answers c) := by
  cases hup : c.state.anyUp with
  | false =>
    rw [settle_of_down c answers hup]
    exact .down hup
  | true =>
    cases hd : c.state.deviceUp with
    | true =>
      have h : settle answers c = ⟨c, []⟩ := by
        simp [settle, sequence, resetSession, updateDevice, hup, hd, idle]
      rw [h]
      exact .kept hup hd
    | false =>
      have h : settle answers c = createDevice answers c := by
        simp [settle, sequence, resetSession, updateDevice, hup, hd, idle]
      rw [h]
      exact settles_createDevice c answers hup hd

end

/-! ## Polling -/

theorem granted_of_lease? {r : Dhcp.Report} {now : Duration} {family : Dhcp.Family}
    {l : Lease family} (h : r.lease? now family = some l) : l.term.Granted now := by
  have hterm : ∃ length, r.length? = some length ∧ l.term = ⟨length, now⟩ := by
    cases family with
    | ipv4 =>
      obtain ⟨l', hl, hterm⟩ : ∃ l' : Lease4, r.lease4? now = some l' ∧ l.term = l'.term :=
        ⟨l, h, rfl⟩
      simp only [Dhcp.Report.lease4?, Option.bind_eq_bind, Option.bind_eq_some_iff] at hl
      obtain ⟨length, hlength, _, -, hl⟩ := hl
      cases hl
      exact ⟨length, hlength, hterm⟩
    | ipv6 =>
      obtain ⟨l', hl, hterm⟩ : ∃ l' : Lease6, r.lease6? now = some l' ∧ l.term = l'.term :=
        ⟨l, h, rfl⟩
      simp only [Dhcp.Report.lease6?, Option.bind_eq_bind, Option.bind_eq_some_iff] at hl
      obtain ⟨length, hlength, _, -, _, -, hl⟩ := hl
      cases hl
      exact ⟨length, hlength, hterm⟩
  obtain ⟨length, hlength, hl⟩ := hterm
  simp only [Dhcp.Report.length?, Option.map_eq_some_iff, Option.filter_eq_some_iff] at hlength
  obtain ⟨n, ⟨-, hn⟩, rfl⟩ := hlength
  rw [hl]
  exact ⟨rfl, n, by simpa using hn, rfl⟩

/-- What looking after the helper of a family can do: the controller afterwards, and the events. -/
inductive Polled (c : Controller) (now : Duration) :
    Dhcp.Family → Controller → List (Event × Environment) → Prop
  | quiet (family : Dhcp.Family) : Polled c now family c []
  | started {family : Dhcp.Family} (idle : c.helper family = .idle)
      (device : c.state.deviceUp = true) (lease : hasLease c.state family = false) :
      Polled c now family (c.setHelper family .running) []
  | ended {family : Dhcp.Family} (running : c.helper family = .running) :
      Polled c now family (c.setHelper family .idle) []
  | leased {family : Dhcp.Family} (running : c.helper family = .running) (l : Lease family)
      (granted : l.term.Granted now) :
      Polled c now family ((c.setHelper family .idle).withLease family (some l))
        [(.leaseUp family, ((c.setHelper family .idle).withLease family (some l)).state.environment)]

theorem filterMap_event?_noise (lines : List String) :
    (lines.map fun line => Effect.note (.helperLine line)).filterMap Effect.event? = [] := by
  rw [List.filterMap_eq_nil_iff]
  intro e he
  obtain ⟨line, -, rfl⟩ := List.mem_map.1 he
  rfl

section
variable (c : Controller) (answers : Answers) (now : Duration)

theorem polled_takeLease (family : Dhcp.Family) (output : String)
    (h : c.helper family = .running) :
    let o := takeLease family output now (c.setHelper family .idle)
    Polled c now family o.controller (o.effects.filterMap Effect.event?) := by
  simp only [takeLease]
  split
  · next l hl =>
    rw [List.filterMap_append, filterMap_event?_noise]
    exact .leased h l (granted_of_lease? hl)
  · rw [List.filterMap_append, filterMap_event?_noise]
    exact .ended h

theorem polled_pollHelper (family : Dhcp.Family) :
    let o := pollHelper answers now family c
    Polled c now family o.controller (o.effects.filterMap Effect.event?) := by
  unfold pollHelper
  cases h : c.helper family with
  | absent => exact .quiet family
  | idle =>
    dsimp only
    split
    · next hs =>
      cases answers.start family with
      | none => exact .started h hs.1 (by simpa using hs.2)
      | some f => exact .quiet family
    · exact .quiet family
  | running =>
    dsimp only
    cases answers.poll family with
    | none => exact .quiet family
    | some result =>
      cases result with
      | error f => exact .ended h
      | ok output => exact polled_takeLease c now family output h

end

/-! ## Leases that run out -/

section
variable {c : Controller} {now : Duration} {family : Dhcp.Family} {o : Outcome}

theorem expireLease_cases (h : expireLease now family c = .ok o) :
    (o = idle c ∧ ∀ l, c.state.lease family = some l → l.term.isExpired now = .ok false) ∨
    ∃ l, c.state.lease family = some l ∧ o = ⟨(dropLease family c).controller,
      .note (.expired family l) :: (dropLease family c).effects⟩ := by
  unfold expireLease at h
  cases hl : c.state.lease family with
  | none =>
    rw [hl] at h
    exact Or.inl ⟨(Except.ok.inj h).symm, nofun⟩
  | some l =>
    rw [hl] at h
    dsimp only at h
    cases he : l.term.isExpired now with
    | error e => rw [he] at h; cases h
    | ok passed =>
      rw [he] at h
      cases passed with
      | false => exact Or.inl ⟨(Except.ok.inj h).symm, by rintro _ ⟨⟩; exact he⟩
      | true => exact Or.inr ⟨l, rfl, (Except.ok.inj h).symm⟩

theorem exists_expireLease
    (h : ∀ l, c.state.lease family = some l → ∃ b, l.term.isExpired now = .ok b) :
    ∃ o, expireLease now family c = .ok o := by
  unfold expireLease
  cases hl : c.state.lease family with
  | none => exact ⟨idle c, rfl⟩
  | some l =>
    obtain ⟨passed, he⟩ := h l hl
    dsimp only
    rw [he]
    cases passed <;> exact ⟨_, rfl⟩

/-- Only the lease of the family is looked at. -/
theorem lease_expireLease_of_ne (h : expireLease now family c = .ok o) {other : Dhcp.Family}
    (hne : other ≠ family) : o.controller.state.lease other = c.state.lease other := by
  rcases expireLease_cases h with ⟨rfl, -⟩ | ⟨l, -, rfl⟩
  · rfl
  · dsimp only
    rw [controller_dropLease]
    exact State.lease_setLease_of_ne _ _ hne

/-- A lease that is left has not run out. -/
theorem unexpired_expireLease (h : expireLease now family c = .ok o) {l : Lease family}
    (hl : o.controller.state.lease family = some l) : l.term.isExpired now = .ok false := by
  rcases expireLease_cases h with ⟨rfl, hun⟩ | ⟨l', -, rfl⟩
  · exact hun l hl
  · dsimp only at hl
    rw [controller_dropLease, state_withLease, State.lease_setLease_self] at hl
    cases hl

/-- Nothing that is left has run out when the leases of both families were looked at. -/
theorem unexpired_expireLeases {o' : Outcome} (h₄ : expireLease now .ipv4 c = .ok o)
    (h₆ : expireLease now .ipv6 o.controller = .ok o') {l : Lease family}
    (hl : o'.controller.state.lease family = some l) : l.term.isExpired now = .ok false := by
  cases family with
  | ipv4 =>
    rw [lease_expireLease_of_ne h₆ (by decide)] at hl
    exact unexpired_expireLease h₄ hl
  | ipv6 => exact unexpired_expireLease h₆ hl

end

/-! ## The whole round -/

section
variable (c : Controller) (answers : Answers) (now : Duration)

theorem controller_takeLeave : (takeLeave answers c).controller = c := by
  unfold takeLeave
  split
  · rfl
  · split <;> rfl

theorem isTalk_takeLeave : ∀ e ∈ (takeLeave answers c).effects, e.IsTalk := by
  unfold takeLeave
  split
  · intro e he
    simp only [sequence, reportFailure, List.append_nil, List.mem_append] at he
    rcases he with he | he
    · exact isTalk_send c answers _ e he
    · exact isTalk_send c answers _ e he
  · split
    · intro e he
      rw [List.mem_singleton.1 he]; trivial
    · exact fun e he => absurd he List.not_mem_nil

theorem shutdown_eq : shutdown answers c =
    ⟨c.bare, .note .shuttingDown :: ((giveUp answers c).effects ++
      ((takeLeave answers c.bare).effects ++ [.event .shutdown c.bare.state.environment]))⟩ := by
  -- the leases and the device are given up by two acts of the list
  have h : shutdown answers c = sequence ([fun c => ⟨c, [.note .shuttingDown]⟩] ++
    ([giveUp answers] ++ [takeLeave answers, fire .shutdown])) c := by
    simp only [shutdown, giveUp, sequence, List.cons_append, List.nil_append, List.append_nil,
      List.append_assoc]
  rw [h, sequence_append, sequence_append]
  simp only [sequence, controller_giveUp, controller_takeLeave, List.append_nil]
  rfl

theorem controller_shutdown : (shutdown answers c).controller = c.bare := by rw [shutdown_eq]

theorem events_shutdown : (shutdown answers c).effects.filterMap Effect.event? =
    (giveUp answers c).effects.filterMap Effect.event? ++
      [(.shutdown, c.bare.state.environment)] := by
  have ht : (takeLeave answers c.bare).effects.filterMap Effect.event? = [] :=
    List.filterMap_eq_nil_iff.2 fun e he => (isTalk_takeLeave c.bare answers e he).event?
  rw [shutdown_eq]
  simp only [List.filterMap_cons, List.filterMap_append, ht, Effect.event?, List.nil_append,
    List.filterMap_nil]

end

/-- The parts of a round up to the expiry of leases: what was talked, and what polling each helper
did after the session and the device were settled. -/
structure Parts (c : Controller) (answers : Answers) (now : Duration) where
  talked : Outcome
  polled4 : Outcome
  polled6 : Outcome
  talk : Talk c talked.effects talked.controller
  tidy : talked.controller.state.Tidy
  poll4 : Polled (settle answers talked.controller).controller now .ipv4 polled4.controller
    (polled4.effects.filterMap Effect.event?)
  poll6 : Polled polled4.controller now .ipv6 polled6.controller
    (polled6.effects.filterMap Effect.event?)

namespace Parts

variable {c : Controller} {answers : Answers} {now : Duration}

/-- The session and the device settled. -/
def settled (p : Parts c answers now) : Outcome := settle answers p.talked.controller

/-- What is done up to the expiry of leases. -/
def effects (p : Parts c answers now) : List Effect :=
  p.talked.effects ++ (p.settled.effects ++ (p.polled4.effects ++ p.polled6.effects))

end Parts

section
variable (c : Controller) (answers : Answers) (now : Duration)

/-- The parts of the round of a controller. -/
def parts : Parts c answers now :=
  let talked := sequence (forgetDownLinks :: talking answers now) c
  let settled := settle answers talked.controller
  let polled4 := pollHelper answers now .ipv4 settled.controller
  { talked, polled4
    polled6 := pollHelper answers now .ipv6 polled4.controller
    talk := (talk_round c answers now).1
    tidy := (talk_round c answers now).2
    poll4 := polled_pollHelper settled.controller answers now .ipv4
    poll6 := polled_pollHelper polled4.controller answers now .ipv6 }

theorem sequence_acts : sequence (acts answers now) c =
    ⟨(parts c answers now).polled6.controller, (parts c answers now).effects⟩ := by
  have h : acts answers now = (forgetDownLinks :: talking answers now) ++
      ([resetSession, updateDevice answers] ++
        [pollHelper answers now .ipv4, pollHelper answers now .ipv6]) := rfl
  rw [h, sequence_append, sequence_append]
  simp only [parts, Parts.effects, Parts.settled, settle, sequence_cons, sequence_nil,
    List.append_nil]

end

variable {c : Controller} {answers : Answers} {now : Duration} {r : Round}

/-- **The parts of a round, the expiry of leases, and the end if it was asked for.** -/
theorem tick_cases (h : c.tick answers now = .ok r) :
    let p := parts c answers now
    ∃ o₄ o₆, expireLease now .ipv4 p.polled6.controller = .ok o₄ ∧
      expireLease now .ipv6 o₄.controller = .ok o₆ ∧
      (r = ⟨o₆.controller, p.effects ++ o₄.effects ++ o₆.effects, false⟩ ∨
        r = ⟨o₆.controller.bare,
          p.effects ++ o₄.effects ++ o₆.effects ++ (shutdown answers o₆.controller).effects,
          true⟩) := by
  unfold tick at h
  rw [sequence_acts] at h
  generalize parts c answers now = p at h ⊢
  dsimp only at h ⊢
  cases h₄ : expireLease now .ipv4 p.polled6.controller with
  | error e => rw [h₄] at h; cases h
  | ok o₄ =>
    cases h₆ : expireLease now .ipv6 o₄.controller with
    | error e => rw [h₄] at h; simp only [bind, Except.bind, h₆] at h; cases h
    | ok o₆ =>
      refine ⟨o₄, o₆, rfl, h₆, ?_⟩
      rw [h₄] at h
      simp only [bind, Except.bind, h₆] at h
      split at h
      · next hs =>
        rw [← Except.ok.inj h]
        exact Or.inr (by simp only [controller_shutdown])
      · next hs => exact Or.inl (Except.ok.inj h).symm

/-- A round is possible where the ends of the leases are in range. -/
theorem exists_tick (hends : ∀ family l,
      (parts c answers now).polled6.controller.state.lease family = some l →
        ∃ b, l.term.isExpired now = .ok b) :
    ∃ r, c.tick answers now = .ok r := by
  unfold tick
  rw [sequence_acts]
  generalize parts c answers now = p at hends ⊢
  dsimp only
  obtain ⟨o₄, ho₄⟩ := exists_expireLease (hends .ipv4)
  have hkeep : o₄.controller.state.lease .ipv6 = p.polled6.controller.state.lease .ipv6 :=
    lease_expireLease_of_ne ho₄ (by decide)
  obtain ⟨o₆, ho₆⟩ := exists_expireLease (c := o₄.controller) (hkeep ▸ hends .ipv6)
  rw [ho₄]
  simp only [bind, Except.bind, ho₆]
  split
  · exact ⟨_, rfl⟩
  · exact ⟨_, rfl⟩

end Control.Controller

end HybridAccess
