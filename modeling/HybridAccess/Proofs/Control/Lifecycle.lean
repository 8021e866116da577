/-
  HybridAccess — what the controller holds.

  A helper runs and a lease is held only while the device is up, and the device
  is up only while a link is established. `Orderly` is what holds between any
  two inputs, although packets may take the links down at any time; `Settled`
  is what a round restores. `tick_settles` puts both together for every course.
-/
import HybridAccess.Proofs.Control.Course
import HybridAccess.Proofs.Control.Packet
import HybridAccess.Proofs.Control.Round

namespace HybridAccess

/-- The terms of all leases. -/
def State.terms (s : State) : List Term :=
  s.lease4.toList.map (·.term) ++ s.lease6.toList.map (·.term)

theorem State.mem_terms_iff {s : State} {t : Term} :
    t ∈ s.terms ↔ ∃ family l, s.lease family = some l ∧ l.term = t := by
  simp only [terms, List.mem_append, List.mem_map, Option.mem_toList]
  constructor
  · rintro (⟨l, hl, rfl⟩ | ⟨l, hl, rfl⟩)
    · exact ⟨.ipv4, l, hl, rfl⟩
    · exact ⟨.ipv6, l, hl, rfl⟩
  · rintro ⟨family, l, hl, rfl⟩
    cases family with
    | ipv4 => exact Or.inl ⟨l, hl, rfl⟩
    | ipv6 => exact Or.inr ⟨l, hl, rfl⟩

/-- The first uptime from which the end of a term may be out of range. -/
def Term.limit : Duration := .ofSeconds (UInt64.size - UInt32.size)

theorem Term.exists_isExpired_iff {t : Term} {now : Duration} :
    (∃ b, t.isExpired now = .ok b) ↔ ∃ e, t.expiry = .ok e := by
  rw [isExpired]
  cases t.expiry with
  | error e => simp [Except.map]
  | ok e => simp [Except.map]

/-- The end of a term that is granted early enough is in range. -/
theorem Term.Granted.exists_expiry {t : Term} {now : Duration} (h : t.Granted now)
    (hnow : now < Term.limit) : ∃ e, t.expiry = .ok e := by
  obtain ⟨hobtained, n, -, hlength⟩ := h
  have hn := n.toNat_lt
  refine ⟨_, if_pos ?_⟩
  rw [hobtained, hlength]
  simp only [Duration.lt_def, limit, Duration.limit, Duration.ofSeconds, Duration.second,
    UInt64.size, UInt32.size] at *
  omega

/-- A term that was granted at an uptime that is not too long. -/
def Term.Sound (t : Term) : Prop :=
  t.Granted t.obtained ∧ t.obtained < Control.Controller.uptimeLimit

theorem Term.Granted.sound {t : Term} {now : Duration} (h : t.Granted now)
    (hnow : now < Control.Controller.uptimeLimit) : t.Sound := ⟨⟨rfl, h.2⟩, h.1 ▸ hnow⟩

/-- The end of a sound term is in range. -/
theorem Term.Sound.exists_isExpired {t : Term} (h : t.Sound) (now : Duration) :
    ∃ b, t.isExpired now = .ok b := by
  have hlimit : Control.Controller.uptimeLimit < Term.limit := by decide
  exact Term.exists_isExpired_iff.2 (h.1.exists_expiry (Nat.lt_trans h.2 hlimit))

theorem Term.Sound.length_pos {t : Term} (h : t.Sound) : .zero < t.length := by
  obtain ⟨⟨-, n, hn, hl⟩, -⟩ := h
  have hpos : 0 < n.toNat := Nat.pos_of_ne_zero fun h0 => hn (UInt32.toNat_inj.1 h0)
  rw [hl]
  simp only [Duration.lt_def, Duration.zero, Duration.ofSeconds, Duration.second]
  omega

namespace Control.Controller

/-- A helper runs only for a lease that is missing, and both need the device. -/
structure Owned (c : Controller) : Prop where
  running : ∀ f, c.helper f = .running → c.state.deviceUp = true ∧ hasLease c.state f = false
  lease : ∀ f, hasLease c.state f = true → c.state.deviceUp = true

/-- What holds between any two inputs. -/
structure Orderly (start : Session) (c : Controller) : Prop where
  session : c.state.session.reset = start
  owned : c.Owned
  sound : ∀ f l, c.state.lease f = some l → l.term.Sound

/-- What a round restores. -/
structure Settled (start : Session) (s : State) : Prop where
  tidy : s.Tidy
  device : s.deviceUp = true → s.anyUp = true
  session : s.anyUp = false → s.session = start

variable {start : Session} {c d : Controller} {now : Duration}

/-! ## What keeps order -/

/-- Only what the controller holds counts, and what the session goes back to. -/
theorem Orderly.congr (h : Orderly start c) (hhelper : ∀ f, d.helper f = c.helper f)
    (hd : d.state.deviceUp = c.state.deviceUp) (hlease : ∀ f, d.state.lease f = c.state.lease f)
    (hs : d.state.session.reset = c.state.session.reset) : Orderly start d := by
  refine ⟨hs.trans h.session, ⟨fun f => ?_, fun f => ?_⟩, fun f => ?_⟩
  · rw [hhelper, hasLease, hlease, hd]; exact h.owned.running f
  · rw [hasLease, hlease, hd]; exact h.owned.lease f
  · rw [hlease]; exact h.sound f

theorem Orderly.handle (h : Orderly start c) (packet : Bytes) (source : IPv6) (now : Duration) :
    Orderly start (c.handle packet source now) := by
  rcases c.handle_cases packet source now with ⟨-, hc⟩ | ⟨m, -, -, -, -, hc⟩
  · rwa [hc]
  · obtain ⟨hrest, hreset⟩ := (changes_apply c.state m now).rest
    rw [hc]
    exact h.congr (fun f => helper_withState ..) (congrArg State.deviceUp hrest :)
      (fun f => (congrArg (·.lease f) hrest :)) hreset

theorem Orderly.requestShutdown (h : Orderly start c) : Orderly start c.requestShutdown :=
  h.congr (fun _ => helper_withState ..) rfl (fun _ => rfl) rfl

theorem Orderly.talk (h : Orderly start c) {es : List Effect} (ht : Talk c es d) :
    Orderly start d := by
  have hr := ht.rest
  refine h.congr (fun f => (congrArg (·.helper f) hr :)) (congrArg (·.state.deviceUp) hr :)
    (fun f => (congrArg (·.state.lease f) hr :)) ?_
  rw [hr]; rfl

theorem lease_bare (c : Controller) (f : Dhcp.Family) : c.bare.state.lease f = none := by
  cases f <;> rfl

theorem Orderly.bare (h : Orderly start c) : Orderly start c.bare := by
  refine ⟨h.session, ⟨fun f hf => ?_, fun f hf => ?_⟩, fun f l hl => ?_⟩
  · exact absurd ((helper_released c f).symm.trans hf) (stopped_ne_running _)
  · rw [hasLease, lease_bare] at hf
    cases hf
  · rw [lease_bare] at hl
    cases hl

/-! ## Polling and expiry -/

/-- At most helpers and leases differ. -/
def SameBut (c d : Controller) : Prop := d =
  { c with
    helper4 := d.helper4
    helper6 := d.helper6
    state := { c.state with lease4 := d.state.lease4, lease6 := d.state.lease6 } }

theorem SameBut.trans {e : Controller} (h : SameBut c d) (h' : SameBut d e) : SameBut c e := by
  unfold SameBut at *
  rw [h', h]

theorem Polled.sameBut {f : Dhcp.Family} {es : List (Event × Environment)}
    (h : Polled c now f d es) : SameBut c d := by
  cases h with
  | quiet => rfl
  | started | ended | leased => cases f <;> rfl

theorem Orderly.setHelper (h : Orderly start c) {f : Dhcp.Family} {x : Helper}
    (hx : x = .running → c.state.deviceUp = true ∧ hasLease c.state f = false) :
    Orderly start (c.setHelper f x) := by
  refine ⟨by rw [state_setHelper]; exact h.session, ⟨fun f' hf => ?_, ?_⟩, ?_⟩
  · rw [helper_setHelper] at hf
    rw [state_setHelper]
    split at hf
    · next he => rw [he]; exact hx hf
    · exact h.owned.running f' hf
  · rw [state_setHelper]; exact h.owned.lease
  · rw [state_setHelper]; exact h.sound

theorem Orderly.withLease (h : Orderly start c) {f : Dhcp.Family} {l : Option (Lease f)}
    (hl : ∀ x, l = some x → c.state.deviceUp = true ∧ c.helper f ≠ .running ∧ x.term.Sound) :
    Orderly start (c.withLease f l) := by
  have hdevice : (c.withLease f l).state.deviceUp = c.state.deviceUp := State.deviceUp_setLease ..
  refine ⟨by rw [state_withLease, State.session_setLease]; exact h.session, ⟨fun f' => ?_, ?_⟩, ?_⟩
  · rw [helper_withLease, hdevice]
    refine State.forall_setLease _ _ (P := fun f' o => c.helper f' = .running →
      c.state.deviceUp = true ∧ o.isSome = false) (fun hf => ?_) h.owned.running f'
    cases l with
    | none => exact ⟨(h.owned.running f hf).1, rfl⟩
    | some x => exact absurd hf (hl x rfl).2.1
  · rw [hdevice]
    refine State.forall_setLease _ _ (P := fun _ o => o.isSome = true → c.state.deviceUp = true)
      (fun hf => ?_) h.owned.lease
    obtain ⟨x, hx⟩ := Option.isSome_iff_exists.1 hf
    exact (hl x hx).1
  · exact State.forall_setLease _ _ (P := fun _ o => ∀ x, o = some x → x.term.Sound)
      (fun x hx => (hl x hx).2.2) h.sound

theorem Orderly.polled (h : Orderly start c) (hnow : now < uptimeLimit) {f : Dhcp.Family}
    {es : List (Event × Environment)} (hp : Polled c now f d es) : Orderly start d := by
  cases hp with
  | quiet => exact h
  | started _ hd hl => exact h.setHelper fun _ => ⟨hd, hl⟩
  | ended => exact h.setHelper fun hx => (by cases hx)
  | leased hr l hl =>
    have hidle : Orderly start (c.setHelper f .idle) := h.setHelper fun hx => (by cases hx)
    refine hidle.withLease fun x hx => ?_
    cases hx
    rw [state_setHelper, helper_setHelper, if_pos rfl]
    exact ⟨(h.owned.running f hr).1, fun hx => (by cases hx), hl.sound hnow⟩

theorem sameBut_expireLease {f : Dhcp.Family} {o : Outcome} (he : expireLease now f c = .ok o) :
    SameBut c o.controller := by
  rcases expireLease_cases he with ⟨rfl, -⟩ | ⟨l, -, rfl⟩
  · rfl
  · simp only [controller_dropLease]
    cases f <;> rfl

theorem Orderly.expired (h : Orderly start c) {f : Dhcp.Family} {o : Outcome}
    (he : expireLease now f c = .ok o) : Orderly start o.controller := by
  rcases expireLease_cases he with ⟨rfl, -⟩ | ⟨l, -, rfl⟩
  · exact h
  · simp only [controller_dropLease]
    exact h.withLease fun x hx => (by cases hx)

/-- What is done after session and device were settled touches helpers and leases only. -/
theorem Parts.sameBut {answers : Answers} (p : Parts c answers now) {o₄ o₆ : Outcome}
    (h₄ : expireLease now .ipv4 p.polled6.controller = .ok o₄)
    (h₆ : expireLease now .ipv6 o₄.controller = .ok o₆) :
    SameBut p.settled.controller o₆.controller :=
  ((p.poll4.sameBut.trans p.poll6.sameBut).trans (sameBut_expireLease h₄)).trans
    (sameBut_expireLease h₆)

/-! ## Settling -/

theorem Settled.congr {s s' : State} (h : Settled start s) (hl : s'.lte = s.lte)
    (hd : s'.dsl = s.dsl) (hs : s'.session = s.session)
    (hup : s'.deviceUp = true → s.deviceUp = true) : Settled start s' := by
  have hany : s'.anyUp = s.anyUp := by simp only [State.anyUp, hl, hd]
  refine ⟨fun t => ?_, fun hdev => hany.trans (h.device (hup hdev)), fun hdown => ?_⟩
  · have hlink : s'.link t = s.link t := by
      cases t with
      | lte => exact hl
      | dsl => exact hd
    rw [hlink]; exact h.tidy t
  · exact hs.trans (h.session (hany.symm.trans hdown))

theorem Settled.sameBut (h : Settled start c.state) (hs : SameBut c d) :
    Settled start d.state :=
  h.congr (congrArg (·.state.lte) hs :) (congrArg (·.state.dsl) hs :)
    (congrArg (·.state.session) hs :) fun hd => (congrArg (·.state.deviceUp) hs :).symm.trans hd

theorem Settled.bare (h : Settled start c.state) : Settled start c.bare.state :=
  h.congr rfl rfl rfl fun hd => (by cases hd)

theorem Orderly.equipped (h : Orderly start c) : Orderly start c.equipped :=
  ⟨h.session, ⟨fun f hf => ⟨rfl, (h.owned.running f ((helper_withState ..).symm.trans hf)).2⟩,
    fun _ _ => rfl⟩, h.sound⟩

theorem Orderly.renewed (h : Orderly start c) : Orderly start c.renewed :=
  h.congr (fun _ => helper_withState ..) rfl (fun _ => rfl) rfl

/-- Session and device settled, from whatever the links have become. -/
theorem Orderly.settles (h : Orderly start c) (ht : c.state.Tidy) {answers : Answers} {o : Outcome}
    (hs : Settles c answers o) :
    Orderly start o.controller ∧ Settled start o.controller.state ∧
      (o.controller.state.anyUp = true → o.controller.state.deviceUp = false →
        ∃ reason, answers.create = some reason ∧
          .create o.controller.state.tunnelName o.controller.state.tunnelMtu (some reason) ∈
            o.effects) := by
  have hsession : c.state.anyUp = true → c.state.anyUp = false → c.state.session = start :=
    fun hup hdown => by rw [hup] at hdown; cases hdown
  cases hs with
  | kept hup hd =>
    refine ⟨h, ⟨ht, fun _ => hup, hsession hup⟩, fun _ hd' => ?_⟩
    rw [hd] at hd'
    cases hd'
  | created hup =>
    exact ⟨h.equipped, ⟨ht, fun _ => hup, hsession hup⟩, fun _ hd => (by cases hd)⟩
  | refused hup _ reason hc =>
    exact ⟨h, ⟨ht, fun _ => hup, hsession hup⟩, fun _ _ => ⟨reason, hc, List.mem_cons_self⟩⟩
  | down hdown =>
    -- without a device nothing is owned, whatever the links become later
    rw [controller_giveUp]
    refine ⟨h.renewed.bare, ⟨ht, fun hd => (by cases hd), fun _ => h.session⟩, fun hup => ?_⟩
    exact absurd (hdown.symm.trans hup) (by decide)

/-! ## Rounds and courses -/

section
variable {answers : Answers} {r : Round}

/-- Before leases run out, everything is in order and settled. -/
theorem Orderly.parts (h : Orderly start c) (p : Parts c answers now) (hnow : now < uptimeLimit) :
    Orderly start p.polled6.controller ∧ Settled start p.settled.controller.state ∧
      (p.settled.controller.state.anyUp = true → p.settled.controller.state.deviceUp = false →
        ∃ reason, answers.create = some reason ∧
          .create p.settled.controller.state.tunnelName p.settled.controller.state.tunnelMtu
            (some reason) ∈ p.effects) := by
  obtain ⟨ho, hs, hcreate⟩ :=
    (h.talk p.talk).settles p.tidy (settles_settle p.talked.controller answers)
  refine ⟨(ho.polled hnow p.poll4).polled hnow p.poll6, hs, fun hup hd => ?_⟩
  obtain ⟨reason, hr, hmem⟩ := hcreate hup hd
  exact ⟨reason, hr, List.mem_append_right _ (List.mem_append_left _ hmem)⟩

theorem Orderly.exists_tick (h : Orderly start c) (answers : Answers) (hnow : now < uptimeLimit) :
    ∃ r, c.tick answers now = .ok r := by
  have ho := (h.parts (Controller.parts c answers now) hnow).1
  exact Controller.exists_tick fun f l hl => (ho.sound f l hl).exists_isExpired now

/-- What holds after a round, whatever held of the links before it. -/
structure Kept (start : Session) (answers : Answers) (now : Duration) (r : Round) : Prop where
  orderly : Orderly start r.controller
  settled : Settled start r.controller.state
  created : r.finished = false → r.controller.state.anyUp = true →
    r.controller.state.deviceUp = false → ∃ reason, answers.create = some reason ∧
      .create r.controller.state.tunnelName r.controller.state.tunnelMtu (some reason) ∈ r.effects
  unexpired : ∀ f l, r.controller.state.lease f = some l → l.term.isExpired now = .ok false

theorem Orderly.tick (h : Orderly start c) (hnow : now < uptimeLimit)
    (ht : c.tick answers now = .ok r) : Kept start answers now r := by
  obtain ⟨o₄, o₆, h₄, h₆, hr⟩ := tick_cases ht
  generalize Controller.parts c answers now = p at h₄ hr
  obtain ⟨ho, hs, hcreate⟩ := h.parts p hnow
  have ho₆ := (ho.expired h₄).expired h₆
  have hall := p.sameBut h₄ h₆
  have hset := hs.sameBut hall
  rcases hr with rfl | rfl
  · refine ⟨ho₆, hset, fun _ hup hd => ?_, fun f l hl => unexpired_expireLeases h₄ h₆ hl⟩
    have hlinks : p.settled.controller.state.anyUp = o₆.controller.state.anyUp :=
      (congrArg (·.state.anyUp) hall :).symm
    have hdev : p.settled.controller.state.deviceUp = o₆.controller.state.deviceUp :=
      (congrArg (·.state.deviceUp) hall :).symm
    obtain ⟨reason, hreason, hmem⟩ := hcreate (hlinks.trans hup) (hdev.trans hd)
    have hname : o₆.controller.state.tunnelName = p.settled.controller.state.tunnelName :=
      (congrArg (·.state.tunnelName) hall :)
    have hmtu : o₆.controller.state.tunnelMtu = p.settled.controller.state.tunnelMtu :=
      (congrArg (·.state.tunnelMtu) hall :)
    refine ⟨reason, hreason, ?_⟩
    rw [hname, hmtu]
    exact List.mem_append_left _ (List.mem_append_left _ hmem)
  · refine ⟨ho₆.bare, hset.bare, fun hf => (by cases hf), fun f l hl => ?_⟩
    rw [lease_bare] at hl
    cases hl

end

/-! ## Courses -/

section
variable (config : Config) (lte : IPv6) (dsl : Option IPv6) (helper4 helper6 : Bool)

theorem orderly_initial :
    Orderly (.startup config.anycast config.helloInterval config.helloRetries)
      (initial config lte dsl helper4 helper6) := by
  refine ⟨rfl, ⟨fun f hf => ?_, fun f hf => ?_⟩, fun f l hl => ?_⟩
  · cases f with
    | ipv4 => cases helper4 <;> cases hf
    | ipv6 => cases helper6 <;> cases hf
  · cases f <;> cases hf
  · cases f <;> cases hl

/-- Every input can be met and keeps order. -/
theorem Orderly.next {k : Course} {i : Input} (h : Orderly start k.controller) (hi : i.Timely) :
    ∃ k', k.next i = .ok k' ∧ Orderly start k'.controller := by
  cases i with
  | packet bytes source now => exact ⟨_, rfl, h.handle bytes source now⟩
  | stop => exact ⟨_, rfl, h.requestShutdown⟩
  | round answers now =>
    obtain ⟨r, hr⟩ := h.exists_tick answers hi
    exact ⟨⟨r.controller, k.rounds ++ [r]⟩, by simp only [Course.next, hr, Except.map],
      (h.tick hi hr).orderly⟩

theorem exists_run_orderly {inputs : List Input} (hclock : ∀ i ∈ inputs, i.Timely) :
    ∃ k, (initial config lte dsl helper4 helper6).run inputs = .ok k ∧
      Orderly (.startup config.anycast config.helloInterval config.helloRetries) k.controller :=
  Course.exists_follow (P := fun k => Orderly _ k.controller)
    (fun _ i hi h => h.next (hclock i hi)) (orderly_initial config lte dsl helper4 helper6)

/-- **After every round, whatever came before it, helpers run and leases are held only with a
device, there is a device exactly while a link is established unless it could not be created or this
was the last round, a session without a link is a new one, and no lease is over.** -/
theorem tick_settles (inputs : List Input) (answers : Answers) (now : Duration)
    (hclock : ∀ i ∈ inputs, i.Timely) (hnow : now < uptimeLimit) :
    ∃ k r, (initial config lte dsl helper4 helper6).run inputs = .ok k ∧
      k.controller.tick answers now = .ok r ∧
      let c := r.controller
      let s := c.state
      (∀ f, c.helper f = .running ∨ hasLease s f = true → s.deviceUp = true) ∧
      (s.deviceUp = true → s.anyUp = true) ∧
      (r.finished = false → s.anyUp = true → s.deviceUp = false →
        ∃ reason, answers.create = some reason ∧
          .create s.tunnelName s.tunnelMtu (some reason) ∈ r.effects) ∧
      (s.anyUp = false →
        s.session = .startup config.anycast config.helloInterval config.helloRetries) ∧
      (∀ t, (s.link t).status = .down → (s.link t).isPristine = true) ∧
      ∀ t ∈ s.terms, .zero < t.length ∧ t.isExpired now = .ok false := by
  obtain ⟨k, hk, ho⟩ := exists_run_orderly config lte dsl helper4 helper6 hclock
  obtain ⟨r, hr⟩ := ho.exists_tick answers hnow
  obtain ⟨ho', hs, hcreated, hun⟩ := ho.tick hnow hr
  refine ⟨k, r, hk, hr, fun f hf => ?_, hs.device, hcreated, hs.session, hs.tidy, fun t ht => ?_⟩
  · rcases hf with hf | hf
    · exact (ho'.owned.running f hf).1
    · exact ho'.owned.lease f hf
  · obtain ⟨f, l, hl, rfl⟩ := State.mem_terms_iff.1 ht
    exact ⟨(ho'.sound f l hl).length_pos, hun f l hl⟩

end

/-- The server accepts, the device is created, and a helper prints a lease one second later. -/
theorem tick_settles_with_a_lease :
    let inputs := [.packet acceptance Config.default.anycast .zero, .round willing (.ofSeconds 1)]
    (∀ i ∈ inputs, i.Timely) ∧ Duration.ofSeconds 2 < uptimeLimit ∧
    ∃ k r, (initial .default .unspecified none true false).run inputs = .ok k ∧
      k.controller.tick willing (.ofSeconds 2) = .ok r ∧
      hasLease r.controller.state .ipv4 = true ∧ r.controller.state.deviceUp = true ∧
      r.controller.state.anyUp = true ∧ ∀ t ∈ r.controller.state.terms,
        .zero < t.length ∧ t.isExpired (.ofSeconds 2) = .ok false := by
  intro inputs
  have hclock : ∀ i ∈ inputs, i.Timely := by
    intro i hi
    simp only [inputs, List.mem_cons, List.not_mem_nil, or_false] at hi
    rcases hi with rfl | rfl
    · exact (by decide : Duration.zero < uptimeLimit)
    · exact (by decide : Duration.ofSeconds 1 < uptimeLimit)
  have hnow : Duration.ofSeconds 2 < uptimeLimit := by decide
  obtain ⟨k, r, hk, hr, howned, hdevice, -, -, -, hterms⟩ :=
    tick_settles .default .unspecified none true false inputs willing (.ofSeconds 2) hclock hnow
  have hlease : (((initial .default .unspecified none true false).run inputs >>= fun k =>
      k.controller.tick willing (.ofSeconds 2)).toOption.map fun r =>
        hasLease r.controller.state .ipv4) = some true := by decide +kernel
  simp only [hk, bind, Except.bind, hr] at hlease
  have hheld : hasLease r.controller.state .ipv4 = true := Option.some.inj hlease
  have hup := howned .ipv4 (Or.inr hheld)
  exact ⟨hclock, hnow, k, r, hk, hr, hheld, hup, hdevice hup, hterms⟩

end Control.Controller

end HybridAccess
