/-
  HybridAccess — what the events tell.

  A listener knows the events only. `Announced` is what it may believe to be
  open, and `hear?` takes one more event in, or refuses it: the tunnel comes up
  and goes down in turn, a lease of a family is announced only inside it and
  taken back with the values it was announced with, and the end comes when
  nothing is open. `leaseTold` is what is to be told about a lease, and every
  event carries it (`leaseValues_environment`). `events_nest` shows that no
  event of a course is refused, and that the listener always believes what the
  controller holds.
-/
import Mathlib.Logic.Function.Basic
import HybridAccess.Proofs.Control.Lifecycle

namespace HybridAccess.Control

/-! ## The listener -/

/-- The names of the values about a lease. -/
def leaseNames : Dhcp.Family → List String
  | .ipv4 => ["dhcp_ip", "dhcp_lease_time"]
  | .ipv6 => ["dhcp6_prefix_address", "dhcp6_prefix_length", "dhcp6_lease_time"]

/-- The values about a lease in an environment. -/
def leaseValues (family : Dhcp.Family) (env : Environment) : Environment :=
  env.filter fun kv => leaseNames family |>.contains kv.1

/-- What is to be told about a lease: the address, or the prefix with its length, and how many
seconds it is granted. Where there is none, the address is that of nobody, and all numbers are
zero. -/
def leaseTold : (family : Dhcp.Family) → Option (Lease family) → Environment
  | .ipv4, none => [("dhcp_ip", "0.0.0.0"), ("dhcp_lease_time", "0")]
  | .ipv4, some (Lease4.mk address term) =>
    [("dhcp_ip", address.toText), ("dhcp_lease_time", toString term.length.seconds)]
  | .ipv6, none =>
    [("dhcp6_prefix_address", "::"), ("dhcp6_prefix_length", "0"), ("dhcp6_lease_time", "0")]
  | .ipv6, some (Lease6.mk address length term) =>
    [("dhcp6_prefix_address", address.toText), ("dhcp6_prefix_length", toString length.toNat),
      ("dhcp6_lease_time", toString term.length.seconds)]

/-- What a listener believes to be open. -/
inductive Announced
  | nothing
  /-- The tunnel, and the leases for which there are values. -/
  | tunnel (leases : Dhcp.Family → Option Environment)
  /-- The end has come. -/
  | ended

namespace Announced

/-- Take in an event, unless it may not happen now. -/
def hear? : Announced → Event × Environment → Option Announced
  | nothing, (.tunnelUp, _) => some (tunnel fun _ => none)
  | nothing, (.shutdown, _) => some ended
  | tunnel leases, (.leaseUp f, env) =>
    if leases f = none then some (tunnel (Function.update leases f (some (leaseValues f env))))
    else none
  | tunnel leases, (.leaseDown f, env) =>
    if leases f = some (leaseValues f env) then some (tunnel (Function.update leases f none))
    else none
  | tunnel leases, (.tunnelDown, env) =>
    if ∀ f, leases f = none ∧ leaseValues f env = leaseTold f none then some nothing else none
  | _, _ => none

/-- Take in several events. -/
def hearAll? (a : Announced) (es : List (Event × Environment)) : Option Announced :=
  es.foldlM hear? a

@[simp] theorem hearAll?_nil (a : Announced) : a.hearAll? [] = some a := rfl

@[simp] theorem hearAll?_cons (a : Announced) (e : Event × Environment)
    (es : List (Event × Environment)) :
    a.hearAll? (e :: es) = (a.hear? e).bind (·.hearAll? es) := List.foldlM_cons

theorem hearAll?_append (a : Announced) (es fs : List (Event × Environment)) :
    a.hearAll? (es ++ fs) = (a.hearAll? es).bind (·.hearAll? fs) := List.foldlM_append

/-- Nothing follows the end. -/
theorem hearAll?_ended_eq_some {es : List (Event × Environment)} {a : Announced}
    (h : ended.hearAll? es = some a) : es = [] ∧ a = ended := by
  cases es with
  | nil => exact ⟨rfl, (Option.some.inj h).symm⟩
  | cons e es => cases h

/-- Where the end has not come, it was not told. -/
theorem shutdown_not_mem {a b : Announced} {es : List (Event × Environment)}
    (h : a.hearAll? es = some b) (hb : b ≠ ended) (env : Environment) : (.shutdown, env) ∉ es := by
  induction es generalizing a with
  | nil => exact List.not_mem_nil
  | cons e es ih =>
    rw [hearAll?_cons, Option.bind_eq_some_iff] at h
    obtain ⟨a', he, h'⟩ := h
    refine List.not_mem_cons_of_ne_of_not_mem (fun heq => ?_) (ih h')
    subst heq
    -- whoever hears the end hears nothing more
    cases a <;> cases he
    exact hb (hearAll?_ended_eq_some h').2

end Announced

/-! ## What a state has told -/

/-- What a listener should believe about the leases that are held. -/
def toldLeases (s : State) (family : Dhcp.Family) : Option Environment :=
  (s.lease family).map fun l => leaseTold family (some l)

/-- What a listener should believe: the tunnel is up with the device, and what was told about a lease
is what is to be told about it. -/
def told (s : State) : Announced := if s.deviceUp then .tunnel (toldLeases s) else .nothing

/-- **Every event carries what is to be told about the leases that are held.** -/
theorem leaseValues_environment (s : State) (family : Dhcp.Family) :
    leaseValues family s.environment = leaseTold family (s.lease family) := by
  have h₄ : IPv4.unspecified.toText = "0.0.0.0" := by decide
  have h₆ : IPv6.unspecified.toText = "::" := by decide
  unfold State.environment State.lease
  -- each value is found under its name, whichever of the others are there
  cases family <;> cases s.bonding <;> cases s.lease4 <;> cases s.lease6 <;>
    simp [leaseValues, leaseNames, leaseTold, State.environment4, State.environment6, h₄, h₆]

theorem toldLeases_setLease (s : State) {family : Dhcp.Family} (l : Option (Lease family)) :
    toldLeases (s.setLease family l) =
      Function.update (toldLeases s) family (l.map fun l => leaseTold family (some l)) := by
  funext other
  by_cases h : other = family
  · subst h
    rw [Function.update_self, toldLeases, State.lease_setLease_self]
  · rw [Function.update_of_ne h, toldLeases, State.lease_setLease_of_ne _ _ h, toldLeases]

theorem told_of_down {s : State} (h : s.deviceUp = false) : told s = .nothing :=
  if_neg (by simp [h])

theorem told_of_up {s : State} (h : s.deviceUp = true) : told s = .tunnel (toldLeases s) := if_pos h

theorem told_congr {s s' : State} (hd : s'.deviceUp = s.deviceUp)
    (hl : ∀ f, s'.lease f = s.lease f) : told s' = told s := by
  have hleases : toldLeases s' = toldLeases s := funext fun f => by rw [toldLeases, toldLeases, hl]
  rw [told, told, hd, hleases]

namespace Controller

/-- The events lead a listener from what one controller has told to what another one has. -/
def Tells (c : Controller) (es : List (Event × Environment)) (d : Controller) : Prop :=
  (told c.state).hearAll? es = some (told d.state)

variable {start : Session} {c d e : Controller} {es fs : List (Event × Environment)}
  {now : Duration}

namespace Tells

theorem trans (h : Tells c es d) (h' : Tells d fs e) : Tells c (es ++ fs) e := by
  rw [Tells, Announced.hearAll?_append, h]
  exact h'

/-- Nothing has to be told where device and leases stay. -/
theorem quiet (hd : d.state.deviceUp = c.state.deviceUp)
    (hl : ∀ f, d.state.lease f = c.state.lease f) : Tells c [] d :=
  congrArg some (told_congr hd hl).symm

end Tells

/-! ## The parts of a round -/

theorem Talk.tells {effects : List Effect} (h : Talk c effects d) :
    Tells c (effects.filterMap Effect.event?) d := by
  have hr := h.rest
  rw [List.filterMap_eq_nil_iff.2 fun e he => (h.effects e he).event?]
  exact .quiet (congrArg (·.state.deviceUp) hr :) fun f => (congrArg (·.state.lease f) hr :)

theorem toldLeases_eq_none {s : State} {f : Dhcp.Family} (h : s.lease f = none) :
    toldLeases s f = none := by
  rw [toldLeases, h]
  rfl

/-- Without a device there is no lease. -/
theorem Owned.lease_eq_none (h : c.Owned) (hd : c.state.deviceUp = false) (f : Dhcp.Family) :
    c.state.lease f = none := by
  refine Option.not_isSome_iff_eq_none.1 fun hf => ?_
  have hup := h.lease f hf
  rw [hd] at hup
  cases hup

/-- A lease is taken back with the values it was announced with. -/
theorem tells_dropLease (f : Dhcp.Family) (h : hasLease c.state f = true → c.state.deviceUp = true) :
    Tells c ((dropLease f c).effects.filterMap Effect.event?) (dropLease f c).controller := by
  rw [events_dropLease, controller_dropLease]
  split
  · next hl =>
    obtain ⟨l, hl'⟩ := Option.isSome_iff_exists.1 hl
    have hd := h hl
    have hopen : toldLeases c.state f = some (leaseValues f c.state.environment) := by
      rw [leaseValues_environment, toldLeases, hl']
      rfl
    rw [Tells, told_of_up hd, told_of_up (s := (c.withLease f none).state) (by simpa using hd),
      state_withLease, toldLeases_setLease]
    simp [Announced.hear?, hopen]
  · next hl =>
    have hnone : c.state.lease f = none := Option.not_isSome_iff_eq_none.1 hl
    rw [withLease, ← hnone, State.setLease_lease]
    exact .quiet rfl fun _ => rfl

theorem tells_releaseLeases (h : c.Owned) :
    Tells c ((releaseLeases c).effects.filterMap Effect.event?) c.released := by
  have hdrop := tells_dropLease .ipv4 (h.lease .ipv4)
  rw [controller_dropLease] at hdrop
  have hdrop' := tells_dropLease (c := c.withLease .ipv4 none) .ipv6 (h.lease .ipv6)
  rw [controller_dropLease] at hdrop'
  have hend : Tells ((c.withLease .ipv4 none).withLease .ipv6 none) [] c.released :=
    .quiet rfl fun _ => rfl
  have hall := hdrop.trans (hdrop'.trans hend)
  rw [List.append_nil, events_dropLease, events_dropLease] at hall
  rw [events_releaseLeases]
  exact hall

theorem tells_giveUp (h : c.Owned) (answers : Answers) :
    Tells c ((giveUp answers c).effects.filterMap Effect.event?) c.bare := by
  rw [events_giveUp]
  refine (tells_releaseLeases h).trans ?_
  split
  · next hd =>
    have hnone : ∀ f, toldLeases c.released.state f = none ∧
        leaseValues f c.bare.state.environment = leaseTold f none := fun f => by
      rw [leaseValues_environment, lease_bare]
      exact ⟨toldLeases_eq_none (lease_bare c f), rfl⟩
    rw [Tells, told_of_up (s := c.released.state) hd, told_of_down (s := c.bare.state) rfl,
      Announced.hearAll?_cons, Announced.hear?, if_pos hnone]
    rfl
  · next hd => exact .quiet (Bool.eq_false_iff.2 hd).symm fun _ => rfl

theorem Settles.tells (h : c.Owned) {answers : Answers} {o : Outcome} (hs : Settles c answers o) :
    Tells c (o.effects.filterMap Effect.event?) o.controller := by
  cases hs with
  | kept | refused => exact .quiet rfl fun _ => rfl
  | created _ hd =>
    have hnone : toldLeases c.equipped.state = fun _ => none :=
      funext fun f => toldLeases_eq_none (h.lease_eq_none hd f :)
    rw [Tells, told_of_down hd, told_of_up rfl, hnone]
    rfl
  | down =>
    rw [controller_giveUp]
    have hrenewed : c.renewed.Owned :=
      ⟨fun f hf => h.running f ((helper_withState ..).symm.trans hf), h.lease⟩
    have hquiet : Tells c [] c.renewed := .quiet rfl fun _ => rfl
    exact hquiet.trans (tells_giveUp hrenewed answers)

theorem Polled.tells (h : c.Owned) {f : Dhcp.Family} (hp : Polled c now f d es) : Tells c es d := by
  cases hp with
  | quiet => exact .quiet rfl fun _ => rfl
  | started | ended => exact .quiet (by simp) (by simp)
  | leased hr l =>
    -- a helper that runs is owed a lease, so that none is open
    obtain ⟨hd, hl⟩ := h.running f hr
    have hnone : toldLeases c.state f = none :=
      toldLeases_eq_none (Option.not_isSome_iff_eq_none.1 (Bool.eq_false_iff.1 hl))
    rw [Tells, told_of_up hd, told_of_up (by simpa using hd), Announced.hearAll?_cons,
      Announced.hear?, if_pos hnone, leaseValues_environment, state_withLease, state_setHelper,
      toldLeases_setLease, State.lease_setLease_self]
    rfl

theorem tells_expireLease (h : c.Owned) {f : Dhcp.Family} {o : Outcome}
    (he : expireLease now f c = .ok o) :
    Tells c (o.effects.filterMap Effect.event?) o.controller := by
  rcases expireLease_cases he with ⟨rfl, -⟩ | ⟨l, -, rfl⟩
  · exact .quiet rfl fun _ => rfl
  · rw [List.filterMap_cons_none rfl]
    exact tells_dropLease f (h.lease f)

theorem Parts.tells {answers : Answers} (h : Orderly start c) (p : Parts c answers now)
    (hnow : now < uptimeLimit) :
    Tells c (p.effects.filterMap Effect.event?) p.polled6.controller := by
  have ht := h.talk p.talk
  have hsettles := settles_settle p.talked.controller answers
  have hs := (ht.settles p.tidy hsettles).1
  have h₄ := hs.polled hnow p.poll4
  simp only [Parts.effects, List.filterMap_append]
  exact p.talk.tells.trans ((hsettles.tells ht.owned).trans
    ((p.poll4.tells hs.owned).trans (p.poll6.tells h₄.owned)))

/-! ## Rounds -/

/-- Where the end comes: in the last round, as the last event. -/
structure Round.Ends (r : Round) : Prop where
  silent : r.finished = false → ∀ env, (.shutdown, env) ∉ r.events
  last : r.finished = true → ∃ es env, r.events = es ++ [(.shutdown, env)] ∧
    ∀ env', (.shutdown, env') ∉ es

/-- What a listener believes behind a round. -/
def Round.heard (r : Round) : Announced := if r.finished then .ended else told r.controller.state

theorem told_ne_ended (s : State) : told s ≠ .ended := by
  unfold told
  split
  · exact fun h => (by cases h)
  · exact fun h => (by cases h)

/-- **The events of a round lead a listener from what was told before to what has been told
behind.** -/
theorem Orderly.hearAll?_events {answers : Answers} {r : Round} (h : Orderly start c)
    (hnow : now < uptimeLimit) (ht : c.tick answers now = .ok r) :
    (told c.state).hearAll? r.events = some r.heard ∧ r.Ends := by
  obtain ⟨o₄, o₆, h₄, h₆, hr⟩ := tick_cases ht
  generalize Controller.parts c answers now = p at h₄ hr
  have ho := (h.parts p hnow).1
  have ho₄ := ho.expired h₄
  have ho₆ := ho₄.expired h₆
  have htells := ((p.tells h hnow).trans (tells_expireLease ho.owned h₄)).trans
    (tells_expireLease ho₄.owned h₆)
  rcases hr with rfl | rfl
  · have hall : Tells c (Round.events ⟨o₆.controller, p.effects ++ o₄.effects ++ o₆.effects, false⟩)
        o₆.controller := by
      rw [Round.events, List.filterMap_append, List.filterMap_append]
      exact htells
    exact ⟨hall, fun _ => Announced.shutdown_not_mem hall (told_ne_ended _),
      fun hf => (by cases hf)⟩
  · -- everything is given up before the end is told
    have hbare : told o₆.controller.bare.state = .nothing := told_of_down rfl
    have hend := htells.trans (tells_giveUp ho₆.owned answers)
    have hevents : Round.events ⟨o₆.controller.bare,
        p.effects ++ o₄.effects ++ o₆.effects ++ (shutdown answers o₆.controller).effects, true⟩ =
        (p.effects.filterMap Effect.event? ++ o₄.effects.filterMap Effect.event? ++
          o₆.effects.filterMap Effect.event? ++
          (giveUp answers o₆.controller).effects.filterMap Effect.event?) ++
          [(.shutdown, o₆.controller.bare.state.environment)] := by
      simp only [Round.events, List.filterMap_append, events_shutdown, List.append_assoc]
    rw [hevents]
    refine ⟨?_, fun hf => (by cases hf), fun _ => ⟨_, _, hevents,
      Announced.shutdown_not_mem hend (told_ne_ended _)⟩⟩
    rw [Announced.hearAll?_append, hend, hbare]
    rfl

/-! ## Courses -/

/-- What a listener believes behind a course. -/
def Course.heard (k : Course) : Announced :=
  if k.rounds.any (·.finished) then .ended else told k.controller.state

theorem told_handle (c : Controller) (packet : Bytes) (source : IPv6) (now : Duration) :
    told (c.handle packet source now).state = told c.state := by
  rcases c.handle_cases packet source now with ⟨-, hc⟩ | ⟨m, -, -, -, -, hc⟩
  · rw [hc]
  · have hrest := (changes_apply c.state m now).rest.1
    rw [hc]
    exact told_congr (congrArg State.deviceUp hrest :) fun f => (congrArg (·.lease f) hrest :)

/-- What the events of a course have to keep to. -/
structure Course.Nests (start : Session) (k : Course) : Prop where
  orderly : Orderly start k.controller
  ends : ∀ r ∈ k.rounds, r.Ends
  heard : (∀ r ∈ k.rounds.dropLast, r.finished = false) →
    Announced.nothing.hearAll? k.events = some k.heard

namespace Course

variable {k : Course}

/-- Between rounds nothing is told. -/
theorem Nests.between (h : k.Nests start) (ho : Orderly start d)
    (ht : told d.state = told k.controller.state) : Nests start ⟨d, k.rounds⟩ := by
  refine ⟨ho, h.ends, fun hk => (h.heard hk).trans (congrArg some ?_)⟩
  rw [Course.heard, Course.heard, ht]

theorem Nests.round {r : Round} (h : k.Nests start) (ho : Orderly start r.controller)
    (hr : (told k.controller.state).hearAll? r.events = some r.heard) (hends : r.Ends) :
    Nests start ⟨r.controller, k.rounds ++ [r]⟩ := by
  refine ⟨ho, fun r' hr' => ?_, fun hk => ?_⟩
  · rcases List.mem_append.1 hr' with hr' | hr'
    · exact h.ends r' hr'
    · rwa [List.mem_singleton.1 hr']
  · have hopen : ∀ r' ∈ k.rounds, r'.finished = false := by simpa using hk
    have hany : k.rounds.any (·.finished) = false := by simpa using hopen
    have hbefore : Announced.nothing.hearAll? k.events = some (told k.controller.state) := by
      rw [h.heard fun r' hr' => hopen r' (List.dropLast_subset _ hr'), Course.heard, hany]
      rfl
    have hevents : Course.events ⟨r.controller, k.rounds ++ [r]⟩ = k.events ++ r.events := by
      simp [Course.events]
    rw [hevents, Announced.hearAll?_append, hbefore, Option.bind_some, hr, Course.heard,
      Round.heard]
    simp [hany]

/-- Every input can be met, and the events go on nesting. -/
theorem Nests.next {i : Input} (h : k.Nests start) (hi : i.Timely) :
    ∃ k', k.next i = .ok k' ∧ k'.Nests start := by
  cases i with
  | packet bytes source now =>
    exact ⟨_, rfl, h.between (h.orderly.handle bytes source now) (told_handle _ bytes source now)⟩
  | stop => exact ⟨_, rfl, h.between h.orderly.requestShutdown rfl⟩
  | round answers now =>
    obtain ⟨r, hr⟩ := h.orderly.exists_tick answers hi
    obtain ⟨hheard, hends⟩ := h.orderly.hearAll?_events hi hr
    exact ⟨_, by simp only [Course.next, hr, Except.map],
      h.round (h.orderly.tick hi hr).orderly hheard hends⟩

end Course

/-- **The events of all rounds up to the last one nest: a listener who starts with nothing refuses
none of them, and the end is told in the last round only, behind all other events.** -/
theorem events_nest (config : Config) (lte : IPv6) (dsl : Option IPv6) (helper4 helper6 : Bool)
    (inputs : List Input) (hclock : ∀ i ∈ inputs, i.Timely) :
    ∃ k, (initial config lte dsl helper4 helper6).run inputs = .ok k ∧ (∀ r ∈ k.rounds, r.Ends) ∧
      ((∀ r ∈ k.rounds.dropLast, r.finished = false) →
        Announced.nothing.hearAll? k.events = some k.heard) := by
  let start : Session := .startup config.anycast config.helloInterval config.helloRetries
  have hinit : Course.Nests start ⟨initial config lte dsl helper4 helper6, []⟩ :=
    ⟨orderly_initial config lte dsl helper4 helper6, fun _ hr => absurd hr List.not_mem_nil,
      fun _ => rfl⟩
  obtain ⟨k, hk, h⟩ := Course.exists_follow (P := Course.Nests start)
    (fun _ i hi h => h.next (hclock i hi)) hinit
  exact ⟨k, hk, h.ends, h.heard⟩

/-- A tunnel and a lease that both come up and are given up in the last round. -/
theorem events_nest_around_a_lease :
    let inputs := [.packet acceptance Config.default.anycast .zero, .round willing (.ofSeconds 1),
      .round willing (.ofSeconds 2), .stop, .round willing (.ofSeconds 3)]
    (∀ i ∈ inputs, i.Timely) ∧
    ∃ k, (initial .default .unspecified none true false).run inputs = .ok k ∧
      k.events.map Prod.fst = [.tunnelUp, .leaseUp4, .leaseDown4, .tunnelDown, .shutdown] ∧
      (∀ r ∈ k.rounds, r.Ends) ∧ Announced.nothing.hearAll? k.events = some .ended := by
  intro inputs
  have hclock : ∀ i ∈ inputs, i.Timely := by
    intro i hi
    simp only [inputs, List.mem_cons, List.not_mem_nil, or_false] at hi
    rcases hi with rfl | rfl | rfl | rfl | rfl
    · exact (by decide : Duration.zero < uptimeLimit)
    · exact (by decide : Duration.ofSeconds 1 < uptimeLimit)
    · exact (by decide : Duration.ofSeconds 2 < uptimeLimit)
    · trivial
    · exact (by decide : Duration.ofSeconds 3 < uptimeLimit)
  obtain ⟨k, hk, hends, hnest⟩ := events_nest .default .unspecified none true false inputs hclock
  have htold : ((initial .default .unspecified none true false).run inputs).toOption.map
      (fun k => (k.events.map Prod.fst, k.rounds.map (·.finished))) =
      some ([.tunnelUp, .leaseUp4, .leaseDown4, .tunnelDown, .shutdown], [false, false, true]) := by
    decide +kernel
  rw [hk] at htold
  obtain ⟨hevents, hfinished⟩ := Prod.mk.inj (Option.some.inj htold)
  have hopen : ∀ r ∈ k.rounds.dropLast, r.finished = false := by
    intro r hr
    have hmem := List.mem_map_of_mem (f := Round.finished) hr
    rw [List.map_dropLast, hfinished] at hmem
    simpa using hmem
  have hended : k.heard = .ended := by
    have hlast : true ∈ k.rounds.map (·.finished) := by rw [hfinished]; decide
    obtain ⟨r, hr, hf⟩ := List.mem_map.1 hlast
    exact if_pos (List.any_eq_true.2 ⟨r, hr, hf⟩)
  exact ⟨hclock, k, hk, hevents, hends, hended ▸ hnest hopen⟩

end Controller

end HybridAccess.Control
