/-
  HybridAccess — the controller.

  The controller owns the state and drives everything else: it sends control
  messages, creates and destroys the tunnel device, starts and polls the
  programs that negotiate leases, and tells of events. It works in rounds
  (`tick`), one for each tick of the clock; a round is a fixed sequence of
  acts (`acts`). Received packets are applied between rounds (`handle`).

  What the controller does to the outside is returned as a list of effects.
  What the outside answers is a parameter (`Answers`): in one round each
  message is sent at most once, the device is created or destroyed at most
  once, and each program is started or polled at most once, so one answer for
  each of them covers every possible behaviour of the outside.
-/
import HybridAccess.Event
import HybridAccess.Control.Inbound
import HybridAccess.Control.Outbound
import HybridAccess.Dhcp.Report

namespace HybridAccess.Control

open Message (Kind Stamp)

/-! ## Types -/

/-- The program that negotiates leases of a family. -/
inductive Helper
  /-- There is none. -/
  | absent
  /-- It does not run. -/
  | idle
  | running
deriving DecidableEq, Repr

/-- What the controller does to the outside, and what it logs. -/
inductive Effect
  /-- A packet is handed to a link, which may refuse it. -/
  | transmit (tunnel : Tunnel) (packet : Bytes) (destination : IPv6) (failure : Option String)
  | create (name : String) (mtu : Nat) (failure : Option String)
  | destroy (failure : Option String)
  | event (event : Event) (environment : Environment)
  | start (family : Dhcp.Family) (interface : String) (failure : Option Dhcp.Failure)
  | poll (family : Dhcp.Family)
  | kill (family : Dhcp.Family) (wasRunning : Bool)
  | note (notice : Notice)
deriving DecidableEq, Repr

/-- What is logged. -/
def Effect.notice? : Effect → Option Notice
  | note n => some n
  | _ => none

/-- The event that is told. -/
def Effect.event? : Effect → Option (Event × Environment)
  | event e env => some (e, env)
  | _ => none

/-- What the outside answers in one round. -/
structure Answers where
  /-- Why a message cannot be sent, if it cannot. -/
  transmit : Message → Option String
  /-- Why the device cannot be created, if it cannot. -/
  create : Option String
  /-- Why the device cannot be destroyed, if it cannot. -/
  destroy : Option String
  /-- Why a program cannot be started, if it cannot. -/
  start : Dhcp.Family → Option Dhcp.Failure
  /-- What a running program has printed, or why that is not known; none while it still runs. -/
  poll : Dhcp.Family → Option (Except Dhcp.Failure String)

/-- The controller. -/
structure Controller where
  state : State
  /-- Whether there is a socket for the broadband link. -/
  hasDsl : Bool
  helper4 : Helper
  helper6 : Helper
  /-- The name under which the client introduces itself. -/
  identification : Bytes
  /-- The rate that is reported as bypass traffic. -/
  bypassRate : UInt32
deriving DecidableEq, Repr

/-- The controller after an act, and what it did. -/
structure Outcome where
  controller : Controller
  effects : List Effect

/-- Something the controller does in a round. -/
abbrev Act := Controller → Outcome

namespace Controller

/-- A controller that has not done anything. The end points of the links are known by now; without
one for the broadband link there is no socket for it. -/
def initial (config : Config) (lte : IPv6) (dsl : Option IPv6) (helper4 helper6 : Bool) :
    Controller :=
  let s := State.ofConfig config
  { state := { s with
      lte := { s.lte with address := lte }
      dsl := { s.dsl with address := dsl.getD s.dsl.address } }
    hasDsl := dsl.isSome
    helper4 := if helper4 then .idle else .absent
    helper6 := if helper6 then .idle else .absent
    identification := Bytes.ofText config.identification
    bypassRate := config.bypassRate }

/-- What the data plane sees. -/
def view (c : Controller) : View := c.state.view

/-- The helper of a family. -/
def helper (c : Controller) : Dhcp.Family → Helper
  | .ipv4 => c.helper4
  | .ipv6 => c.helper6

/-- Change the helper of a family. -/
def setHelper (c : Controller) (family : Dhcp.Family) (h : Helper) : Controller :=
  match family with
  | .ipv4 => { c with helper4 := h }
  | .ipv6 => { c with helper6 := h }

/-- Change the state. -/
def withState (c : Controller) (s : State) : Controller := { c with state := s }

/-! ## Parts of acts -/

/-- Do nothing. -/
def idle : Act := fun c => ⟨c, []⟩

/-- Do several things in order. -/
def sequence : List Act → Act
  | [], c => ⟨c, []⟩
  | a :: as, c =>
    let first := a c
    let rest := sequence as first.controller
    ⟨rest.controller, first.effects ++ rest.effects⟩

/-- Tell of an event, with the values as they are. -/
def fire (e : Event) : Act := fun c => ⟨c, [.event e c.state.environment]⟩

/-- Send a message to the server: whether it went out, and what was done. -/
def send (c : Controller) (answers : Answers) (m : Message) : Bool × List Effect :=
  if m.tunnel = .dsl ∧ ! c.hasDsl then (false, [.note (.noSocket m.tunnel)])
  else
    match m.encode with
    | .error e => (false, [.note (.notEncoded m.kind e)])
    | .ok packet =>
      let failure := answers.transmit m
      let effect := Effect.transmit m.tunnel packet c.state.session.server failure
      match failure with
      | none =>
        (true, [effect, .note (.sent m.kind m.tunnel), .note (.contents m.kind packet)])
      | some reason => (false, [effect, .note (.notSent m.kind m.tunnel reason)])

/-! ## Acts of a round -/

/-- Forget what is remembered of a link that went down. -/
def forgetDownLinks : Act := fun c =>
  let forget (l : Link) := if l.status = .down ∧ ! l.isPristine then l.reset else l
  ⟨c.withState { c.state with lte := forget c.state.lte, dsl := forget c.state.dsl }, []⟩

/-- The tunnel that a connection is asked for: the cellular one first, then the broadband one if
both are wanted. -/
def wanted? (s : State) : Option Tunnel :=
  if ! s.lte.isEstablished then some .lte
  else if s.bonding ∧ ! s.dsl.isEstablished then some .dsl
  else none

/-- Ask for a connection. -/
def sendRequest (answers : Answers) : Act := fun c =>
  match wanted? c.state with
  | none => idle c
  | some tunnel =>
    let (sent, effects) := c.send answers (request c.state.session tunnel c.identification)
    if sent then
      ⟨c.withState (c.state.updateLink tunnel fun l => { l with status := .requesting }), effects⟩
    else ⟨c, effects⟩

/-- Acknowledge a list of filters that was not acknowledged yet. -/
def acknowledgeFilters (answers : Answers) : Act := fun c =>
  let session := c.state.session
  if ! c.state.lte.isEstablished ∨ session.filterCount = 0 ∨ session.filterAcked then idle c
  else
    let (sent, effects) := c.send answers (filterListAck session)
    ⟨c.withState { c.state with session := { session with filterAcked := sent } }, effects⟩

/-- Answer the question whether the tunnel works. -/
def verifyTunnel (answers : Answers) : Act := fun c =>
  let lte := c.state.lte
  if ! lte.isEstablished ∨ ! lte.verify then idle c
  else
    let (sent, effects) := c.send answers (tunnelVerification c.state.session)
    if sent then ⟨c.withState { c.state with lte := { lte with verify := false } }, effects⟩
    else ⟨c, effects⟩

/-- Send a hello over a link when its time has come. A hello before it that was not answered counts
as missed. The hello counts as sent even if it could not be sent. -/
def sendHello (answers : Answers) (now : Duration) (tunnel : Tunnel) : Act := fun c =>
  let l := c.state.link tunnel
  if ! l.isEstablished ∨ now.since l.helloSent < c.state.session.helloPeriod then idle c
  else
    let answered := l.helloAnswered = l.helloSent
    let missed := if answered then l.missed else l.missed + 1
    let stamp := Stamp.ofUptime now
    let effects := (c.send answers (hello c.state.session tunnel stamp)).2
    ⟨c.withState (c.state.updateLink tunnel fun l =>
        { l with missed, helloSent := stamp.toDuration }),
      (if answered then [] else [.note (.helloMissed tunnel missed)]) ++ effects⟩

/-- Give up a link on which too many hellos stayed unanswered. -/
def demoteSilentLink (tunnel : Tunnel) : Act := fun c =>
  let l := c.state.link tunnel
  if l.isEstablished ∧ c.state.session.retryLimit ≤ l.missed then
    ⟨c.withState (c.state.updateLink tunnel Link.reset), [.note (.linkDead tunnel)]⟩
  else idle c

/-- Report bypass traffic when its time has come. -/
def reportBypass (answers : Answers) (now : Duration) : Act := fun c =>
  let dsl := c.state.dsl
  if ! dsl.isEstablished ∨ now.since dsl.bypassSent ≤ c.state.session.bypassPeriod then idle c
  else
    let effects := (c.send answers (bypassTraffic c.state.session c.bypassRate)).2
    ⟨c.withState { c.state with dsl := { dsl with bypassSent := now } }, effects⟩

/-- Stop the helper of a family. -/
def killHelper (family : Dhcp.Family) : Act := fun c =>
  match c.helper family with
  | .absent => idle c
  | .idle => ⟨c, [.kill family false]⟩
  | .running => ⟨c.setHelper family .idle, [.kill family true]⟩

/-- Give up the lease of a family, and tell so. -/
def dropLease (family : Dhcp.Family) : Act := fun c =>
  match c.state.lease family with
  | none => idle c
  | some _ =>
    ⟨c.withState (c.state.setLease family none), (fire (.leaseDown family) c).effects⟩

/-- Stop the helpers and give up the leases. -/
def releaseLeases : Act :=
  sequence [killHelper .ipv4, killHelper .ipv6, dropLease .ipv4, dropLease .ipv6]

/-- Start over when no link is established. -/
def resetSession : Act := fun c =>
  if c.state.anyUp then idle c
  else releaseLeases (c.withState { c.state with session := c.state.session.reset })

/-- Create the tunnel device, and tell so. -/
def createDevice (answers : Answers) : Act := fun c =>
  let s := c.state
  let effect := Effect.create s.tunnelName s.tunnelMtu answers.create
  match answers.create with
  | none =>
    let c := c.withState { s with deviceUp := true }
    ⟨c, effect :: (fire .tunnelUp c).effects⟩
  | some reason => ⟨c, [effect, .note (.notCreated s.tunnelName reason)]⟩

/-- Destroy the tunnel device, and tell so. It counts as destroyed even if that fails. -/
def destroyDevice (answers : Answers) : Act := fun c =>
  let effects := match answers.destroy with
    | none => []
    | some reason => [.note (.notDestroyed c.state.tunnelName reason)]
  let c := c.withState { c.state with deviceUp := false }
  ⟨c, .destroy answers.destroy :: effects ++ (fire .tunnelDown c).effects⟩

/-- Have a tunnel device exactly while some link is established. -/
def updateDevice (answers : Answers) : Act := fun c =>
  if c.state.anyUp ∧ ! c.state.deviceUp then createDevice answers c
  else if ! c.state.anyUp ∧ c.state.deviceUp then destroyDevice answers c
  else idle c

/-- Whether there is a lease of a family. -/
def hasLease (s : State) (family : Dhcp.Family) : Bool := (s.lease family).isSome

/-- Take over the lease that a helper has printed, and tell so. -/
def takeLease (family : Dhcp.Family) (output : String) (now : Duration) : Act := fun c =>
  let noise := (Dhcp.Report.noise output).map fun line => .note (.helperLine line)
  match (Dhcp.Report.ofText output).lease? now family with
  | some lease =>
    let c := c.withState (c.state.setLease family (some lease))
    ⟨c, noise ++ .note (.obtained family lease) :: (fire (.leaseUp family) c).effects⟩
  | none => ⟨c, noise ++ [.note (.noLease family)]⟩

/-- Start the helper of a family when a lease is needed, or see how far it has come. -/
def pollHelper (answers : Answers) (now : Duration) (family : Dhcp.Family) : Act := fun c =>
  match c.helper family with
  | .absent => idle c
  | .idle =>
    if c.state.deviceUp ∧ ! hasLease c.state family then
      let failure := answers.start family
      let effect := Effect.start family c.state.tunnelName failure
      match failure with
      | none => ⟨c.setHelper family .running, [effect]⟩
      | some f => ⟨c, [effect, .note (.helperFailed f)]⟩
    else idle c
  | .running =>
    match answers.poll family with
    | none => ⟨c, [.poll family]⟩
    | some (.error f) => ⟨c.setHelper family .idle, [.poll family, .note (.helperFailed f)]⟩
    | some (.ok output) =>
      let o := takeLease family output now (c.setHelper family .idle)
      ⟨o.controller, .poll family :: o.effects⟩

/-- Everything in a round before the leases are looked at. -/
def acts (answers : Answers) (now : Duration) : List Act :=
  [forgetDownLinks, sendRequest answers, acknowledgeFilters answers, verifyTunnel answers,
    sendHello answers now .lte, sendHello answers now .dsl, demoteSilentLink .lte,
    demoteSilentLink .dsl, reportBypass answers now, resetSession, updateDevice answers,
    pollHelper answers now .ipv4, pollHelper answers now .ipv6]

/-! ## Leases that run out -/

/-- Give up the lease of a family when its time has passed. -/
def expireLease (now : Duration) (family : Dhcp.Family) (c : Controller) : Except Halt Outcome :=
  match c.state.lease family with
  | none => .ok (idle c)
  | some lease => do
    if ← lease.term.isExpired now then
      let o := dropLease family c
      return ⟨o.controller, .note (.expired family lease) :: o.effects⟩
    else return idle c

/-! ## The end -/

/-- Tell the server over a tunnel that the other one has failed. -/
def reportFailure (answers : Answers) (tunnel : Tunnel) : Act := fun c =>
  ⟨c, (c.send answers (linkFailure c.state.session tunnel)).2⟩

/-- Take leave of the server. There is no message for that; the failure of both links can only be
reported while both are established. -/
def takeLeave (answers : Answers) : Act := fun c =>
  if c.state.allUp then sequence [reportFailure answers .lte, reportFailure answers .dsl] c
  else if c.state.anyUp then ⟨c, [.note .sessionLingers]⟩
  else idle c

/-- Give everything up. -/
def shutdown (answers : Answers) : Act :=
  sequence [fun c => ⟨c, [.note .shuttingDown]⟩, releaseLeases,
    fun c => if c.state.deviceUp then destroyDevice answers c else idle c,
    takeLeave answers, fire .shutdown]

/-! ## Rounds -/

/-- The controller after a round, what it did, and whether it is done. -/
structure Round where
  controller : Controller
  effects : List Effect
  finished : Bool

/-- One round. It fails if the end of a lease lies beyond what the clock can show. -/
def tick (c : Controller) (answers : Answers) (now : Duration) :
    Except Halt Round := do
  let o := sequence (acts answers now) c
  let o₄ ← expireLease now .ipv4 o.controller
  let o₆ ← expireLease now .ipv6 o₄.controller
  let effects := o.effects ++ o₄.effects ++ o₆.effects
  if o₆.controller.state.stopping then
    let last := shutdown answers o₆.controller
    return ⟨last.controller, effects ++ last.effects, true⟩
  else return ⟨o₆.controller, effects, false⟩

/-- Ask for the next round to be the last. -/
def requestShutdown (c : Controller) : Controller :=
  c.withState { c.state with stopping := true }

/-- Tell that the client has started. -/
def startup : Act := fire .startup

/-! ## Packets -/

/-- Act on a control packet: what kind of message it was, if the server sent it and it was
acted on. -/
def handled? (c : Controller) (packet : Bytes) (source : IPv6) (now : Duration) : Option Kind :=
  if source ≠ c.state.session.server then none
  else (process c.state packet now).toOption.map Prod.fst

/-- The controller after a control packet. -/
def handle (c : Controller) (packet : Bytes) (source : IPv6) (now : Duration) : Controller :=
  if source ≠ c.state.session.server then c else c.withState (after c.state packet now)

/-- What is logged about a control packet. -/
def handleNotices (c : Controller) (packet : Bytes) (source : IPv6) (now : Duration) :
    List Notice :=
  if source ≠ c.state.session.server then [.strangeSource source]
  else notices c.state packet now

end Controller

end HybridAccess.Control
