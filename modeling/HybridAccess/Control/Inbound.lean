/-
  HybridAccess — what a control message of the server changes.

  `authorized` refuses packets that are no control message, and messages with a
  wrong key; only an accept may carry another key, because it brings the key.
  `apply` is the effect of an authorized message on the state, `process` does
  both, and `notices` lists what is logged on the way. Nothing is sent from
  here: what the server is owed is sent in the next round of the controller.
-/
import HybridAccess.Control.Notice
import HybridAccess.Session.State

namespace HybridAccess.Control

open Message (Attribute Kind)

/-- The message in a packet, if it may be acted on. -/
def authorized (s : State) (packet : Bytes) : Except PacketError Message := do
  let m ← Message.decode packet
  if m.key ≠ s.session.key ∧ m.kind ≠ .accept then throw (.invalidKey m.key)
  return m

/-! ## Effects on the state -/

/-- Take over one attribute of an accept. The hello values are taken over only where none is set. -/
def acceptAttribute (s : Session) (a : Attribute) : Session :=
  if a.id = Attribute.serverAddress then { s with server := a.asAddress?.getD s.server }
  else if a.id = Attribute.sessionId then { s with id := a.asWord?.getD s.id }
  else if a.id = Attribute.helloInterval then
    if s.helloInterval = 0 then { s with helloInterval := a.asWord?.getD 0 } else s
  else if a.id = Attribute.helloRetries then
    if s.helloRetries = 0 then { s with helloRetries := a.asWord?.getD 0 } else s
  else if a.id = Attribute.bondingKey then { s with key := a.asWord?.getD s.key }
  else if a.id = Attribute.bypassInterval then
    { s with bypassInterval := a.asWord?.getD s.bypassInterval }
  else s

/-- The server accepts: its values are taken over, and the link is established. -/
def applyAccept (s : State) (m : Message) (now : Duration) : State :=
  { s with session := m.attributes.foldl acceptAttribute s.session }.updateLink m.tunnel
    (·.establish now)

/-- A request was refused; the next round sends another one. -/
def denyLink (l : Link) : Link :=
  if l.status = .requesting then { l with status := .down } else l

/-- The answer to a hello: the time stamp tells when it was sent. -/
def helloAttribute (now : Duration) (l : Link) (a : Attribute) : Link :=
  if a.id = Attribute.timestamp then
    match a.asStamp? with
    | some stamp =>
      { l with roundTrip := now.since stamp.toDuration, helloAnswered := stamp.toDuration, missed := 0 }
    | none => l
  else l

/-- Take note of one attribute of a notify. -/
def notifyAttribute (s : State) (a : Attribute) : State :=
  if a.id = Attribute.filterList then
    match a.asWord? with
    | some count => { s with session := { s.session with filterCount := count, filterAcked := false } }
    | none => s
  else if a.id = Attribute.tunnelVerification then { s with lte := { s.lte with verify := true } }
  else s

/-- The server ends the session: both links go down. -/
def applyTeardown (s : State) : State :=
  { s with lte := { s.lte with status := .down }, dsl := { s.dsl with status := .down } }

/-- The effect of a message. -/
def apply (s : State) (m : Message) (now : Duration) : State :=
  match m.kind with
  | .accept => applyAccept s m now
  | .deny => s.updateLink m.tunnel denyLink
  | .hello => s.updateLink m.tunnel fun l => m.attributes.foldl (helloAttribute now) l
  | .notify => m.attributes.foldl notifyAttribute s
  | .teardown => applyTeardown s
  | .request => s

/-- Act on a packet: what kind of message it was, and the state afterwards. -/
def process (s : State) (packet : Bytes) (now : Duration) : Except PacketError (Kind × State) := do
  let m ← authorized s packet
  return (m.kind, apply s m now)

/-- The state after a packet, unchanged if the packet is refused. -/
def after (s : State) (packet : Bytes) (now : Duration) : State :=
  match process s packet now with
  | .ok (_, s') => s'
  | .error _ => s

/-! ## What is logged -/

/-- The code in a message that refuses or ends something. -/
def errorCode (m : Message) : UInt32 :=
  ((m.find? Attribute.errorCode).bind (·.asWord?)).getD 0

/-- The attributes that a kind of message may carry without being remarked on. -/
def expected : Kind → List UInt8
  | .accept =>
    [Attribute.serverAddress, Attribute.sessionId, Attribute.helloInterval, Attribute.helloRetries,
      Attribute.bondingKey, Attribute.bypassInterval, Attribute.padding]
  | .deny | .teardown => [Attribute.errorCode, Attribute.padding]
  | .hello => [Attribute.timestamp, Attribute.padding]
  | .notify =>
    [Attribute.filterList, Attribute.tunnelVerification, Attribute.bypassRate, Attribute.padding]
  | .request => []

/-- What is logged about one attribute. -/
def attributeNotices (m : Message) (now : Duration) (a : Attribute) : List Notice :=
  if a.id ∉ expected m.kind then [.unknownAttribute m.kind a.id]
  else match m.kind with
    | .accept =>
      if a.id = Attribute.serverAddress ∧ a.asAddress? = none then [.badAddress a.value.length]
      else []
    | .hello =>
      if a.id = Attribute.timestamp then
        match a.asStamp? with
        | some stamp => [.roundTrip m.tunnel (now.since stamp.toDuration)]
        | none => [.shortStamp]
      else []
    | .notify =>
      if a.id = Attribute.filterList then
        match a.asWord? with
        | some count => [.filterList count]
        | none => [.shortFilterList]
      else []
    | _ => []

/-- What is logged when a message is acted on. -/
def applyNotices (s : State) (m : Message) (now : Duration) : List Notice :=
  let attributes := m.attributes.flatMap (attributeNotices m now)
  match m.kind with
  | .accept =>
    attributes ++
      if (s.link m.tunnel).isEstablished then []
      else [.established m.tunnel (apply s m now).session.server]
  | .deny => attributes ++ [.rejected m.tunnel (errorCode m)]
  | .hello | .notify => attributes
  | .teardown => attributes ++ [.terminated (errorCode m)]
  | .request => [.requestIgnored]

/-- What is logged about a packet. -/
def notices (s : State) (packet : Bytes) (now : Duration) : List Notice :=
  match Message.read packet with
  | .error e => [.unreadable e]
  | .ok (m, left) =>
    (Attribute.complaint? left).toList.map .cutShort ++
      if m.key ≠ s.session.key ∧ m.kind ≠ .accept then [.wrongKey m.kind m.key]
      else [.received m.kind m.tunnel, .contents m.kind packet] ++ applyNotices s m now

end HybridAccess.Control
