/-
  HybridAccess — which tunnel a packet takes.

  What a DHCP client sends to a server always takes the cellular tunnel and
  carries no sequence number, so that addresses can be negotiated before the
  broadband tunnel is up. Everything else is numbered and prefers the
  broadband tunnel.
-/
import HybridAccess.Gre.Header
import HybridAccess.Session.View

namespace HybridAccess

/-- What kind of traffic a packet belongs to. -/
inductive Traffic
  /-- From a DHCP client to a server. -/
  | dhcp
  /-- Everything else. -/
  | data
deriving DecidableEq, Repr

namespace Traffic

/-- The number of UDP in IP headers. -/
def udp : UInt8 := 17

/-- The ports of a client and a server of DHCP. -/
def dhcp4Ports : UInt16 × UInt16 := (68, 67)

/-- The ports of a client and a server of DHCPv6. -/
def dhcp6Ports : UInt16 × UInt16 := (546, 547)

/-- The source and destination port at the front of a UDP header. -/
def ports? : Bytes → Option (UInt16 × UInt16)
  | a :: b :: c :: d :: _ => some (Bytes.word16 a b, Bytes.word16 c d)
  | _ => none

/-- The ports of a UDP packet in IPv4. The header has as many words as the low half of its first
byte says. -/
def ports4? (packet : Bytes) : Option (UInt16 × UInt16) := do
  let first ← packet.head?
  let protocol ← packet[9]?
  if protocol = udp then ports? (packet.drop (first.toNat % 16 * 4)) else none

/-- The ports of a UDP packet in IPv6. -/
def ports6? (packet : Bytes) : Option (UInt16 × UInt16) := do
  let next ← packet[6]?
  if next = udp then ports? (packet.drop 40) else none

/-- The kind of traffic that a packet belongs to. -/
def classify (protocol : UInt16) (packet : Bytes) : Traffic :=
  if protocol = Gre.ipv4Protocol ∧ ports4? packet = some dhcp4Ports then dhcp
  else if protocol = Gre.ipv6Protocol ∧ ports6? packet = some dhcp6Ports then dhcp
  else data

end Traffic

/-- How a packet is sent. -/
structure Route where
  tunnel : Tunnel
  /-- Whether the packet carries a sequence number. -/
  sequenced : Bool
deriving DecidableEq, Repr

/-- The way of a packet, none if no tunnel can carry it. -/
def route? (traffic : Traffic) (view : View) : Option Route :=
  match traffic with
  | .dhcp => some ⟨.lte, false⟩
  | .data =>
    if view.dslUp then some ⟨.dsl, true⟩
    else if view.lteUp then some ⟨.lte, true⟩
    else none

/-- How many packets took each way. -/
structure RouteCounts where
  lte : Nat
  dsl : Nat
  /-- No tunnel could carry them. -/
  unroutable : Nat
deriving DecidableEq, Repr

namespace RouteCounts

/-- Nothing counted yet. -/
def zero : RouteCounts := ⟨0, 0, 0⟩

/-- Count one more packet. -/
def count (c : RouteCounts) : Option Route → RouteCounts
  | some ⟨.lte, _⟩ => { c with lte := c.lte + 1 }
  | some ⟨.dsl, _⟩ => { c with dsl := c.dsl + 1 }
  | none => { c with unroutable := c.unroutable + 1 }

end RouteCounts

end HybridAccess
