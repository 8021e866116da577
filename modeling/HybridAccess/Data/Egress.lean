/-
  HybridAccess — from the tunnel device to the links.

  `Egress.send` takes a frame of the tunnel device, chooses its way, numbers it
  and puts the packet header in front. Frames that hold no IP packet are
  ignored, and frames that no tunnel can carry are dropped.
-/
import HybridAccess.Data.Traffic
import HybridAccess.Frame
import HybridAccess.Log

namespace HybridAccess

/-- The sending half of the data plane. -/
structure Egress where
  /-- The number of the next numbered packet. -/
  next : UInt32
  counts : RouteCounts
deriving DecidableEq, Repr

namespace Egress

/-- Nothing sent yet. -/
def initial : Egress := ⟨0, .zero⟩

/-- A packet on its way. -/
structure Sent where
  tunnel : Tunnel
  packet : Bytes
deriving DecidableEq, Repr

/-- What becomes of a frame. -/
inductive Fate
  /-- Too short for a frame. -/
  | short
  /-- No IP packet. -/
  | ignored (protocol : UInt16)
  /-- No tunnel is up. -/
  | unroutable
  /-- Sent by a route, with so many bytes behind the header. -/
  | sent (route : Route) (size : Nat) (packet : Bytes)
deriving DecidableEq, Repr

/-- The packet of a frame that is sent. -/
def Fate.sent? : Fate → Option Sent
  | sent route _ packet => some ⟨route.tunnel, packet⟩
  | _ => none

/-- What is logged about a frame. -/
def Fate.entries : Fate → List Log.Entry
  | short => []
  | ignored protocol =>
    [⟨.trace, "Ignoring frame with EtherType 0x" ++ Text.hexUpper 4 protocol.toNat⟩]
  | unroutable => [⟨.error, "Sending packet failed: all tunnels are down"⟩]
  | sent route size _ =>
    [⟨.trace, s!"Sending {size} bytes via " ++ route.tunnel.name ++
      if route.sequenced then "" else " (forced)"⟩]

/-- Send a frame. -/
def send (e : Egress) (frame : Bytes) (view : View) : Fate × Egress :=
  match Frame.split? frame with
  | none => (.short, e)
  | some (protocol, packet) =>
    if ! Gre.isIP protocol then (.ignored protocol, e)
    else
      let route := route? (Traffic.classify protocol packet) view
      let counts := e.counts.count route
      match route with
      | none => (.unroutable, { e with counts })
      | some route =>
        let sequence := if route.sequenced then some e.next else none
        let header : Gre.Header := ⟨protocol, view.key, sequence⟩
        (.sent route packet.length (header.encode ++ packet),
          { next := if route.sequenced then e.next + 1 else e.next, counts })

end Egress

end HybridAccess
