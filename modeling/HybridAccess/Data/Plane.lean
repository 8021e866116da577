/-
  HybridAccess — which plane a received packet belongs to.

  Only packets of the server are looked at. Its control messages have a
  protocol number of their own; all other packets are data.
-/
import HybridAccess.Gre.Header
import HybridAccess.Log

namespace HybridAccess

/-- What a packet is received for. -/
inductive Plane
  | control
  | data
deriving DecidableEq, Repr

/-- The plane of a packet, none if it is not the server's or too short to tell. -/
def Plane.of? (packet : Bytes) (source server : IPv6) : Option Plane :=
  if source ≠ server then none
  else (Gre.peekProtocol packet).map fun p => if p = Gre.controlProtocol then control else data

/-- What is logged about a packet that is not the server's. -/
def Plane.entries (source server : IPv6) : List Log.Entry :=
  if source ≠ server then [⟨.trace, "Ignoring packet from unexpected source " ++ source.toText⟩]
  else []

end HybridAccess
