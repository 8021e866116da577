/-
  HybridAccess — why a packet is refused.

  One error type for the header, the attributes and the control messages, with
  one text for each cause.
-/
import HybridAccess.Address.IPv6

namespace HybridAccess

/-- The reason why a packet is not read, not built or not acted on. -/
inductive PacketError
  /-- Fewer bytes than the part being read takes. -/
  | invalidLength (expected actual : Nat)
  /-- Flags and version are neither of the two known values, or not the one expected here. -/
  | invalidFlags (flags : UInt16)
  /-- An attribute is longer than what remains. -/
  | malformed (needed remaining : Nat)
  /-- The value of an attribute does not fit its length field. -/
  | attributeTooLarge (size : Nat)
  /-- The whole packet is longer than the largest allowed. -/
  | payloadTooLarge (size : Nat)
  /-- The packet carries another protocol than the control protocol. -/
  | notControl (protocol : UInt16)
  /-- The tunnel number is unknown. -/
  | invalidTunnel (number : Nat)
  /-- The message number is unknown. -/
  | unknownMessage (number : Nat)
  /-- The key is not the one of the session. -/
  | invalidKey (key : UInt32)
  /-- The packet comes from another address than the server's. -/
  | unexpectedSource (source : IPv6)
deriving DecidableEq, Repr

namespace PacketError

/-- The text of a reason. -/
def message : PacketError → String
  | invalidLength expected actual =>
    s!"Invalid packet length: expected at least {expected}, got {actual}"
  | invalidFlags flags => "Invalid GRE flags/version: 0x" ++ Text.hexUpper 4 flags.toNat
  | malformed needed remaining =>
    s!"Malformed attribute: needs {needed} bytes, {remaining} remaining"
  | attributeTooLarge size => s!"Attribute value too large: {size} bytes"
  | payloadTooLarge size => s!"Payload too large: {size} bytes"
  | notControl protocol => "Not a control message: protocol 0x" ++ Text.hexUpper 4 protocol.toNat
  | invalidTunnel number => s!"Invalid tunnel type: {number}"
  | unknownMessage number => s!"Unknown message type: {number}"
  | invalidKey key => "Invalid GRE key: 0x" ++ Text.hexUpper 8 key.toNat
  | unexpectedSource source => "Unexpected source address: " ++ source.toText

end PacketError

end HybridAccess
