/-
  HybridAccess — frames of the local tunnel device.

  A frame is an IP packet behind four bytes: flags, which are zero in every
  frame that is built, and the protocol number of the packet.
-/
import HybridAccess.Gre.Header

namespace HybridAccess

/-- What stands in front of the IP packet of a frame. -/
structure FrameInfo where
  flags : UInt16
  protocol : UInt16
deriving DecidableEq, Repr

namespace FrameInfo

/-- The bytes of the information. -/
def encode (info : FrameInfo) : Bytes :=
  Bytes.be16 info.flags ++ Bytes.be16 info.protocol

/-- The information at the front of a byte string. -/
def decode? : Bytes → Option FrameInfo
  | a :: b :: c :: d :: _ => some ⟨Bytes.word16 a b, Bytes.word16 c d⟩
  | _ => none

end FrameInfo

namespace Frame

/-- The length of the information. -/
def infoLength : Nat := 4

/-- The frame of an IP packet. -/
def build (protocol : UInt16) (packet : Bytes) : Bytes :=
  (FrameInfo.mk 0 protocol).encode ++ packet

/-- The protocol number and the packet of a frame. -/
def split? : Bytes → Option (UInt16 × Bytes)
  | _ :: _ :: c :: d :: packet => some (Bytes.word16 c d, packet)
  | _ => none

/-- The protocol number that the version of an IP packet implies. -/
def impliedProtocol? : Bytes → Option UInt16
  | [] => none
  | b :: _ =>
    if b.toNat / 16 = 4 then some Gre.ipv4Protocol
    else if b.toNat / 16 = 6 then some Gre.ipv6Protocol
    else none

theorem build_eq (protocol : UInt16) (packet : Bytes) :
    build protocol packet = [0, 0] ++ Bytes.be16 protocol ++ packet := by
  have hflags : Bytes.be16 0 = [0, 0] := by decide
  rw [build, FrameInfo.encode, hflags]

theorem split?_build (protocol : UInt16) (packet : Bytes) :
    split? (build protocol packet) = some (protocol, packet) := by
  simp [split?, build, FrameInfo.encode, Bytes.be16, Bytes.word16_be16]

end Frame

end HybridAccess
