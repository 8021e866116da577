/-
  HybridAccess — the time stamp of hello messages.

  A stamp holds the sender's uptime as whole seconds and milliseconds, four
  bytes each. The receiver sends it back unchanged, which tells the sender how
  long the message travelled.
-/
import HybridAccess.Bytes
import HybridAccess.Duration.Basic

namespace HybridAccess.Message

/-- An uptime in seconds and milliseconds. -/
structure Stamp where
  seconds : UInt32
  milliseconds : UInt32
deriving DecidableEq, Repr

namespace Stamp

/-- The stamp of an uptime; parts of a millisecond are dropped, and the seconds are taken modulo
2^32. -/
def ofUptime (now : Duration) : Stamp :=
  ⟨UInt32.ofNat now.seconds, UInt32.ofNat now.subsecMillis⟩

/-- The uptime that a stamp stands for. -/
def toDuration (s : Stamp) : Duration :=
  ⟨s.seconds.toNat * Duration.second + s.milliseconds.toNat * 1000000⟩

/-- The eight bytes of a stamp. -/
def encode (s : Stamp) : Bytes :=
  Bytes.be32 s.seconds ++ Bytes.be32 s.milliseconds

/-- The stamp at the front of a byte string. -/
def decode? : Bytes → Option Stamp
  | a :: b :: c :: d :: e :: f :: g :: h :: _ =>
    some ⟨Bytes.word32 a b c d, Bytes.word32 e f g h⟩
  | _ => none

theorem decode?_encode (s : Stamp) : decode? s.encode = some s := by
  simp [decode?, encode, Bytes.be32, Bytes.word32_be32]

end Stamp

end HybridAccess.Message
