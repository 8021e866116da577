/-
  HybridAccess — what the data plane sees of a session.
-/
import HybridAccess.Address.IPv6
import HybridAccess.Duration.Basic
import HybridAccess.Tunnel

namespace HybridAccess

/-- The part of the state that packets are sent and received by. -/
structure View where
  server : IPv6
  key : UInt32
  lteUp : Bool
  dslUp : Bool
  lteRoundTrip : Duration
  dslRoundTrip : Duration
deriving DecidableEq, Repr

namespace View

/-- What is seen before anything is known. -/
def default : View := ⟨.unspecified, 0, false, false, .zero, .zero⟩

/-- Whether some tunnel is established. -/
def anyUp (v : View) : Bool := v.lteUp || v.dslUp

end View

end HybridAccess
