/-
  HybridAccess — the session that both links share.

  Most of a session is assigned by the server. `Session.reset` leads back to
  the values of `Session.startup`, which keeps what the operator configured.
-/
import HybridAccess.Address.IPv6
import HybridAccess.Duration.Basic

namespace HybridAccess

/-- What both links share. -/
structure Session where
  /-- The address that a new session starts with. -/
  anycast : IPv6
  /-- The address of the server. -/
  server : IPv6
  id : UInt32
  /-- The key of every packet. -/
  key : UInt32
  /-- Seconds between two hellos, zero until known. -/
  helloInterval : UInt32
  /-- Hellos that may stay unanswered, zero until known. -/
  helloRetries : UInt32
  /-- Seconds between two reports of bypass traffic. -/
  bypassInterval : UInt32
  /-- The number of the last list of filters, zero if there was none. -/
  filterCount : UInt32
  /-- Whether that list was acknowledged. -/
  filterAcked : Bool
  configuredInterval : UInt32
  configuredRetries : UInt32
deriving DecidableEq, Repr

namespace Session

/-- Seconds between two hellos when nobody sets them. -/
def defaultHelloInterval : Nat := 5

/-- Hellos that may stay unanswered when nobody sets them. -/
def defaultHelloRetries : Nat := 3

/-- The session before the server has answered. -/
def startup (anycast : IPv6) (interval retries : UInt32) : Session where
  anycast := anycast
  server := anycast
  id := 0
  key := 0
  helloInterval := interval
  helloRetries := retries
  bypassInterval := 0
  filterCount := 0
  filterAcked := false
  configuredInterval := interval
  configuredRetries := retries

/-- The session as it was before the server answered. -/
def reset (s : Session) : Session :=
  startup s.anycast s.configuredInterval s.configuredRetries

/-- The time between two hellos, never zero. -/
def helloPeriod (s : Session) : Duration :=
  .ofSeconds (if s.helloInterval = 0 then defaultHelloInterval else s.helloInterval.toNat)

/-- How many unanswered hellos end a connection, never zero. -/
def retryLimit (s : Session) : Nat :=
  if s.helloRetries = 0 then defaultHelloRetries else s.helloRetries.toNat

/-- The time between two reports of bypass traffic. -/
def bypassPeriod (s : Session) : Duration := .ofSeconds s.bypassInterval.toNat

theorem retryLimit_pos (s : Session) : 0 < s.retryLimit := by
  unfold retryLimit
  split
  · decide
  · next h => exact Nat.pos_of_ne_zero fun h0 => h (UInt32.toNat_inj.1 h0)

theorem one_le_helloPeriod (s : Session) : .ofSeconds 1 ≤ s.helloPeriod := by
  have hpos : 1 ≤ if s.helloInterval = 0 then defaultHelloInterval else s.helloInterval.toNat := by
    split
    · decide
    · next h => exact Nat.pos_of_ne_zero fun h0 => h (UInt32.toNat_inj.1 h0)
  simp only [Duration.le_def, helloPeriod, Duration.ofSeconds, Duration.second]
  omega

end Session

end HybridAccess
