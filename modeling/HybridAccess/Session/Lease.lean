/-
  HybridAccess — leases obtained through the tunnel.

  An IPv4 lease is an address and an IPv6 lease a prefix, each for a limited
  time. A lease runs out when its time has passed; that moment may lie beyond
  what the clock can show, which `expiry` reports. `Lease` is a lease of either
  family.
-/
import HybridAccess.Address.IPv6
import HybridAccess.Dhcp.Basic
import HybridAccess.Duration.Basic

namespace HybridAccess

/-- How long something is granted, and since when. -/
structure Term where
  length : Duration
  obtained : Duration
deriving DecidableEq, Repr

namespace Term

/-- The moment when the term ends. -/
def expiry (t : Term) : Except Halt Duration :=
  t.obtained.add? t.length

/-- Whether the term has ended. -/
def isExpired (t : Term) (now : Duration) : Except Halt Bool :=
  t.expiry.map (· ≤ now)

end Term

/-- An IPv4 address for a limited time. -/
structure Lease4 where
  address : IPv4
  term : Term
deriving DecidableEq, Repr

/-- An IPv6 prefix for a limited time. -/
structure Lease6 where
  address : IPv6
  length : UInt8
  term : Term
deriving DecidableEq, Repr

/-- A lease of a family. -/
def Lease : Dhcp.Family → Type
  | .ipv4 => Lease4
  | .ipv6 => Lease6

namespace Lease

instance : (family : Dhcp.Family) → DecidableEq (Lease family)
  | .ipv4 => inferInstanceAs (DecidableEq Lease4)
  | .ipv6 => inferInstanceAs (DecidableEq Lease6)

instance : (family : Dhcp.Family) → Repr (Lease family)
  | .ipv4 => inferInstanceAs (Repr Lease4)
  | .ipv6 => inferInstanceAs (Repr Lease6)

/-- How long a lease is granted. -/
def term : {family : Dhcp.Family} → Lease family → Term
  | .ipv4, l => Lease4.term l
  | .ipv6, l => Lease6.term l

/-- What is leased: an address, or a prefix with its length. -/
def text : {family : Dhcp.Family} → Lease family → String
  | .ipv4, l => (Lease4.address l).toText
  | .ipv6, l => (Lease6.address l).toText ++ s!"/{Lease6.length l}"

end Lease

end HybridAccess
