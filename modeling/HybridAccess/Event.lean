/-
  HybridAccess — lifecycle events.
-/
import HybridAccess.Dhcp.Basic

namespace HybridAccess

/-- What the outside is told of. -/
inductive Event
  | startup
  | shutdown
  | tunnelUp
  | tunnelDown
  /-- A lease was obtained. -/
  | leaseUp (family : Dhcp.Family)
  /-- A lease was given up. -/
  | leaseDown (family : Dhcp.Family)
deriving DecidableEq, Repr

namespace Event

/-- An IPv4 lease was obtained. -/
@[match_pattern] abbrev leaseUp4 : Event := leaseUp .ipv4

/-- An IPv4 lease was given up. -/
@[match_pattern] abbrev leaseDown4 : Event := leaseDown .ipv4

/-- An IPv6 lease was obtained. -/
@[match_pattern] abbrev leaseUp6 : Event := leaseUp .ipv6

/-- An IPv6 lease was given up. -/
@[match_pattern] abbrev leaseDown6 : Event := leaseDown .ipv6

/-- The name of an event. -/
def name : Event → String
  | startup => "startup"
  | shutdown => "shutdown"
  | tunnelUp => "tunnelup"
  | tunnelDown => "tunneldown"
  | leaseUp4 => "dhcpup_ip"
  | leaseDown4 => "dhcpdown_ip"
  | leaseUp6 => "dhcpup_ip6"
  | leaseDown6 => "dhcpdown_ip6"

end Event

end HybridAccess
