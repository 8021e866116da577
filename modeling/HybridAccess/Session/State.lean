/-
  HybridAccess — everything the client knows while it runs.
-/
import HybridAccess.Config.Basic
import HybridAccess.Environment
import HybridAccess.Session.Basic
import HybridAccess.Session.Lease
import HybridAccess.Session.Link
import HybridAccess.Session.View

namespace HybridAccess

/-- Everything the client knows while it runs. -/
structure State where
  lte : Link
  dsl : Link
  session : Session
  bonding : Bool
  tunnelName : String
  tunnelMtu : Nat
  /-- Whether the tunnel device exists. -/
  deviceUp : Bool
  lease4 : Option Lease4
  lease6 : Option Lease6
  /-- Whether the next round is the last one. -/
  stopping : Bool
deriving DecidableEq, Repr

namespace State

/-- The state at the start. -/
def ofConfig (c : Config) : State where
  lte := .initial .lte c.lteInterface
  dsl := .initial .dsl c.dslInterface
  session := .startup c.anycast c.helloInterval c.helloRetries
  bonding := c.bonding
  tunnelName := c.tunnelName
  tunnelMtu := c.mtu
  deviceUp := false
  lease4 := none
  lease6 := none
  stopping := false

/-- The link of a tunnel. -/
def link (s : State) : Tunnel → Link
  | .lte => s.lte
  | .dsl => s.dsl

/-- Change the link of a tunnel. -/
def updateLink (s : State) (t : Tunnel) (f : Link → Link) : State :=
  match t with
  | .lte => { s with lte := f s.lte }
  | .dsl => { s with dsl := f s.dsl }

/-- The lease of a family. -/
def lease (s : State) : (family : Dhcp.Family) → Option (Lease family)
  | .ipv4 => s.lease4
  | .ipv6 => s.lease6

/-- Change the lease of a family. -/
def setLease (s : State) : (family : Dhcp.Family) → Option (Lease family) → State
  | .ipv4, l => { s with lease4 := l }
  | .ipv6, l => { s with lease6 := l }

section
variable (s : State) {family other : Dhcp.Family} (l : Option (Lease family))

@[simp] theorem lease_setLease_self : (s.setLease family l).lease family = l := by
  cases family <;> rfl

@[simp] theorem lease_setLease_of_ne (h : other ≠ family) :
    (s.setLease family l).lease other = s.lease other := by
  cases family <;> cases other <;> first | rfl | exact absurd rfl h

@[simp] theorem setLease_lease (family : Dhcp.Family) :
    s.setLease family (s.lease family) = s := by cases family <;> rfl

/-- What holds of the new lease and of all other ones holds of every lease. -/
theorem forall_setLease {P : (family : Dhcp.Family) → Option (Lease family) → Prop}
    (hself : P family l) (hother : ∀ other, P other (s.lease other)) (other : Dhcp.Family) :
    P other ((s.setLease family l).lease other) := by
  by_cases h : other = family
  · subst h
    rw [lease_setLease_self]
    exact hself
  · rw [lease_setLease_of_ne s l h]
    exact hother other

@[simp] theorem deviceUp_setLease : (s.setLease family l).deviceUp = s.deviceUp := by
  cases family <;> rfl

@[simp] theorem session_setLease : (s.setLease family l).session = s.session := by
  cases family <;> rfl

@[simp] theorem link_setLease (t : Tunnel) : (s.setLease family l).link t = s.link t := by
  cases family <;> cases t <;> rfl

end

/-- Whether some link is established. -/
def anyUp (s : State) : Bool := s.lte.isEstablished || s.dsl.isEstablished

/-- Whether both links are established. -/
def allUp (s : State) : Bool := s.lte.isEstablished && s.dsl.isEstablished

/-- What the data plane sees. -/
def view (s : State) : View where
  server := s.session.server
  key := s.session.key
  lteUp := s.lte.isEstablished
  dslUp := s.dsl.isEstablished
  lteRoundTrip := s.lte.roundTrip
  dslRoundTrip := s.dsl.roundTrip

/-- The values about an IPv4 lease. -/
def environment4 : Option Lease4 → Environment
  | none => [("dhcp_ip", IPv4.unspecified.toText), ("dhcp_lease_time", "0")]
  | some l => [("dhcp_ip", l.address.toText), ("dhcp_lease_time", toString l.term.length.seconds)]

/-- The values about an IPv6 lease. -/
def environment6 : Option Lease6 → Environment
  | none =>
    [("dhcp6_prefix_address", IPv6.unspecified.toText), ("dhcp6_prefix_length", "0"),
      ("dhcp6_lease_time", "0")]
  | some l =>
    [("dhcp6_prefix_address", l.address.toText), ("dhcp6_prefix_length", toString l.length.toNat),
      ("dhcp6_lease_time", toString l.term.length.seconds)]

/-- The values that belong to an event. -/
def environment (s : State) : Environment :=
  [("lte_interface_name", s.lte.name)] ++
    (if s.bonding then [("dsl_interface_name", s.dsl.name)] else []) ++
    [("tunnel_interface_name", s.tunnelName), ("tunnel_interface_mtu", toString s.tunnelMtu)] ++
    environment4 s.lease4 ++ environment6 s.lease6

end State

end HybridAccess
