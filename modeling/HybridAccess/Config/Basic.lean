/-
  HybridAccess — the configuration of the client.

  `Config.default` is used for whatever is not configured. `Config.check`
  refuses what the protocol or the kernel would refuse later (`Invalid`), in a
  fixed order of the fields.
-/
import HybridAccess.Address.IPv6
import HybridAccess.Log
import HybridAccess.Reorder.Policy

namespace HybridAccess

/-- Which address families are negotiated through the tunnel, and with which program. -/
structure DhcpConfig where
  ipv4 : Bool
  ipv6 : Bool
  busybox : String
deriving DecidableEq, Repr

/-- The configuration of the client. -/
structure Config where
  /-- The address that the first request is sent to. -/
  anycast : IPv6
  /-- The cellular interface, or the address of its end point. -/
  lteInterface : String
  /-- The broadband interface, or the address of its end point. -/
  dslInterface : String
  /-- Whether the broadband tunnel is brought up too. -/
  bonding : Bool
  /-- The name of the local tunnel device. -/
  tunnelName : String
  /-- The largest packet of the tunnel device, if it is given. -/
  tunnelMtu : Option UInt16
  /-- Seconds between two hellos, zero to take the server's value. -/
  helloInterval : UInt32
  /-- Hellos that may stay unanswered, zero to take the server's value. -/
  helloRetries : UInt32
  /-- The name under which the client introduces itself. -/
  identification : String
  /-- The program that is told of events. -/
  eventScript : Option String
  /-- The word for the least important level that is logged. -/
  logLevel : String
  /-- The rate that is reported as bypass traffic, in kilobits per second. -/
  bypassRate : UInt32
  /-- The time between two rounds of the control loop. -/
  tickInterval : Duration
  reorder : Reorder.Policy
  dhcp : DhcpConfig
deriving DecidableEq, Repr

namespace DhcpConfig

/-- Both families, with the usual program. -/
def default : DhcpConfig := ⟨true, true, "/bin/busybox"⟩

end DhcpConfig

namespace Config

/-- The smallest packet size that a tunnel device may have. -/
def minMtu : Nat := 1280

/-- The largest packet size: what remains of 1500 bytes behind an IPv6 header and the longer packet
header. -/
def maxMtu : Nat := 1448

/-- What the broadband link takes away from each packet. -/
def dslOverhead : Nat := 8

/-- The length of the field that holds the client's name. -/
def identificationLength : Nat := 40

/-- The length of the longest name of a network interface. -/
def maxInterfaceName : Nat := 15

/-- The configuration that is used when none is given. -/
def default : Config where
  anycast := ⟨[0x2003, 6, 0, 0, 0, 0, 0, 1], rfl⟩
  lteInterface := "wwan0"
  dslInterface := "ppp0"
  bonding := false
  tunnelName := "hybrid0"
  tunnelMtu := none
  helloInterval := 0
  helloRetries := 0
  identification := "grecp-client"
  eventScript := none
  logLevel := "info"
  bypassRate := 10000
  tickInterval := .ofSeconds 1
  reorder := .default
  dhcp := .default

/-- The largest packet of the tunnel device. -/
def mtu (c : Config) : Nat :=
  match c.tunnelMtu with
  | some m => m.toNat
  | none => if c.bonding then maxMtu - dslOverhead else maxMtu

/-- Why a configuration is refused. -/
inductive Invalid
  | mtuOutOfRange (mtu : UInt16)
  | identificationTooLong (length : Nat)
  | interfaceNameTooLong (name : String)
  | emptyInterfaceName
  | zeroTickInterval
  | unknownLogLevel (word : String)
deriving DecidableEq, Repr

/-- The text of a refusal. -/
def Invalid.message : Invalid → String
  | mtuOutOfRange mtu => s!"Tunnel interface MTU {mtu} out of range ({minMtu}..={maxMtu})"
  | identificationTooLong length =>
    s!"Client identification is {length} bytes, maximum is {identificationLength}"
  | interfaceNameTooLong name =>
    "Interface name '" ++ name ++ s!"' is too long (maximum {maxInterfaceName} bytes)"
  | emptyInterfaceName => "Interface name must not be empty"
  | zeroTickInterval => "Tick interval must be non-zero"
  | unknownLogLevel word => "Unknown log level '" ++ word ++ "'"

/-- Refuse a packet size that is given and out of range. -/
def checkMtu : Option UInt16 → Except Invalid Unit
  | none => .ok ()
  | some m => if minMtu ≤ m.toNat ∧ m.toNat ≤ maxMtu then .ok () else .error (.mtuOutOfRange m)

/-- Refuse an empty name, and a long one that is not an address. -/
def checkName (name : String) : Except Invalid Unit :=
  if name.isEmpty then .error .emptyInterfaceName
  else if maxInterfaceName < name.utf8ByteSize ∧ IPv6.ofText? name = none then
    .error (.interfaceNameTooLong name)
  else .ok ()

/-- Refuse a configuration that cannot be used. -/
def check (c : Config) : Except Invalid Unit := do
  checkMtu c.tunnelMtu
  if identificationLength < c.identification.utf8ByteSize then
    throw (.identificationTooLong c.identification.utf8ByteSize)
  checkName c.lteInterface
  checkName c.dslInterface
  checkName c.tunnelName
  if c.tickInterval = .zero then throw .zeroTickInterval
  if Log.Level.ofWord? c.logLevel = none then throw (.unknownLogLevel c.logLevel)

end Config

end HybridAccess
