/-
  HybridAccess — what the control plane logs.

  One constructor for each kind of event; `level` and `message` say how it is
  reported.
-/
import HybridAccess.Dhcp.Basic
import HybridAccess.Log
import HybridAccess.Message.Basic
import HybridAccess.Session.Lease

namespace HybridAccess.Control

open Message (Kind)

/-- An event of the control plane. -/
inductive Notice
  /-- The attributes of a message end early. -/
  | cutShort (reason : PacketError)
  /-- A packet is no control message. -/
  | unreadable (reason : PacketError)
  /-- A message carries another key than the session's. -/
  | wrongKey (kind : Kind) (key : UInt32)
  | received (kind : Kind) (tunnel : Tunnel)
  /-- The bytes of a message received or sent. -/
  | contents (kind : Kind) (packet : Bytes)
  /-- A request arrived, which only a server answers. -/
  | requestIgnored
  | unknownAttribute (kind : Kind) (id : UInt8)
  /-- The address of the server has a wrong length. -/
  | badAddress (length : Nat)
  | established (tunnel : Tunnel) (server : IPv6)
  | rejected (tunnel : Tunnel) (code : UInt32)
  | shortStamp
  | roundTrip (tunnel : Tunnel) (time : Duration)
  | filterList (count : UInt32)
  | shortFilterList
  | terminated (code : UInt32)
  | strangeSource (source : IPv6)
  | noSocket (tunnel : Tunnel)
  | notEncoded (kind : Kind) (reason : PacketError)
  | sent (kind : Kind) (tunnel : Tunnel)
  | notSent (kind : Kind) (tunnel : Tunnel) (reason : String)
  | helloMissed (tunnel : Tunnel) (count : Nat)
  | linkDead (tunnel : Tunnel)
  | notCreated (device reason : String)
  | notDestroyed (device reason : String)
  | helperFailed (failure : Dhcp.Failure)
  /-- A line of the helper that says nothing about the lease. -/
  | helperLine (line : String)
  | obtained (family : Dhcp.Family) (lease : Lease family)
  | noLease (family : Dhcp.Family)
  | expired (family : Dhcp.Family) (lease : Lease family)
  | shuttingDown
  /-- The server learns of the end only when its own time runs out. -/
  | sessionLingers
deriving DecidableEq, Repr

namespace Notice

/-- How important an event is. -/
def level : Notice → Log.Level
  | cutShort _ | rejected .. | terminated _ | noSocket _ | notEncoded .. | notSent ..
  | linkDead _ | notCreated .. | notDestroyed .. | helperFailed _ => .error
  | unreadable _ | wrongKey .. | requestIgnored | badAddress _ | shortStamp | shortFilterList
  | helloMissed .. | noLease _ | sessionLingers => .warn
  | established .. | obtained .. | expired .. | shuttingDown => .info
  | received .. | unknownAttribute .. | roundTrip .. | filterList _ | sent ..
  | helperLine _ => .debug
  | contents .. | strangeSource _ => .trace

/-- The text of an event. -/
def message : Notice → String
  | cutShort reason => "Malformed attribute, ignoring rest of message: " ++ reason.message
  | unreadable reason => "Discarding control message: " ++ reason.message
  | wrongKey kind key =>
    "Discarding " ++ kind.name ++ " message with invalid GRE key 0x" ++ Text.hexUpper 8 key.toNat
  | received kind tunnel => "Received " ++ kind.name ++ " message for " ++ tunnel.name ++ " tunnel"
  | contents kind packet => "Contents of " ++ kind.name ++ " message: " ++ Bytes.hexSpaced packet
  | requestIgnored => "Ignoring request message sent to a client"
  | unknownAttribute kind id =>
    "Unimplemented attribute in " ++ kind.name ++ s!" message received: {id}"
  | badAddress length => s!"Ignoring HAAP address of {length} bytes"
  | established tunnel server => tunnel.name ++ " tunnel established, HAAP " ++ server.toText
  | rejected tunnel code =>
    "HAAP rejected " ++ tunnel.name ++ s!" tunnel request with error code {code}"
  | shortStamp => "Ignoring short timestamp attribute"
  | roundTrip tunnel time => "Round trip time for " ++ tunnel.name ++ ": " ++ time.short
  | filterList count => s!"Filter list commit count now {count}"
  | shortFilterList => "Ignoring short filter list package"
  | terminated code => s!"Tunnel(s) terminated by HAAP with error code {code}"
  | strangeSource source => "Ignoring control packet from unexpected source " ++ source.toText
  | noSocket tunnel => "No socket for " ++ tunnel.name ++ " tunnel"
  | notEncoded kind reason => "Encoding " ++ kind.name ++ " message failed: " ++ reason.message
  | sent kind tunnel => "Sent " ++ kind.name ++ " message on " ++ tunnel.name ++ " tunnel"
  | notSent kind tunnel reason =>
    "Sending " ++ kind.name ++ " message on " ++ tunnel.name ++ " tunnel failed: " ++ reason
  | helloMissed tunnel count =>
    "No reply to last hello on " ++ tunnel.name ++ s!" tunnel ({count} missed)"
  | linkDead tunnel =>
    "Maximum allowed number of missed hello messages reached, considering " ++ tunnel.name ++
      " tunnel dead"
  | notCreated device reason =>
    "Creating tunnel interface '" ++ device ++ "' failed: " ++ reason
  | notDestroyed device reason =>
    "Destroying tunnel interface '" ++ device ++ "' failed: " ++ reason
  | helperFailed failure => failure.message
  | helperLine line => line
  | obtained family lease =>
    "Obtained lease for " ++ lease.text ++ " via " ++ family.applet ++
      s!" ({lease.term.length.seconds}s)"
  | noLease family => family.applet ++ " exited without a usable lease"
  | expired _ lease => "Lease for " ++ lease.text ++ " expired"
  | shuttingDown => "Shutting down"
  | sessionLingers =>
    "Session stays active on the HAAP until it times out; reconnecting may fail until then"

/-- The event as it is reported. -/
def entry (n : Notice) : Log.Entry := ⟨n.level, n.message⟩

end Notice

end HybridAccess.Control
