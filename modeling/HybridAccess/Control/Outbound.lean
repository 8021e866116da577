/-
  HybridAccess — the control messages that the client sends.

  Every message carries the key of the session and ends with padding.
-/
import HybridAccess.Config.Basic
import HybridAccess.Message.Basic
import HybridAccess.Session.Basic

namespace HybridAccess.Control

open Message (Attribute Kind Stamp)

/-- A message with the key of the session. -/
def outbound (s : Session) (kind : Kind) (tunnel : Tunnel) (attributes : List Attribute) : Message :=
  ⟨kind, tunnel, s.key, attributes ++ [Attribute.pad]⟩

/-- A byte string cut or filled up with zeros to a length. -/
def fitted (length : Nat) (bytes : Bytes) : Bytes :=
  bytes.take length ++ List.replicate (length - bytes.length) 0

@[simp] theorem length_fitted (length : Nat) (bytes : Bytes) :
    (fitted length bytes).length = length := by
  simp only [fitted, List.length_append, List.length_take, List.length_replicate]
  omega

/-- Ask for a connection. Only the request for the cellular tunnel says who asks; the session is
named once it is known. -/
def request (s : Session) (tunnel : Tunnel) (identification : Bytes) : Message :=
  outbound s .request tunnel
    ((if tunnel = .lte then
        [⟨Attribute.clientName, fitted Config.identificationLength identification⟩] else []) ++
      if s.id = 0 then [] else [.ofWord Attribute.sessionId s.id])

/-- Ask whether the server is still there. -/
def hello (s : Session) (tunnel : Tunnel) (stamp : Stamp) : Message :=
  outbound s .hello tunnel [⟨Attribute.timestamp, stamp.encode⟩]

/-- The code of a list of filters that was taken over. -/
def filterListOk : UInt8 := 2

/-- Acknowledge the last list of filters. -/
def filterListAck (s : Session) : Message :=
  outbound s .notify .lte [⟨Attribute.filterListAck, Bytes.be32 s.filterCount ++ [filterListOk]⟩]

/-- Tell that the tunnel works. -/
def tunnelVerification (s : Session) : Message :=
  outbound s .notify .lte [.flag Attribute.tunnelVerification]

/-- Tell over a tunnel that the other one has failed. -/
def linkFailure (s : Session) (tunnel : Tunnel) : Message :=
  outbound s .notify tunnel
    [.flag (match tunnel with
      | .lte => Attribute.dslFailure
      | .dsl => Attribute.lteFailure)]

/-- Report the rate of the traffic that bypasses the tunnels. -/
def bypassTraffic (s : Session) (rate : UInt32) : Message :=
  outbound s .notify .dsl [.ofWord Attribute.bypassRate rate]

end HybridAccess.Control
