/-
  HybridAccess — one access link and its tunnel.

  A link is down, requested or established. While it is established its hello
  messages are counted: when the last one was sent, which one was answered
  last, and how many stayed unanswered in a row.
-/
import HybridAccess.Address.IPv6
import HybridAccess.Duration.Basic
import HybridAccess.Tunnel

namespace HybridAccess

/-- How far the connection over a link has come. -/
inductive LinkStatus
  | down
  /-- A request was sent and has not been answered. -/
  | requesting
  | established
deriving DecidableEq, Repr

/-- One access link. All times are uptimes. -/
structure Link where
  tunnel : Tunnel
  /-- The name of the interface. -/
  name : String
  /-- The local end point of the tunnel. -/
  address : IPv6
  status : LinkStatus
  /-- When the last hello was sent. -/
  helloSent : Duration
  /-- When the hello was sent that was answered last. -/
  helloAnswered : Duration
  /-- How many hellos stayed unanswered in a row. -/
  missed : Nat
  roundTrip : Duration
  /-- Whether the server wants to know that the tunnel works. -/
  verify : Bool
  /-- When bypass traffic was reported last. -/
  bypassSent : Duration
deriving DecidableEq, Repr

namespace Link

/-- A link that is down. -/
def initial (tunnel : Tunnel) (name : String) : Link where
  tunnel := tunnel
  name := name
  address := .unspecified
  status := .down
  helloSent := .zero
  helloAnswered := .zero
  missed := 0
  roundTrip := .zero
  verify := false
  bypassSent := .zero

/-- Whether the connection is established. -/
def isEstablished (l : Link) : Bool := l.status == .established

/-- The link established at `now`, with no hello owed. -/
def establish (l : Link) (now : Duration) : Link :=
  { l with status := .established, missed := 0, helloSent := now, helloAnswered := now }

/-- The link down, and nothing remembered but its name and address. -/
def reset (l : Link) : Link :=
  { initial l.tunnel l.name with address := l.address }

/-- Whether nothing is remembered of a connection. -/
def isPristine (l : Link) : Bool :=
  l.helloSent == .zero && l.helloAnswered == .zero && l.missed == 0 && l.roundTrip == .zero &&
    ! l.verify && l.bypassSent == .zero

end Link

end HybridAccess
