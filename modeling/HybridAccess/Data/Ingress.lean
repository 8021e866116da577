/-
  HybridAccess — from the links to the tunnel device.

  `Ingress.receive` takes a packet of a link. Packets without a known header,
  with another key than the session's or with no IP inside are dropped
  (`Verdict`). The others become frames, which leave at once or, if they are
  numbered and packets may wait, through the reorder buffer. `Ingress.tick`
  lets packets leave that have waited long enough. Each packet is counted
  once, when its fate is known.
-/
import HybridAccess.Frame
import HybridAccess.Log
import HybridAccess.Reorder.Buffer
import HybridAccess.Reorder.Policy
import HybridAccess.Session.View

namespace HybridAccess

namespace Ingress

/-- How many packets met each fate. -/
structure Counts where
  delivered : Nat
  malformed : Nat
  wrongKey : Nat
  unsupported : Nat
  late : Nat
  duplicate : Nat
  overflow : Nat
deriving DecidableEq, Repr

/-- Nothing counted yet. -/
def Counts.zero : Counts := ⟨0, 0, 0, 0, 0, 0, 0⟩

/-- Count a packet that the reorder buffer refused. -/
def Counts.refuse (c : Counts) : Reorder.Refusal → Counts
  | .duplicate _ => { c with duplicate := c.duplicate + 1 }
  | .late _ _ => { c with late := c.late + 1 }
  | .full => { c with overflow := c.overflow + 1 }

/-- What a packet is found to be. -/
inductive Verdict
  /-- The header is unknown. -/
  | malformed (reason : PacketError)
  /-- The key is not the session's. -/
  | wrongKey (key : UInt32)
  /-- The packet is not IP. -/
  | unsupported (protocol : UInt16)
  /-- A frame for the tunnel device, and its number if it has one. -/
  | frame (sequence : Option UInt32) (frame : Bytes)
deriving DecidableEq, Repr

/-- Look at a packet. -/
def judge (packet : Bytes) (key : UInt32) : Verdict :=
  match Gre.Header.decode packet with
  | .error e => .malformed e
  | .ok (header, body) =>
    if header.key ≠ key then .wrongKey header.key
    else if ! Gre.isIP header.protocol then .unsupported header.protocol
    else .frame header.sequence (Frame.build header.protocol body)

/-- What is logged about a packet that is dropped at once. -/
def Verdict.entries : Verdict → List Log.Entry
  | malformed e => [⟨.warn, "Discarding data packet: " ++ e.message⟩]
  | wrongKey key =>
    [⟨.trace, "Discarding data packet with key 0x" ++ Text.hexUpper 8 key.toNat⟩]
  | unsupported protocol =>
    [⟨.trace, "Discarding data packet with protocol 0x" ++ Text.hexUpper 4 protocol.toNat⟩]
  | frame _ _ => []

/-- What is logged about a packet that the reorder buffer refused. -/
def refusalEntries (sequence : UInt32) (r : Reorder.Refusal) : List Log.Entry :=
  (match r with
    | .full => [⟨.warn, s!"Reorder buffer full, dropping packet {sequence}"⟩]
    | _ => []) ++ [⟨.trace, "Reorder buffer: " ++ r.message⟩]

end Ingress

/-- What is logged about a step of the reorder buffer. -/
def Reorder.Step.entry {α : Type} : Reorder.Step α → Log.Entry
  | .skipped expected lowest =>
    ⟨.trace, s!"Reorder buffer: skipping from {expected} to {lowest}"⟩
  | .released p => ⟨.trace, s!"Reorder buffer: flushed packet {p.sequence}"⟩
  | .discarded sequence => ⟨.trace, s!"Reorder buffer: discarded late packet {sequence}"⟩

/-- The receiving half of the data plane. -/
structure Ingress where
  policy : Reorder.Policy
  buffer : Reorder.Buffer Bytes
  counts : Ingress.Counts
deriving DecidableEq, Repr

namespace Ingress

/-- Nothing received yet. -/
def initial (policy : Reorder.Policy) : Ingress :=
  ⟨policy, .empty Reorder.defaultCapacity, .zero⟩

/-- The frames that leave, what is logged, and what remains. -/
structure Outcome where
  frames : List Bytes
  entries : List Log.Entry
  ingress : Ingress
deriving DecidableEq, Repr

/-- How long packets may wait. -/
def timeout? (i : Ingress) (view : View) : Option Duration :=
  i.policy.timeout? view.lteRoundTrip view.dslRoundTrip

/-- Let packets leave the reorder buffer. -/
def release (i : Ingress) (now timeout : Duration) : Outcome :=
  let r := i.buffer.retrieve now timeout
  let frames := r.released.map (·.payload)
  ⟨frames, r.steps.map (·.entry),
    { i with
      buffer := r.buffer
      counts := { i.counts with delivered := i.counts.delivered + frames.length } }⟩

/-- Put a numbered frame into the reorder buffer, and let packets leave. -/
def reorder (i : Ingress) (sequence : UInt32) (frame : Bytes) (now timeout : Duration) : Outcome :=
  match i.buffer.insert sequence frame now with
  | .ok buffer => { i with buffer }.release now timeout
  | .error r =>
    let o := { i with counts := i.counts.refuse r }.release now timeout
    { o with entries := refusalEntries sequence r ++ o.entries }

/-- Act on what a packet is found to be. -/
def accept (i : Ingress) (verdict : Verdict) (timeout : Option Duration) (now : Duration) :
    Outcome :=
  let c := i.counts
  match verdict, timeout with
  | .malformed _, _ =>
    ⟨[], verdict.entries, { i with counts := { c with malformed := c.malformed + 1 } }⟩
  | .wrongKey _, _ =>
    ⟨[], verdict.entries, { i with counts := { c with wrongKey := c.wrongKey + 1 } }⟩
  | .unsupported _, _ =>
    ⟨[], verdict.entries, { i with counts := { c with unsupported := c.unsupported + 1 } }⟩
  | .frame (some sequence) frame, some timeout => i.reorder sequence frame now timeout
  | .frame _ frame, _ =>
    ⟨[frame], [], { i with counts := { c with delivered := c.delivered + 1 } }⟩

/-- Take a packet that arrives at `now`. -/
def receive (i : Ingress) (packet : Bytes) (view : View) (now : Duration) : Outcome :=
  i.accept (judge packet view.key) (i.timeout? view) now

/-- Let packets leave that have waited long enough. -/
def tick (i : Ingress) (view : View) (now : Duration) : Outcome :=
  match i.timeout? view with
  | some timeout => if i.buffer.waiting.isEmpty then ⟨[], [], i⟩ else i.release now timeout
  | none => ⟨[], [], i⟩

/-- Forget the packets that wait; what was counted stays. -/
def reset (i : Ingress) : Ingress := { i with buffer := i.buffer.reset }

end Ingress

end HybridAccess
