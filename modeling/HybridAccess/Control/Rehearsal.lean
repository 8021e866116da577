/-
  HybridAccess — a controller without an outside.

  A rehearsal answers in place of the sockets, the tunnel device and the
  programs that negotiate leases. Calls fail when they are told to; a program
  behaves as its script says, run after run, the last run over and over.
-/
import HybridAccess.Control.Controller

namespace HybridAccess.Control

/-- One run of a program that negotiates leases. -/
structure HelperRun where
  /-- Whether the program cannot be started. -/
  startFails : Bool
  /-- How often the program is found still running. -/
  polls : Nat
  /-- What the program prints; none if that cannot be read. -/
  output : Option String
deriving DecidableEq, Repr

/-- A program that behaves as its runs say. -/
structure HelperScript where
  runs : List HelperRun
  /-- How often the program was started, successfully or not. -/
  starts : Nat
  /-- How often the current run will still be found running. -/
  pollsLeft : Nat
deriving DecidableEq, Repr

namespace HelperScript

/-- The reason that rehearsed failures give. -/
def reason : String := "simulated"

/-- A program that was not started yet. -/
def ofRuns (runs : List HelperRun) : HelperScript := ⟨runs, 0, 0⟩

/-- The run with a number, or the last one. -/
def run? (h : HelperScript) (number : Nat) : Option HelperRun :=
  h.runs[number]?.or h.runs.getLast?

/-- The answer to a start. -/
def onStart (h : HelperScript) (family : Dhcp.Family) : Option Dhcp.Failure :=
  match h.run? h.starts with
  | some run => if run.startFails then some (.spawn family reason) else none
  | none => none

/-- The answer to a poll of the run that was started last. -/
def onPoll (h : HelperScript) (family : Dhcp.Family) : Option (Except Dhcp.Failure String) :=
  if 0 < h.pollsLeft then none
  else some (match (h.run? (h.starts - 1)).bind (·.output) with
    | some output => .ok output
    | none => .error (.output family reason))

/-- The program after an effect of the controller. -/
def after (h : HelperScript) (family : Dhcp.Family) : Effect → HelperScript
  | .start f _ _ =>
    if f = family then
      { h with starts := h.starts + 1, pollsLeft := ((h.run? h.starts).map (·.polls)).getD 0 }
    else h
  | .poll f => if f = family then { h with pollsLeft := h.pollsLeft - 1 } else h
  | _ => h

end HelperScript

/-- A call that can be told to fail. -/
inductive Call
  | transmit (tunnel : Tunnel)
  | create
  | destroy
deriving DecidableEq, Repr

/-- What answers in place of the outside. -/
structure Rehearsal where
  failing : List Call
  helper4 : Option HelperScript
  helper6 : Option HelperScript
deriving DecidableEq, Repr

namespace Rehearsal

/-- The program of a family. -/
def helper (r : Rehearsal) : Dhcp.Family → Option HelperScript
  | .ipv4 => r.helper4
  | .ipv6 => r.helper6

/-- Why a call fails, if it does. -/
def failure (r : Rehearsal) (call : Call) : Option String :=
  if call ∈ r.failing then some HelperScript.reason else none

/-- The answers for one round. -/
def answers (r : Rehearsal) : Answers where
  transmit m := r.failure (.transmit m.tunnel)
  create := r.failure .create
  destroy := r.failure .destroy
  start family := (r.helper family).bind (·.onStart family)
  poll family := (r.helper family).bind (·.onPoll family)

/-- The rehearsal after the effects of a round. -/
def after (r : Rehearsal) (effects : List Effect) : Rehearsal :=
  { r with
    helper4 := r.helper4.map fun h => effects.foldl (fun h e => h.after .ipv4 e) h
    helper6 := r.helper6.map fun h => effects.foldl (fun h e => h.after .ipv6 e) h }

end Rehearsal

end HybridAccess.Control
