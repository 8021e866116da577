/-
  HybridAccess — the negotiation of a lease by a program.

  The program is started, runs for a while and ends. It is polled without
  waiting; once it has ended, its end is seen and it counts as not running.
-/
import HybridAccess.Dhcp.Basic
import HybridAccess.Host.Command

namespace HybridAccess.Dhcp

/-- The negotiation of a family's lease. -/
structure Negotiation where
  family : Family
  /-- How the program will end, none while it does not run. -/
  running : Option Host.Exit
deriving DecidableEq, Repr

namespace Negotiation

/-- No program runs. -/
def idle (family : Family) : Negotiation := ⟨family, none⟩

/-- Start a program, which takes the place of one that runs. -/
def start (n : Negotiation) (files : Host.Files) (c : Host.Command) : Except Failure Negotiation :=
  match c.start files with
  | .ok program => .ok { n with running := some (program.run c.arguments) }
  | .error reason => .error (.spawn n.family reason.message)

/-- What a program that has ended leaves: what it printed, if it succeeded and printed text. -/
def result (family : Family) (e : Host.Exit) : Except Failure String :=
  if ! e.isSuccess then .error (.exit family e.text)
  else
    match Bytes.toText? e.output with
    | some text => .ok text
    | none => .error (.output family Host.Failure.notText.message)

/-- Wait for the end of the program, if it runs. -/
def wait (n : Negotiation) : Option (Except Failure String) × Negotiation :=
  (n.running.map (result n.family), idle n.family)

/-- Stop the program. -/
def kill (n : Negotiation) : Negotiation := idle n.family

end Negotiation

end HybridAccess.Dhcp
