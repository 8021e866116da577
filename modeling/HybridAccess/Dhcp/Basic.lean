/-
  HybridAccess — the program that negotiates leases.

  Leases are negotiated by an applet of busybox, one for each address family.
  It runs a small script for each event, and the script prints the lease.
-/

namespace HybridAccess.Dhcp

/-- An address family that is negotiated. -/
inductive Family
  | ipv4
  | ipv6
deriving DecidableEq, Repr

namespace Family

instance (p : Family → Prop) [DecidablePred p] : Decidable (∀ family, p family) :=
  decidable_of_decidable_of_iff (p := p ipv4 ∧ p ipv6)
    ⟨fun ⟨h₄, h₆⟩ family => by cases family <;> assumption, fun h => ⟨h ipv4, h ipv6⟩⟩

/-- The applet that negotiates a family. -/
def applet : Family → String
  | ipv4 => "udhcpc"
  | ipv6 => "udhcpc6"

end Family

/-- Why negotiating fails. -/
inductive Failure
  /-- The script could not be written. -/
  | script (path reason : String)
  /-- The program could not be started. -/
  | spawn (family : Family) (reason : String)
  /-- The program ended without success. -/
  | exit (family : Family) (status : String)
  /-- What the program printed could not be read. -/
  | output (family : Family) (reason : String)
deriving DecidableEq, Repr

/-- The text of a failure. -/
def Failure.message : Failure → String
  | script path reason => "Failed to write DHCP script " ++ path ++ ": " ++ reason
  | spawn family reason => "Failed to start " ++ family.applet ++ ": " ++ reason
  | exit family status => family.applet ++ " exited with " ++ status
  | output family reason => "Failed to read " ++ family.applet ++ " output: " ++ reason

/-- The arguments of an applet: negotiate one lease on an interface in the foreground, give up if
that fails, and run a script on each event. -/
def arguments (family : Family) (script interface : String) (verbose : Bool) : List String :=
  ["-i", interface, "-s", script] ++
    (match family with
      | .ipv4 => ["-n", "-q", "-f", "-C"]
      | .ipv6 => ["-f", "-n", "-q", "-r", "no", "-d"]) ++
    if verbose then ["-v"] else []

end HybridAccess.Dhcp
