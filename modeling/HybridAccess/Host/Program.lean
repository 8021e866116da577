/-
  HybridAccess — what programs do.

  Of a few small programs it is known what they do with the arguments of the
  program that negotiates leases; they stand for it where it is not there.
-/
import HybridAccess.Bytes

namespace HybridAccess.Host

/-- A program of which it is known what it does. -/
inductive Program
  /-- Prints its arguments. -/
  | echo
  /-- Does nothing and succeeds. -/
  | succeed
  /-- Does nothing, or complains about its arguments, and fails. -/
  | fail (status : Nat)
deriving DecidableEq, Repr

/-- How a program ended, and what it printed. -/
structure Exit where
  status : Nat
  output : Bytes
deriving DecidableEq, Repr

namespace Exit

/-- Whether the program succeeded. -/
def isSuccess (e : Exit) : Bool := e.status = 0

/-- The text about the end of a program. -/
def text (e : Exit) : String := s!"exit status: {e.status}"

end Exit

/-- What a program does. One that fails prints nothing that matters. -/
def Program.run (p : Program) (arguments : List String) : Exit :=
  match p with
  | echo => ⟨0, Bytes.ofText (" ".intercalate arguments ++ "\n")⟩
  | succeed => ⟨0, []⟩
  | fail status => ⟨status, []⟩

end HybridAccess.Host
