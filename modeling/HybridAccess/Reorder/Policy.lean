/-
  HybridAccess — how long a packet may wait for the packets before it.
-/
import HybridAccess.Duration.Basic

namespace HybridAccess.Reorder

/-- How the waiting time is chosen. -/
inductive Policy
  /-- No packet waits. -/
  | disabled
  /-- Every packet waits up to the same time. -/
  | fixed (timeout : Duration)
  /-- As long as the round trips of the two links differ, and no longer than a cap. -/
  | adaptive (cap : Duration)
deriving DecidableEq, Repr

namespace Policy

/-- The cap of the policy that is used when none is configured. -/
def defaultCap : Duration := .ofMillis 100

/-- The policy that is used when none is configured. -/
def default : Policy := adaptive defaultCap

/-- The waiting time for the given round trips of the two links, none if no packet waits. -/
def timeout? (policy : Policy) (lte dsl : Duration) : Option Duration :=
  match policy with
  | disabled => none
  | fixed timeout => some timeout
  | adaptive cap => some ((lte.distance dsl).min cap)

end Policy

end HybridAccess.Reorder
