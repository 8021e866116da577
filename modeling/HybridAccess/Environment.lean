/-
  HybridAccess — named values for programs.
-/

namespace HybridAccess

/-- Named values, in order. -/
abbrev Environment := List (String × String)

namespace Environment

/-- Set a value in a sorted environment. -/
def set (key value : String) : Environment → Environment
  | [] => [(key, value)]
  | (k, v) :: rest =>
    if key = k then (key, value) :: rest
    else if key < k then (key, value) :: (k, v) :: rest
    else (k, v) :: set key value rest

/-- An environment sorted by name. Of several values of a name the last one counts. -/
def sorted (env : Environment) : Environment :=
  env.foldl (fun acc kv => set kv.1 kv.2 acc) []

end Environment

end HybridAccess
