/-
  HybridAccess — the two tunnels of a bonded connection.

  One tunnel runs over the cellular link and one over the broadband link. On
  the wire a tunnel is a number of four bits, zero or eight.
-/

namespace HybridAccess

/-- The tunnel over one of the two access links. -/
inductive Tunnel
  /-- Over the cellular link, which comes up first. -/
  | lte
  /-- Over the broadband link. -/
  | dsl
deriving DecidableEq, Repr

namespace Tunnel

/-- Both tunnels, in the order in which they are served. -/
def all : List Tunnel := [lte, dsl]

/-- The number of a tunnel on the wire. -/
def nibble : Tunnel → Nat
  | lte => 0
  | dsl => 8

/-- The tunnel with a number. -/
def ofNibble? : Nat → Option Tunnel
  | 0 => some lte
  | 8 => some dsl
  | _ => none

/-- The other tunnel. -/
def peer : Tunnel → Tunnel
  | lte => dsl
  | dsl => lte

/-- The name of a tunnel. -/
def name : Tunnel → String
  | lte => "LTE"
  | dsl => "DSL"

theorem ofNibble?_eq_some_iff {n : Nat} {t : Tunnel} : ofNibble? n = some t ↔ n = t.nibble := by
  constructor
  · intro h
    unfold ofNibble? at h
    split at h <;> simp at h <;> subst h <;> rfl
  · rintro rfl
    cases t <;> rfl

theorem exists_ofNibble?_iff {n : Nat} : (∃ t, ofNibble? n = some t) ↔ n = 0 ∨ n = 8 := by
  constructor
  · rintro ⟨t, ht⟩
    rw [ofNibble?_eq_some_iff.1 ht]
    cases t <;> decide
  · rintro (rfl | rfl) <;> exact ⟨_, rfl⟩

end Tunnel

end HybridAccess
