/-
  HybridAccess — which configurations are accepted, and which can be used.

  `Config.check` is a sequence of checks, and the first one that fails hides
  the others; what passes all of them is said by one lemma for each check. The
  three names are checked in the same way, as names or addresses
  (`IsInterface`), but one of them names a device that is made and is never an
  address (`IsDeviceName`). Main statement: `accepted_iff_usable_iff`, that
  this is the only way in which a configuration is accepted that cannot be
  used.
-/
import HybridAccess.Config.Basic

namespace HybridAccess.Config

/-- The name of a network device. -/
def IsDeviceName (name : String) : Prop :=
  1 ≤ name.utf8ByteSize ∧ name.utf8ByteSize ≤ 15

/-- A literal address. -/
def IsAddress (name : String) : Prop :=
  ∃ ip, IPv6.ofText? name = some ip

/-- An interface, given by its name or by the address of its end point. -/
def IsInterface (name : String) : Prop :=
  IsDeviceName name ∨ IsAddress name

/-- Everything but the name of the tunnel device can be used. -/
structure Sound (c : Config) : Prop where
  mtu : ∀ m, c.tunnelMtu = some m → 1280 ≤ m.toNat ∧ m.toNat ≤ 1448
  identification : c.identification.utf8ByteSize ≤ 40
  lte : IsInterface c.lteInterface
  dsl : IsInterface c.dslInterface
  tick : c.tickInterval ≠ .zero
  level : c.logLevel ∈ ["error", "warn", "info", "debug", "trace"]

/-- A configuration that the protocol and the kernel will take. -/
def Usable (c : Config) : Prop :=
  c.Sound ∧ IsDeviceName c.tunnelName

/-! ## One check after the other -/

section
variable {first : Except Invalid Unit} {next : Unit → Except Invalid Unit}

theorem bind_eq_ok_iff : (first >>= next) = .ok () ↔ first = .ok () ∧ next () = .ok () := by
  cases first <;> simp [bind, Except.bind]

theorem refuse_eq_ok_iff {p : Prop} [Decidable p] {reason : Invalid} :
    (if p then throw reason >>= next else next ()) = .ok () ↔ ¬ p ∧ next () = .ok () := by
  by_cases h : p
  · simp [h, throw, throwThe, MonadExceptOf.throw, bind, Except.bind]
  · simp [h]

theorem refuse_last_eq_ok_iff {p : Prop} [Decidable p] {reason : Invalid} :
    (if p then throw reason else pure ()) = (.ok () : Except Invalid Unit) ↔ ¬ p := by
  by_cases h : p
  · simp [h, throw, throwThe, MonadExceptOf.throw]
  · simp [h, pure, Except.pure]

end

theorem checkMtu_eq_ok_iff {mtu : Option UInt16} :
    checkMtu mtu = .ok () ↔ ∀ m, mtu = some m → 1280 ≤ m.toNat ∧ m.toNat ≤ 1448 := by
  cases mtu with
  | none => simp [checkMtu]
  | some m =>
    rw [checkMtu]
    split
    · next h => simpa [minMtu, maxMtu] using h
    · next h => simpa [minMtu, maxMtu] using h

theorem not_isAddress_empty : ¬ IsAddress "" := by
  rintro ⟨ip, h⟩
  cases h

theorem checkName_eq_ok_iff {name : String} : checkName name = .ok () ↔ IsInterface name := by
  have haddress : IPv6.ofText? name = none ↔ ¬ IsAddress name := by
    simp [IsAddress, Option.eq_none_iff_forall_ne_some]
  have hmax : maxInterfaceName = 15 := rfl
  unfold checkName
  constructor
  · intro h
    split at h
    · cases h
    · next hempty =>
      rw [String.isEmpty_iff, ← String.utf8ByteSize_eq_zero_iff] at hempty
      split at h
      · cases h
      · next hname =>
        by_cases hlong : maxInterfaceName < name.utf8ByteSize
        · exact .inr (Classical.not_not.1 fun h => hname ⟨hlong, haddress.2 h⟩)
        · exact .inl ⟨by omega, by omega⟩
  · intro h
    have hempty : ¬ name.isEmpty := by
      rw [String.isEmpty_iff]
      rintro rfl
      rcases h with h | h
      · exact absurd h.1 (by decide)
      · exact not_isAddress_empty h
    rw [if_neg hempty, if_neg]
    rintro ⟨hlong, hnone⟩
    rcases h with h | h
    · exact absurd h.2 (by omega)
    · exact haddress.1 hnone h

theorem ofWord?_eq_none_iff {word : String} :
    Log.Level.ofWord? word = none ↔ word ∉ ["error", "warn", "info", "debug", "trace"] := by
  have hwords : ["error", "warn", "info", "debug", "trace"] =
    Log.Level.all.map Log.Level.word := rfl
  rw [hwords, Log.Level.ofWord?, List.find?_eq_none]
  simp

/-- What passes all checks, none of which the others hide. -/
theorem check_eq_ok_iff {c : Config} : c.check = .ok () ↔ c.Sound ∧ IsInterface c.tunnelName := by
  unfold check
  simp only [bind_eq_ok_iff, refuse_eq_ok_iff, checkMtu_eq_ok_iff, checkName_eq_ok_iff,
    refuse_last_eq_ok_iff, ofWord?_eq_none_iff, Classical.not_not, identificationLength, Nat.not_lt]
  constructor
  · rintro ⟨hmtu, hidentification, hlte, hdsl, htunnel, htick, hlevel⟩
    exact ⟨⟨hmtu, hidentification, hlte, hdsl, htick, hlevel⟩, htunnel⟩
  · rintro ⟨⟨hmtu, hidentification, hlte, hdsl, htick, hlevel⟩, htunnel⟩
    exact ⟨hmtu, hidentification, hlte, hdsl, htunnel, htick, hlevel⟩

/-- The size of the packets is in range if it is taken from a sound configuration. -/
theorem Sound.mtu_bounds {c : Config} (h : c.Sound) : 1280 ≤ c.mtu ∧ c.mtu ≤ 1448 := by
  unfold Config.mtu
  cases hm : c.tunnelMtu with
  | some m => exact h.mtu m hm
  | none => cases c.bonding <;> decide

/-- **Every usable configuration is accepted, what is accepted has a packet size in range, and a
configuration that cannot be used is accepted just if nothing is wrong with it but that its tunnel
device is named by an address, which is too long for a name.** -/
theorem accepted_iff_usable_iff (c : Config) :
    (c.Usable → c.check = .ok ()) ∧
    (c.check = .ok () → 1280 ≤ c.mtu ∧ c.mtu ≤ 1448) ∧
    ((c.check = .ok () ↔ c.Usable) ↔
      ¬ (c.Sound ∧ IsAddress c.tunnelName ∧ 15 < c.tunnelName.utf8ByteSize)) := by
  rw [check_eq_ok_iff]
  refine ⟨fun ⟨hsound, hname⟩ => ⟨hsound, .inl hname⟩, fun h => h.1.mtu_bounds, ?_, ?_⟩
  · rintro h ⟨hsound, haddress, hlong⟩
    have hname := (h.1 ⟨hsound, .inr haddress⟩).2
    exact absurd hname.2 (Nat.not_le_of_lt hlong)
  · intro h
    refine ⟨fun ⟨hsound, hname⟩ => ⟨hsound, ?_⟩, fun ⟨hsound, hname⟩ => ⟨hsound, .inl hname⟩⟩
    rcases hname with hname | haddress
    · exact hname
    · have hempty : c.tunnelName.utf8ByteSize ≠ 0 := by
        rw [Ne, String.utf8ByteSize_eq_zero_iff]
        intro hempty
        exact not_isAddress_empty (hempty ▸ haddress)
      exact ⟨Nat.one_le_iff_ne_zero.2 hempty,
        Nat.le_of_not_lt fun hlong => h ⟨hsound, haddress, hlong⟩⟩

/-- The tunnel device named by an address. -/
def namedByAddress : Config :=
  { default with tunnelName := "2001:db8:1234:5678::1" }

/-- An address is accepted as the name of the tunnel device. -/
theorem namedByAddress_accepted : namedByAddress.check = .ok () ∧ ¬ namedByAddress.Usable := by
  refine ⟨rfl, fun h => ?_⟩
  exact absurd h.2.2 (by decide)

end HybridAccess.Config
