/-
  HybridAccess — the configuration as a value.

  `Config.ofValue` reads a configuration. Every field may be missing and then
  has its default, and fields with other names are ignored; but a field that
  is there must have a value of its kind. Durations are spans, addresses and
  paths are texts. Fields are read in the order in which they stand, and the
  first one that cannot be read decides why.
-/
import HybridAccess.Config.Basic
import HybridAccess.Duration.Span
import HybridAccess.Value

namespace HybridAccess

open ReadFault (orMalformed)

/-! ## Kinds of fields -/

namespace Value

/-- A truth value. -/
def asBoolean (v : Value) : Except ReadFault Bool := orMalformed v.boolean?

/-- A text. -/
def asText (v : Value) : Except ReadFault String := orMalformed v.text?

/-- A word of sixteen bits. -/
def asWord16? (v : Value) : Option UInt16 := (v.natural? UInt16.size).map UInt16.ofNat

/-- A word of thirty-two bits. -/
def asWord32 (v : Value) : Except ReadFault UInt32 :=
  orMalformed ((v.natural? UInt32.size).map UInt32.ofNat)

/-- An address. -/
def asAddress (v : Value) : Except ReadFault IPv6 := orMalformed (v.text?.bind IPv6.ofText?)

/-- A duration. -/
def asDuration (v : Value) : Except ReadFault Duration := v.asText.bind Duration.ofSpan

end Value

/-! ## Waiting times -/

namespace Reorder.Policy

/-- Read the duration of a policy from a record in which it is the only field. -/
def durationField (name : String) (rest : Value) : Except ReadFault Duration := do
  let found : Option Duration ← rest.record [name] true
    (fun found key v => if key = name then v.asDuration.map some else .ok found) none
  orMalformed found

/-- A policy, given its mode and the value that holds the rest. -/
def ofMode (mode : String) (rest : Value) : Except ReadFault Policy :=
  if mode = "disabled" then rest.record [] true (fun p _ _ => .ok p) disabled
  else if mode = "fixed" then (durationField "timeout" rest).map fixed
  else if mode = "adaptive" then (durationField "cap" rest).map adaptive
  else .error .malformed

/-- Read a policy: a table with its mode, or a list with its mode in front. -/
def ofValue : Value → Except ReadFault Policy
  | .table entries => do
    ofMode (← (← orMalformed (entries.lookup "mode")).asText) (.table entries)
  | .list (mode :: rest) => do ofMode (← mode.asText) (.list rest)
  | _ => .error .malformed

end Reorder.Policy

/-! ## Records -/

namespace DhcpConfig

/-- The names of the fields, in order. -/
def names : List String := ["ipv4", "ipv6", "busybox_path"]

/-- Change a field. -/
def set (c : DhcpConfig) (name : String) (v : Value) : Except ReadFault DhcpConfig :=
  match name with
  | "ipv4" => return { c with ipv4 := ← v.asBoolean }
  | "ipv6" => return { c with ipv6 := ← v.asBoolean }
  | "busybox_path" => return { c with busybox := ← v.asText }
  | _ => return c

/-- Read what is configured about leases. -/
def ofValue (exact : Bool) : Value → Except ReadFault DhcpConfig :=
  Value.record names exact set default

end DhcpConfig

namespace Config

/-- The names of the fields, in order. -/
def names : List String :=
  ["haap_anycast_ip", "lte_interface", "dsl_interface", "bonding", "tunnel_interface_name",
    "tunnel_interface_mtu", "active_hello_interval", "hello_retry_times", "client_identification",
    "event_script_path", "log_level", "bypass_traffic_rate_kbit", "tick_interval", "reorder", "dhcp"]

/-- Change a field. -/
def set (exact : Bool) (c : Config) (name : String) (v : Value) : Except ReadFault Config :=
  match name with
  | "haap_anycast_ip" => return { c with anycast := ← v.asAddress }
  | "lte_interface" => return { c with lteInterface := ← v.asText }
  | "dsl_interface" => return { c with dslInterface := ← v.asText }
  | "bonding" => return { c with bonding := ← v.asBoolean }
  | "tunnel_interface_name" => return { c with tunnelName := ← v.asText }
  | "tunnel_interface_mtu" =>
    return { c with tunnelMtu := ← orMalformed (v.optional? Value.asWord16?) }
  | "active_hello_interval" => return { c with helloInterval := ← v.asWord32 }
  | "hello_retry_times" => return { c with helloRetries := ← v.asWord32 }
  | "client_identification" => return { c with identification := ← v.asText }
  | "event_script_path" =>
    return { c with eventScript := ← orMalformed (v.optional? Value.text?) }
  | "log_level" => return { c with logLevel := ← v.asText }
  | "bypass_traffic_rate_kbit" => return { c with bypassRate := ← v.asWord32 }
  | "tick_interval" => return { c with tickInterval := ← v.asDuration }
  | "reorder" => return { c with reorder := ← Reorder.Policy.ofValue v }
  | "dhcp" => return { c with dhcp := ← DhcpConfig.ofValue exact v }
  | _ => return c

/-- Read a configuration. Of a record that is written as a list, `exact` says whether surplus values
are refused. -/
def ofValue (exact : Bool) : Value → Except ReadFault Config :=
  Value.record names exact (set exact) default

end Config

end HybridAccess
