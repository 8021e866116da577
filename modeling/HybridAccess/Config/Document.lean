/-
  HybridAccess — the configuration as a TOML document.

  `Config.toToml` writes a configuration: the single values in a fixed order,
  those that are not given left out, then a table for the reorder policy and a
  table for the leases. `Config.ofToml` reads a document.
-/
import HybridAccess.Config.Reading
import HybridAccess.Toml.Document

namespace HybridAccess

namespace Toml

/-- The form of a truth value. -/
def ofBool (b : Bool) : List Char := (if b then "true" else "false").toList

/-- The form of a number. -/
def ofNat (n : Nat) : List Char := Text.decimal n

/-- The form of a text. -/
def ofText (s : String) : List Char := Toml.Text.write s.toList

/-- The form of a duration, which is the text of its span. -/
def ofDuration (d : Duration) : List Char := ofText d.span

/-- The line that gives a value to a name. -/
def pairLine (name : String) (value : List Char) : List Char :=
  name.toList ++ " = ".toList ++ value ++ ['\n']

/-- The line that gives a value to a name, nothing if there is none. -/
def optionalLine (name : String) (value : Option (List Char)) : List Char :=
  match value with
  | some v => pairLine name v
  | none => []

/-- The line that opens a table, behind an empty line. -/
def tableLine (name : String) : List Char :=
  "\n[".toList ++ name.toList ++ "]\n".toList

end Toml

namespace Reorder.Policy

/-- The lines of a policy. -/
def tomlLines : Policy → List Char
  | disabled => Toml.pairLine "mode" (Toml.ofText "disabled")
  | fixed timeout =>
    Toml.pairLine "mode" (Toml.ofText "fixed") ++
      Toml.pairLine "timeout" (Toml.ofDuration timeout)
  | adaptive cap =>
    Toml.pairLine "mode" (Toml.ofText "adaptive") ++ Toml.pairLine "cap" (Toml.ofDuration cap)

end Reorder.Policy

namespace DhcpConfig

/-- The lines of what is configured about leases. -/
def tomlLines (c : DhcpConfig) : List Char :=
  Toml.pairLine "ipv4" (Toml.ofBool c.ipv4) ++ Toml.pairLine "ipv6" (Toml.ofBool c.ipv6) ++
    Toml.pairLine "busybox_path" (Toml.ofText c.busybox)

end DhcpConfig

namespace Config

/-- The lines of the single values. -/
def tomlLines (c : Config) : List Char :=
  Toml.pairLine "haap_anycast_ip" (Toml.ofText c.anycast.toText) ++
    Toml.pairLine "lte_interface" (Toml.ofText c.lteInterface) ++
    Toml.pairLine "dsl_interface" (Toml.ofText c.dslInterface) ++
    Toml.pairLine "bonding" (Toml.ofBool c.bonding) ++
    Toml.pairLine "tunnel_interface_name" (Toml.ofText c.tunnelName) ++
    Toml.optionalLine "tunnel_interface_mtu" (c.tunnelMtu.map fun m => Toml.ofNat m.toNat) ++
    Toml.pairLine "active_hello_interval" (Toml.ofNat c.helloInterval.toNat) ++
    Toml.pairLine "hello_retry_times" (Toml.ofNat c.helloRetries.toNat) ++
    Toml.pairLine "client_identification" (Toml.ofText c.identification) ++
    Toml.optionalLine "event_script_path" (c.eventScript.map Toml.ofText) ++
    Toml.pairLine "log_level" (Toml.ofText c.logLevel) ++
    Toml.pairLine "bypass_traffic_rate_kbit" (Toml.ofNat c.bypassRate.toNat) ++
    Toml.pairLine "tick_interval" (Toml.ofDuration c.tickInterval)

/-- All texts of a configuration that are written as they are. -/
def texts (c : Config) : List String :=
  [c.lteInterface, c.dslInterface, c.tunnelName, c.identification] ++ c.eventScript.toList ++
    [c.logLevel, c.dhcp.busybox]

/-- The document of a configuration. -/
def document (c : Config) : String :=
  String.ofList (c.tomlLines ++ Toml.tableLine "reorder" ++ c.reorder.tomlLines ++
    Toml.tableLine "dhcp" ++ c.dhcp.tomlLines)

/-- Write a configuration. A run of quotes that cannot be counted is the only obstacle. -/
def toToml (c : Config) : Except Halt String :=
  if c.texts.all fun s => Toml.Text.isCountable s.toList then .ok c.document
  else .error .counter

/-- Read a configuration. -/
def ofToml (text : String) : Except ReadFault Config :=
  (ReadFault.orMalformed (Toml.Document.read? text)).bind (ofValue false)

end Config

end HybridAccess
