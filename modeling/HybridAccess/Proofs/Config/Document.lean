/-
  HybridAccess — documents of configurations that are read back.

  A configuration is written as a table of single values, in which those that
  are not given are left out, with two tables behind them (`fields`, `tables`).
  The document has one line for each value (`lists_tomlLines`), and reading
  the values one after the other restores the configuration from the defaults
  (`sets_fields`).
  Main statements: `read?_document` and `ofValue_toValue`.
-/
import HybridAccess.Config.Document
import HybridAccess.Proofs.Address.Written
import HybridAccess.Proofs.Duration.Span
import HybridAccess.Proofs.Toml.Document

namespace HybridAccess

open Toml (Fields IsForm)

/-! ## Lines of fields -/

namespace Toml

/-- A name with a value. -/
def field (name : String) (v : Value) : Fields := [(name, v)]

/-- A name with a value, nothing if there is none. -/
def optionalField (name : String) : Option Value → Fields
  | some v => field name v
  | none => []

end Toml

namespace Toml.Document

/-- A text lists fields, one on a line. -/
def Lists (cs : List Char) (fields : Fields) : Prop :=
  Statement.Reads cs (assigns fields) ∧ '\r' ∉ cs

theorem assigns_append (front back : Fields) :
    assigns (front ++ back) = assigns front ++ assigns back := by
  rw [assigns, assigns, assigns, List.map_append]

namespace Lists
variable {cs ds : List Char} {front back : Fields} {name : String}

theorem append (h : Lists cs front) (h' : Lists ds back) : Lists (cs ++ ds) (front ++ back) := by
  refine ⟨?_, by simp [h.2, h'.2]⟩
  rw [assigns_append]
  exact h.1.append h'.1

theorem pairLine {form : List Char} {v : Value} (hname : Statement.IsName name)
    (hform : IsForm form v) : Lists (Toml.pairLine name form) (field name v) := by
  have hreturn : '\r' ∉ name.toList := fun h => absurd (hname.forall_mem _ h) (by decide)
  exact ⟨.pairLine hname hform, by simp [Toml.pairLine, hreturn, hform.noReturn]⟩

theorem optionalLine {α : Type} {form : α → List Char} {v : α → Value}
    (hname : Statement.IsName name) (hform : ∀ a, IsForm (form a) (v a)) (a : Option α) :
    Lists (Toml.optionalLine name (a.map form)) (optionalField name (a.map v)) := by
  cases a with
  | none => exact ⟨.nil, List.not_mem_nil⟩
  | some a => exact pairLine hname (hform a)

end Lists

end Toml.Document

open Toml (field optionalField)
open Toml.Document (Lists)

/-! ## Fields of a configuration -/

namespace Reorder.Policy

/-- The fields of a policy. -/
def fields : Policy → Fields
  | disabled => field "mode" (.text "disabled")
  | fixed timeout => field "mode" (.text "fixed") ++ field "timeout" (.text timeout.span)
  | adaptive cap => field "mode" (.text "adaptive") ++ field "cap" (.text cap.span)

theorem lists_tomlLines (p : Policy) : Lists p.tomlLines p.fields := by
  cases p with
  | disabled => exact .pairLine (by decide) (Toml.isForm_ofText _)
  | fixed timeout =>
    rw [tomlLines, fields]
    exact .append (.pairLine (by decide) (Toml.isForm_ofText _))
      (.pairLine (by decide) (Toml.isForm_ofText _))
  | adaptive cap =>
    rw [tomlLines, fields]
    exact .append (.pairLine (by decide) (Toml.isForm_ofText _))
      (.pairLine (by decide) (Toml.isForm_ofText _))

end Reorder.Policy

namespace DhcpConfig

/-- The fields of what is configured about leases. -/
def fields (c : DhcpConfig) : Fields :=
  field "ipv4" (.boolean c.ipv4) ++ field "ipv6" (.boolean c.ipv6) ++
    field "busybox_path" (.text c.busybox)

theorem lists_tomlLines (c : DhcpConfig) : Lists c.tomlLines c.fields := by
  rw [tomlLines, fields]
  refine .append (.append ?_ ?_) ?_
  · exact .pairLine (by decide) (Toml.isForm_ofBool _)
  · exact .pairLine (by decide) (Toml.isForm_ofBool _)
  · exact .pairLine (by decide) (Toml.isForm_ofText _)

end DhcpConfig

namespace Config

/-- The single values of a configuration. -/
def fields (c : Config) : Fields :=
  field "haap_anycast_ip" (.text c.anycast.toText) ++
    field "lte_interface" (.text c.lteInterface) ++
    field "dsl_interface" (.text c.dslInterface) ++
    field "bonding" (.boolean c.bonding) ++
    field "tunnel_interface_name" (.text c.tunnelName) ++
    optionalField "tunnel_interface_mtu" (c.tunnelMtu.map fun m => .integer m.toNat) ++
    field "active_hello_interval" (.integer c.helloInterval.toNat) ++
    field "hello_retry_times" (.integer c.helloRetries.toNat) ++
    field "client_identification" (.text c.identification) ++
    optionalField "event_script_path" (c.eventScript.map .text) ++
    field "log_level" (.text c.logLevel) ++
    field "bypass_traffic_rate_kbit" (.integer c.bypassRate.toNat) ++
    field "tick_interval" (.text c.tickInterval.span)

/-- The tables of a configuration. -/
def tables (c : Config) : List (String × Fields) :=
  [("reorder", c.reorder.fields), ("dhcp", c.dhcp.fields)]

/-- The value that a configuration is written as. -/
def toValue (c : Config) : Value :=
  .table (c.fields ++ c.tables.map fun p => (p.1, .table p.2))

theorem lists_tomlLines (c : Config) : Lists c.tomlLines c.fields := by
  have hword32 : ∀ n : UInt32, IsForm (Toml.ofNat n.toNat) (.integer n.toNat) := fun n =>
    Toml.isForm_ofNat (Nat.lt_of_lt_of_le n.toNat_lt (by decide))
  have hword16 : ∀ n : UInt16, IsForm (Toml.ofNat n.toNat) (.integer n.toNat) := fun n =>
    Toml.isForm_ofNat (Nat.lt_of_lt_of_le n.toNat_lt (by decide))
  unfold tomlLines fields
  repeat' refine Lists.append ?_ ?_
  · exact .pairLine (by decide) (Toml.isForm_ofText _)
  · exact .pairLine (by decide) (Toml.isForm_ofText _)
  · exact .pairLine (by decide) (Toml.isForm_ofText _)
  · exact .pairLine (by decide) (Toml.isForm_ofBool _)
  · exact .pairLine (by decide) (Toml.isForm_ofText _)
  · exact .optionalLine (by decide) hword16 _
  · exact .pairLine (by decide) (hword32 _)
  · exact .pairLine (by decide) (hword32 _)
  · exact .pairLine (by decide) (Toml.isForm_ofText _)
  · exact .optionalLine (by decide) Toml.isForm_ofText _
  · exact .pairLine (by decide) (Toml.isForm_ofText _)
  · exact .pairLine (by decide) (hword32 _)
  · exact .pairLine (by decide) (Toml.isForm_ofText _)

theorem names_nodup (c : Config) : (c.fields.map Prod.fst ++ c.tables.map Prod.fst).Nodup := by
  cases hm : c.tunnelMtu <;> cases hs : c.eventScript <;>
    simp [fields, tables, field, optionalField, hm, hs]

theorem nodup_of_mem_tables (c : Config) : ∀ p ∈ c.tables, (p.2.map Prod.fst).Nodup := by
  have hpolicy : (c.reorder.fields.map Prod.fst).Nodup := by
    cases c.reorder <;> simp [Reorder.Policy.fields, field]
  have hdhcp : (c.dhcp.fields.map Prod.fst).Nodup := by
    simp [DhcpConfig.fields, field]
  simp [tables, hpolicy, hdhcp]

/-- The characters of a document. -/
def documentChars (c : Config) : List Char :=
  c.tomlLines ++ Toml.tableLine "reorder" ++ c.reorder.tomlLines ++ Toml.tableLine "dhcp" ++
    c.dhcp.tomlLines

theorem reads_documentChars (c : Config) : Toml.Statement.Reads c.documentChars
    (Toml.Document.assigns c.fields ++ c.tables.flatMap Toml.Document.opens) := by
  have hreorder := @Toml.Statement.Reads.tableLine "reorder" (by decide)
  have hdhcp := @Toml.Statement.Reads.tableLine "dhcp" (by decide)
  have hstatements : Toml.Document.assigns c.fields ++ c.tables.flatMap Toml.Document.opens =
      Toml.Document.assigns c.fields ++ [.table ["reorder"]] ++
        Toml.Document.assigns c.reorder.fields ++ [.table ["dhcp"]] ++
          Toml.Document.assigns c.dhcp.fields := by
    simp [tables, Toml.Document.opens]
  rw [hstatements]
  exact (((c.lists_tomlLines.1.append hreorder).append c.reorder.lists_tomlLines.1).append
    hdhcp).append c.dhcp.lists_tomlLines.1

theorem return_not_mem_documentChars (c : Config) : '\r' ∉ c.documentChars := by
  have htable : '\r' ∉ Toml.tableLine "reorder" ∧ '\r' ∉ Toml.tableLine "dhcp" := by decide
  simp [documentChars, htable, c.lists_tomlLines.2, c.reorder.lists_tomlLines.2,
    c.dhcp.lists_tomlLines.2]

/-- **The document of a configuration is read as its value.** -/
theorem read?_document (c : Config) : Toml.Document.read? c.document = some c.toValue := by
  obtain ⟨cs, hcs⟩ : ∃ cs, c.documentChars = 'h' :: cs := by
    have hname : "haap_anycast_ip".toList = 'h' :: "aap_anycast_ip".toList := by decide
    simp only [documentChars, tomlLines, Toml.pairLine, hname, List.cons_append]
    exact ⟨_, rfl⟩
  have hreads := c.reads_documentChars
  have hreturn := c.return_not_mem_documentChars
  rw [document, ← documentChars]
  rw [hcs] at hreads hreturn ⊢
  exact Toml.Document.read?_of_reads hreads hreturn (by decide) c.names_nodup c.nodup_of_mem_tables

end Config

/-! ## Reading the fields -/

/-- A record is read from a table entry by entry. -/
theorem Value.record_table {α : Type} (names : List String) (exact : Bool)
    (set : α → String → Value → Except ReadFault α) (default : α) (entries : Fields) :
    record names exact set default (.table entries) =
      entries.foldlM (fun a e => set a e.1 e.2) default := by
  simp only [record, entries?, hasSurplus, ReadFault.orMalformed_some, Bool.false_eq_true,
    and_false, if_false, bind_pure]
  rfl

namespace Config

/-- Reading the fields one after the other changes a configuration into another one. -/
def Sets (c : Config) (fields : Fields) (d : Config) : Prop :=
  fields.foldlM (fun c e => c.set false e.1 e.2) c = .ok d

namespace Sets
variable {c d e : Config} {front back : Fields}

theorem append (h : Sets c front d) (h' : Sets d back e) : Sets c (front ++ back) e := by
  unfold Sets at *
  rw [List.foldlM_append, h]
  exact h'

theorem single (name : String) (v : Value) (h : c.set false name v = .ok d) :
    Sets c (field name v) d := by
  rw [Sets, field, List.foldlM_cons, h]
  rfl

/-- A field is set to what its value is read as. -/
theorem reading {α : Type} {f : Value → Except ReadFault α} {v : Value} {a : α} (name : String)
    (u : Config → α → Config) (h : f v = .ok a)
    (hset : c.set false name v = (f v).bind fun a => .ok (u c a)) :
    Sets c (field name v) (u c a) := by
  refine single name v ?_
  rw [hset, h]
  rfl

end Sets

theorem asDuration_span {d : Duration} (h : d < Duration.limit) :
    (Value.text d.span).asDuration = .ok d :=
  Duration.ofSpan_span h

theorem asAddress_toText (ip : IPv6) : (Value.text ip.toText).asAddress = .ok ip := by
  rw [Value.asAddress, Value.text?, Option.bind_some, IPv6.ofText?, IPv6.toText,
    String.toList_ofList, IPv6.ofChars?_chars]
  rfl

theorem asWord32_toNat (n : UInt32) : (Value.integer n.toNat).asWord32 = .ok n := by
  have hlt : n.toNat < UInt32.size := n.toNat_lt
  have hnatural : (Value.integer n.toNat).natural? UInt32.size = some n.toNat := if_pos hlt
  rw [Value.asWord32, hnatural, Option.map_some, UInt32.ofNat_toNat]
  rfl

theorem asWord16?_toNat (n : UInt16) : (Value.integer n.toNat).asWord16? = some n := by
  have hlt : n.toNat < UInt16.size := n.toNat_lt
  have hnatural : (Value.integer n.toNat).natural? UInt16.size = some n.toNat := if_pos hlt
  rw [Value.asWord16?, hnatural, Option.map_some, UInt16.ofNat_toNat]

/-- The single values of a configuration are read one after the other. -/
theorem sets_fields {c : Config} (h : c.tickInterval < Duration.limit) :
    Sets default c.fields { c with reorder := .default, dhcp := .default } := by
  have hmtu : ∀ {d : Config}, d.tunnelMtu = none →
      Sets d (optionalField "tunnel_interface_mtu" (c.tunnelMtu.map fun m => .integer m.toNat))
        { d with tunnelMtu := c.tunnelMtu } := by
    intro d hd
    cases c.tunnelMtu with
    | none => exact congrArg Except.ok (by rw [← hd])
    | some m =>
      refine .reading (f := fun v => ReadFault.orMalformed (v.optional? Value.asWord16?)) _
        (fun d mtu => { d with tunnelMtu := mtu }) ?_ rfl
      exact congrArg (fun o => ReadFault.orMalformed (o.map some)) (asWord16?_toNat m)
  have hscript : ∀ {d : Config}, d.eventScript = none →
      Sets d (optionalField "event_script_path" (c.eventScript.map .text))
        { d with eventScript := c.eventScript } := by
    intro d hd
    cases c.eventScript with
    | none => exact congrArg Except.ok (by rw [← hd])
    | some s => exact .single _ _ rfl
  have hanycast := Sets.reading (c := default) "haap_anycast_ip"
    (fun d ip => { d with anycast := ip }) (asAddress_toText c.anycast) rfl
  have hfront := (((hanycast.append
    (.single "lte_interface" (.text c.lteInterface) rfl)).append
    (.single "dsl_interface" (.text c.dslInterface) rfl)).append
    (.single "bonding" (.boolean c.bonding) rfl)).append
    (.single "tunnel_interface_name" (.text c.tunnelName) rfl)
  have hmiddle := ((((hfront.append (hmtu rfl)).append
    (.reading "active_hello_interval" (fun d n => { d with helloInterval := n })
      (asWord32_toNat c.helloInterval) rfl)).append
    (.reading "hello_retry_times" (fun d n => { d with helloRetries := n })
      (asWord32_toNat c.helloRetries) rfl)).append
    (.single "client_identification" (.text c.identification) rfl)).append (hscript rfl)
  exact ((hmiddle.append (.single "log_level" (.text c.logLevel) rfl)).append
    (.reading "bypass_traffic_rate_kbit" (fun d n => { d with bypassRate := n })
      (asWord32_toNat c.bypassRate) rfl)).append
    (.reading "tick_interval" (fun d t => { d with tickInterval := t }) (asDuration_span h) rfl)

end Config

/-! ## Reading the tables -/

namespace Reorder.Policy

/-- The durations of a policy are represented. -/
def IsRepresentable : Policy → Prop
  | disabled => True
  | fixed d | adaptive d => d < Duration.limit

theorem durationField_eq {name mode : String} (hname : "mode" ≠ name) {d : Duration}
    (h : d < Duration.limit) :
    durationField name (.table [("mode", .text mode), (name, .text d.span)]) = .ok d := by
  rw [durationField, Value.record_table]
  simp [hname, Config.asDuration_span h, bind, Except.bind, Except.map, pure, Except.pure]

theorem ofValue_fields {p : Policy} (h : p.IsRepresentable) :
    ofValue (.table p.fields) = .ok p := by
  cases p with
  | disabled => rfl
  | fixed timeout =>
    have hread := @durationField_eq "timeout" "fixed" (by decide) timeout h
    change (durationField "timeout" _).map fixed = _
    exact congrArg (Except.map fixed) hread
  | adaptive cap =>
    have hread := @durationField_eq "cap" "adaptive" (by decide) cap h
    change (durationField "cap" _).map adaptive = _
    exact congrArg (Except.map adaptive) hread

end Reorder.Policy

namespace DhcpConfig

theorem ofValue_fields (c : DhcpConfig) : ofValue false (.table c.fields) = .ok c := rfl

end DhcpConfig

namespace Config

/-- The durations of a configuration are represented. -/
structure IsRepresentable (c : Config) : Prop where
  tickInterval : c.tickInterval < Duration.limit
  reorder : c.reorder.IsRepresentable

/-- **A configuration is restored from its value.** -/
theorem ofValue_toValue {c : Config} (h : c.IsRepresentable) : ofValue false c.toValue = .ok c := by
  have hfields := sets_fields h.tickInterval
  have hreorder := Sets.reading "reorder" (c := { c with reorder := .default, dhcp := .default })
    (fun d p => { d with reorder := p }) (Reorder.Policy.ofValue_fields h.reorder) rfl
  have hdhcp := Sets.reading "dhcp" (c := { c with dhcp := .default })
    (fun d leases => { d with dhcp := leases }) c.dhcp.ofValue_fields rfl
  rw [ofValue, toValue, Value.record_table]
  exact hfields.append (hreorder.append hdhcp)

/-- **The document of a configuration is read as the configuration.** -/
theorem ofToml_document {c : Config} (h : c.IsRepresentable) : ofToml c.document = .ok c := by
  rw [ofToml, read?_document, ReadFault.orMalformed_some, Except.bind, ofValue_toValue h]

end Config

end HybridAccess
