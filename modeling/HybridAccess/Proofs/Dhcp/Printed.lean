/-
  HybridAccess — leases that the script has printed.

  The script is two branches, one for each address family, and a branch is
  the lines that it prints (`lines_eq_rendered`). What it prints reaches the
  reader among other lines, with blanks around it and with line ends of either
  kind (`Among`); none of this adds an entry or takes one away
  (`entries_of_among`).
  Main statement: `report_by_lines`.
-/
import HybridAccess.Dhcp.Script
import HybridAccess.Proofs.Address.Written
import HybridAccess.Proofs.Dhcp.Report
import Mathlib.Data.List.Basic

namespace HybridAccess.Dhcp

/-! ## The script -/

namespace Script

/-- A variable that the negotiating program sets for the script. -/
inductive Variable
  | ip
  | lease
  | delegation
  | delegationLease
deriving DecidableEq

/-- The name of a variable. -/
def Variable.name : Variable → String
  | ip => "ip"
  | lease => "lease"
  | delegation => "ipv6prefix"
  | delegationLease => "ipv6prefix_lease"

/-- What is printed of the value of a variable. -/
inductive Part
  | whole
  | beforeLastSlash
  | behindFirstSlash

/-- How a part is asked for behind the name of a variable. -/
def Part.suffix : Part → String
  | whole => ""
  | beforeLastSlash => "%/*"
  | behindFirstSlash => "#*/"

/-- The part of a value; all of it if it has no slash. -/
def Part.of : Part → List Char → List Char
  | whole, value => value
  | beforeLastSlash, value =>
    match Text.cut? '/' value.reverse with
    | some (_, front) => front.reverse
    | none => value
  | behindFirstSlash, value =>
    match Text.cut? '/' value with
    | some (_, back) => back
    | none => value

/-- A line that is printed. -/
structure Echo where
  key : Report.Key
  source : Variable
  part : Part

/-- The lines that are printed if a variable is not empty. -/
structure Branch where
  tested : Variable
  echoes : List Echo

/-- The branches of the script; the first one whose variable is not empty is taken. -/
def branches : List Branch :=
  [⟨.ip, [⟨.address, .ip, .whole⟩, ⟨.seconds, .lease, .whole⟩]⟩,
    ⟨.delegation, [⟨.prefixAddress, .delegation, .beforeLastSlash⟩,
      ⟨.prefixLength, .delegation, .behindFirstSlash⟩, ⟨.seconds, .delegationLease, .whole⟩]⟩]

/-- The line of the script that prints a line. -/
def Echo.line (e : Echo) : String :=
  "        echo \"" ++ String.ofList e.key.spelling ++ "=$\x7b" ++ e.source.name ++ e.part.suffix ++
    "\x7d\""

/-- The lines of the script that are a branch. -/
def Branch.lines (keyword : String) (b : Branch) : List String :=
  ["    " ++ keyword ++ " [ -n \"$\x7b" ++ b.tested.name ++ "\x7d\" ]", "    then"] ++
    b.echoes.map Echo.line

/-- The lines of a script that takes one of several branches on an event. -/
def rendered (event : String) : List Branch → List String
  | [] => []
  | b :: bs =>
    ["#!/bin/busybox sh", "if [ \"$\x7b1\x7d\" = \"" ++ event ++ "\" ]", "then"] ++
      b.lines "if" ++ bs.flatMap (Branch.lines "elif") ++ ["    fi", "fi"]

/-- What the script prints on an event. -/
def printed (event : String) (environment : Variable → List Char) : List (List Char) :=
  if event = "bound" then
    match branches.find? fun b => environment b.tested ≠ [] with
    | some b => b.echoes.map fun e => e.key.spelling ++ '=' :: e.part.of (environment e.source)
    | none => []
  else []

/-- The script is its branches. -/
theorem lines_eq_rendered : lines = rendered "bound" branches := by
  decide

variable {environment : Variable → List Char}

theorem printed_ipv4 (h : environment .ip ≠ []) : printed "bound" environment =
    [Report.Key.address.spelling ++ '=' :: environment .ip,
      Report.Key.seconds.spelling ++ '=' :: environment .lease] := by
  rw [printed, if_pos rfl, branches, List.find?_cons_of_pos (by simpa using h)]
  rfl

theorem printed_ipv6 {front back : List Char} (hip : environment .ip = [])
    (h : environment .delegation = front ++ '/' :: back) (hfront : '/' ∉ front)
    (hback : '/' ∉ back) : printed "bound" environment =
      [Report.Key.prefixAddress.spelling ++ '=' :: front,
        Report.Key.prefixLength.spelling ++ '=' :: back,
        Report.Key.seconds.spelling ++ '=' :: environment .delegationLease] := by
  have hfirst : Part.behindFirstSlash.of (environment .delegation) = back := by
    rw [Part.of, Text.cut?_eq_some_iff.2 ⟨h, hfront⟩]
  have hlast : Part.beforeLastSlash.of (environment .delegation) = front := by
    have hreverse : (environment .delegation).reverse = back.reverse ++ '/' :: front.reverse := by
      simp [h]
    rw [Part.of, Text.cut?_eq_some_iff.2 ⟨hreverse, by simpa using hback⟩]
    exact List.reverse_reverse front
  have hne : environment .delegation ≠ [] := by simp [h]
  rw [printed, if_pos rfl, branches, List.find?_cons_of_neg (by simpa using hip),
    List.find?_cons_of_pos (by simpa using hne)]
  simp only [List.map_cons, List.map_nil, hfirst, hlast]
  rfl

end Script

/-! ## Lines among noise -/

namespace Report

/-- How a line ends before the rest of a text: with a line feed, with a carriage return and a line
feed, or with the text. -/
inductive IsEnding : List Char → List Char → Prop
  | lineFeed (rest : List Char) : IsEnding ['\n'] rest
  | returnLineFeed (rest : List Char) : IsEnding ['\r', '\n'] rest
  | text : IsEnding [] []

/-- The text has some lines in their order, each with blanks around it, and noise before, between
and behind them. -/
inductive Among : List (List Char) → List Char → Prop
  | done : Among [] []
  | noise {lines : List (List Char)} {line ending rest : List Char} (hfeed : '\n' ∉ line)
      (hnoise : IsNoise line) (hend : IsEnding ending rest) (h : Among lines rest) :
      Among lines (line ++ ending ++ rest)
  | next {line : List Char} {lines : List (List Char)} {left right ending rest : List Char}
      (hleft : ∀ c ∈ left, Text.isBlank c ∧ c ≠ '\n')
      (hright : ∀ c ∈ right, Text.isBlank c ∧ c ≠ '\n')
      (hend : IsEnding ending rest) (h : Among lines rest) :
      Among (line :: lines) (left ++ line ++ right ++ ending ++ rest)

theorem entryOf?_congr {line other : List Char} (h : Text.trim line = Text.trim other) :
    entryOf? line = entryOf? other := by
  rw [entryOf?, h, entryOf?]

theorem entries_of_ending {line ending rest : List Char} (h : '\n' ∉ line)
    (hend : IsEnding ending rest) :
    entries (line ++ ending ++ rest) = (entryOf? line).toList ++ entries rest := by
  cases hend with
  | lineFeed =>
    rw [List.append_assoc, List.singleton_append, entries_append, entries_of_not_mem h]
  | returnLineFeed =>
    have hline : line ++ ['\r', '\n'] ++ rest = (line ++ ['\r']) ++ '\n' :: rest := by simp
    have hfeed : '\n' ∉ line ++ ['\r'] := by simpa using h
    have htrim := @Text.trim_append_right line ['\r'] (List.forall_mem_singleton.2 (by decide))
    rw [hline, entries_append, entries_of_not_mem hfeed, entryOf?_congr htrim]
  | text =>
    rw [List.append_nil, List.append_nil, entries_of_not_mem h]
    exact (List.append_nil _).symm

/-- **Noise, blanks and line ends do not change the entries.** -/
theorem entries_of_among {lines : List (List Char)} {text : List Char} (h : Among lines text)
    (hfeed : ∀ line ∈ lines, '\n' ∉ line) : entries text = lines.filterMap entryOf? := by
  induction h with
  | done => rfl
  | noise hline hnoise hend _ ih =>
    rw [entries_of_ending hline hend, entryOf?_eq_none_iff.2 hnoise, ih hfeed]
    rfl
  | @next line lines left right ending rest hleft hright hend _ ih =>
    rw [List.forall_mem_cons] at hfeed
    have hwhole : '\n' ∉ left ++ line ++ right := by
      simp only [List.mem_append, not_or]
      exact ⟨⟨fun hc => (hleft _ hc).2 rfl, hfeed.1⟩, fun hc => (hright _ hc).2 rfl⟩
    have htrim : Text.trim (left ++ line ++ right) = Text.trim line := by
      rw [Text.trim_append_right fun c hc => (hright c hc).1,
        Text.trim_append_left fun c hc => (hleft c hc).1]
    rw [entries_of_ending hwhole hend, entryOf?_congr htrim, ih hfeed.2]
    cases hentry : entryOf? line <;> simp [hentry]

/-! ## Leases -/

/-- A line with a key and a value without blanks. -/
theorem entryOf?_line {key : Key} {value : List Char} (h : ∀ c ∈ value, ¬ Text.isBlank c) :
    entryOf? (key.spelling ++ '=' :: value) = some (key, value) := by
  have hspelling : ¬ (key.spelling ++ ['=']).any Text.isBlank := by cases key <;> decide
  rw [entryOf?_eq_some_iff, Gives, Text.trim_of_not_blank]
  intro c hc
  rw [← List.singleton_append, ← List.append_assoc, List.mem_append] at hc
  rcases hc with hc | hc
  · exact fun hblank => hspelling (List.any_eq_true.2 ⟨c, hc, hblank⟩)
  · exact h c hc

/-- The report that consists of some lines with values without blanks among noise. -/
theorem ofText_of_among {values : List (Key × List Char)} {text : String}
    (h : Among (values.map fun e => e.1.spelling ++ '=' :: e.2) text.toList)
    (hblank : ∀ e ∈ values, ∀ c ∈ e.2, ¬ Text.isBlank c) :
    ofText text = values.foldl (fun r e => r.set e.1 e.2) empty := by
  have hfeed : ∀ line ∈ values.map (fun e => e.1.spelling ++ '=' :: e.2), '\n' ∉ line := by
    intro line hline
    obtain ⟨⟨key, value⟩, hmem, rfl⟩ := List.mem_map.1 hline
    have hspelling : '\n' ∉ key.spelling := by cases key <;> decide
    have hvalue : '\n' ∉ value := fun hc => hblank _ hmem _ hc (by decide)
    simp [hspelling, hvalue]
  have hentries : values.filterMap (fun e => entryOf? (e.1.spelling ++ '=' :: e.2)) = values := by
    rw [List.filterMap_congr fun e he => entryOf?_line (hblank e he)]
    exact List.filterMap_some
  rw [ofText, ofChars_eq, entries_of_among h hfeed, List.filterMap_map]
  exact congrArg (List.foldl _ _) hentries

theorem read?_seconds (n : UInt32) : Key.read? .seconds (Text.decimal n.toNat) = some n := by
  have hlt : n.toNat < UInt32.size := n.toNat_lt
  rw [Key.read?, Text.unsigned?_decimal hlt, Option.map_some, UInt32.ofNat_toNat]

theorem read?_prefixLength (n : UInt8) :
    Key.read? .prefixLength (Text.decimal n.toNat) = some n := by
  have hlt : n.toNat < UInt8.size := n.toNat_lt
  rw [Key.read?, Text.unsigned?_decimal hlt, Option.map_some, UInt8.ofNat_toNat]

theorem not_isBlank_decimal (n : Nat) : ∀ c ∈ Text.decimal n, ¬ Text.isBlank c :=
  Text.forall_mem_toDigits (by decide) (by decide) n

section
variable {r : Report} {n : UInt32} (obtained : Duration)

theorem length?_of_field (hs : r.field .seconds = some n) (hn : n ≠ 0) :
    r.length? = some (.ofSeconds n.toNat) := by
  have hs : r.seconds = some n := hs
  simp [length?, hs, hn]

theorem lease4?_of_fields {ip : IPv4} (hs : r.field .seconds = some n) (hn : n ≠ 0)
    (ha : r.field .address = some ip) :
    r.lease4? obtained = some ⟨ip, ⟨.ofSeconds n.toNat, obtained⟩⟩ := by
  have ha : r.address = some ip := ha
  simp [lease4?, length?_of_field hs hn, ha]

theorem lease6?_of_fields {ip : IPv6} {length : UInt8} (hs : r.field .seconds = some n)
    (hn : n ≠ 0) (ha : r.field .prefixAddress = some ip)
    (hl : r.field .prefixLength = some length) :
    r.lease6? obtained = some ⟨ip, length, ⟨.ofSeconds n.toNat, obtained⟩⟩ := by
  have ha : r.prefixAddress = some ip := ha
  have hl : r.prefixLength = some length := hl
  simp [lease6?, length?_of_field hs hn, ha, hl]

/-- Without a time there is no lease. -/
theorem lease_eq_none (h : r.field .seconds = none ∨ r.field .seconds = some 0) :
    r.lease4? obtained = none ∧ r.lease6? obtained = none := by
  have hlength : r.length? = none := by
    have h : r.seconds = none ∨ r.seconds = some 0 := h
    rcases h with h | h <;> simp [length?, h]
  simp [lease4?, lease6?, hlength]

end

section
variable {environment : Script.Variable → List Char} {n : UInt32} {text : String}

/-- **An IPv4 lease that was printed is obtained.** -/
theorem lease4?_of_among {ip : IPv4} (hn : n ≠ 0) (hip : environment .ip = ip.chars)
    (hlease : environment .lease = Text.decimal n.toNat)
    (h : Among (Script.printed "bound" environment) text.toList) (obtained : Duration) :
    (ofText text).lease4? obtained = some ⟨ip, ⟨.ofSeconds n.toNat, obtained⟩⟩ := by
  have hne : environment .ip ≠ [] := by
    rw [hip]
    exact IPv4.chars_ne_nil ip
  rw [Script.printed_ipv4 hne, hip, hlease] at h
  have hblank : ∀ c ∈ ip.chars, ¬ Text.isBlank c :=
    IPv4.forall_mem_chars (by decide) (by decide) ip
  have hreport : ofText text = [(Key.address, ip.chars), (.seconds, Text.decimal n.toNat)].foldl
      (fun r e => r.set e.1 e.2) empty := by
    refine ofText_of_among h ?_
    simp only [List.forall_mem_cons]
    exact ⟨hblank, not_isBlank_decimal _, List.forall_mem_nil _⟩
  refine lease4?_of_fields obtained ?_ hn ?_
  · rw [hreport]
    exact read?_seconds n
  · rw [hreport]
    exact IPv4.ofChars?_chars ip

/-- **An IPv6 lease that was printed is obtained.** -/
theorem lease6?_of_among {ip : IPv6} {length : UInt8} (hn : n ≠ 0)
    (hempty : environment .ip = [])
    (hdelegation : environment .delegation = ip.chars ++ '/' :: Text.decimal length.toNat)
    (hlease : environment .delegationLease = Text.decimal n.toNat)
    (h : Among (Script.printed "bound" environment) text.toList) (obtained : Duration) :
    (ofText text).lease6? obtained = some ⟨ip, length, ⟨.ofSeconds n.toNat, obtained⟩⟩ := by
  have hslash : '/' ∉ ip.chars := fun hc =>
    IPv6.forall_mem_chars (p := (· ≠ '/')) (by decide) (by decide) (by decide) ip _ hc rfl
  rw [Script.printed_ipv6 hempty hdelegation hslash (Text.not_mem_decimal (by decide) _),
    hlease] at h
  have hblank : ∀ c ∈ ip.chars, ¬ Text.isBlank c :=
    IPv6.forall_mem_chars (by decide) (by decide) (by decide) ip
  have hreport : ofText text = [(Key.prefixAddress, ip.chars),
      (.prefixLength, Text.decimal length.toNat), (.seconds, Text.decimal n.toNat)].foldl
      (fun r e => r.set e.1 e.2) empty := by
    refine ofText_of_among h ?_
    simp only [List.forall_mem_cons]
    exact ⟨hblank, not_isBlank_decimal _, not_isBlank_decimal _, List.forall_mem_nil _⟩
  refine lease6?_of_fields obtained ?_ hn ?_ ?_
  · rw [hreport]
    exact read?_seconds n
  · rw [hreport]
    exact IPv6.ofChars?_chars ip
  · rw [hreport]
    exact read?_prefixLength length

end

theorem lease_eq_none_of_seconds {text : String} (obtained : Duration)
    (h : ¬ Mentions text .seconds ∨ ∃ value, Settles text .seconds value ∧
      ∀ n, Text.unsigned? 10 UInt32.size value = some n → n = 0) :
    (ofText text).lease4? obtained = none ∧ (ofText text).lease6? obtained = none := by
  refine lease_eq_none obtained ?_
  rcases h with h | ⟨value, hvalue, hn⟩
  · exact .inl (field_of_not_mentions h)
  · rw [field_of_settles hvalue, Key.read?]
    cases hread : Text.unsigned? 10 UInt32.size value with
    | none => exact .inl rfl
    | some n => exact .inr (by rw [hn n hread]; rfl)

/-- **A report is read line by line.** Of two texts with a line feed between them, the later one
decides about the keys that it has; the last line of a key decides, also if its value cannot be
read; noise is not seen. So a lease that the script has printed is obtained, whatever noise is
around its lines and however they end, and there is none without a time that can be read and is
not zero. -/
theorem report_by_lines :
    (∀ (front back : String) (key : Key),
      (Mentions back key →
        (ofText (front ++ "\n" ++ back)).field key = (ofText back).field key) ∧
      (¬ Mentions back key →
        (ofText (front ++ "\n" ++ back)).field key = (ofText front).field key)) ∧
    (∀ (text : String) (key : Key) (value : List Char), Settles text key value →
      (ofText text).field key = key.read? value) ∧
    (∀ front line back : String, '\n' ∉ line.toList → IsNoise line.toList →
      ofText (front ++ "\n" ++ line ++ "\n" ++ back) = ofText (front ++ "\n" ++ back) ∧
      ofText (line ++ "\n" ++ back) = ofText back ∧
      ofText (front ++ "\n" ++ line) = ofText front ∧ ofText line = empty) ∧
    (∀ (ip : IPv4) (n : UInt32) (environment : Script.Variable → List Char) (text : String)
      (obtained : Duration), n ≠ 0 → environment .ip = ip.chars →
      environment .lease = Text.decimal n.toNat →
      Among (Script.printed "bound" environment) text.toList →
      (ofText text).lease4? obtained = some ⟨ip, ⟨.ofSeconds n.toNat, obtained⟩⟩) ∧
    (∀ (ip : IPv6) (length : UInt8) (n : UInt32) (environment : Script.Variable → List Char)
      (text : String) (obtained : Duration), n ≠ 0 → environment .ip = [] →
      environment .delegation = ip.chars ++ '/' :: Text.decimal length.toNat →
      environment .delegationLease = Text.decimal n.toNat →
      Among (Script.printed "bound" environment) text.toList →
      (ofText text).lease6? obtained = some ⟨ip, length, ⟨.ofSeconds n.toNat, obtained⟩⟩) ∧
    (∀ (text : String) (obtained : Duration),
      (¬ Mentions text .seconds ∨ ∃ value, Settles text .seconds value ∧
        ∀ n, Text.unsigned? 10 UInt32.size value = some n → n = 0) →
      (ofText text).lease4? obtained = none ∧ (ofText text).lease6? obtained = none) := by
  refine ⟨fun front back key => ⟨field_append_of_mentions, field_append_of_not_mentions⟩,
    fun text key value => field_of_settles,
    fun front line back hfeed hn => ofText_noise hfeed hn front back, ?_, ?_, ?_⟩
  · intro ip n environment text obtained hn hip hlease h
    exact lease4?_of_among hn hip hlease h obtained
  · intro ip length n environment text obtained hn hempty hdelegation hlease h
    exact lease6?_of_among hn hempty hdelegation hlease h obtained
  · intro text obtained h
    exact lease_eq_none_of_seconds obtained h

/-- Leases among what the negotiating program says, a later line that takes an address back, and a
time of zero. -/
theorem report_by_lines_chatter :
    (ofText "udhcpc: started\r\n\tip=100.64.1.2 \r\nlease=3600").lease4? (.ofSeconds 5) =
      some ⟨⟨100, 64, 1, 2⟩, ⟨.ofSeconds 3600, .ofSeconds 5⟩⟩ ∧
    (ofText "prefix_address=::\nprefix_length=56\nlease=60\nudhcpc6: done").lease6? .zero =
      some ⟨.unspecified, 56, ⟨.ofSeconds 60, .zero⟩⟩ ∧
    (ofText ("ip=100.64.1.2" ++ "\n" ++ "ip=")).field .address = none ∧
    (ofText ("ip=100.64.1.2" ++ "\n" ++ "lease=60")).field .address = some ⟨100, 64, 1, 2⟩ ∧
    ofText ("ip=100.64.1.2" ++ "\n" ++ "lease 60" ++ "\n" ++ "lease=5") =
      ofText ("ip=100.64.1.2" ++ "\n" ++ "lease=5") ∧
    (ofText "ip=100.64.1.2\nlease=0").lease4? .zero = none := by
  obtain ⟨hcompose, hlast, hnoise, hlease4, hlease6, hnone⟩ := report_by_lines
  refine ⟨?_, ?_, ?_, ?_, ?_, ?_⟩
  · have htext : "udhcpc: started\r\n\tip=100.64.1.2 \r\nlease=3600".toList =
        "udhcpc: started".toList ++ ['\r', '\n'] ++ (['\t'] ++ "ip=100.64.1.2".toList ++ [' '] ++
          ['\r', '\n'] ++ ([] ++ "lease=3600".toList ++ [] ++ [] ++ [])) := by decide
    obtain ⟨environment, hip, hlease, hprinted⟩ : ∃ environment : Script.Variable → List Char,
        environment .ip = IPv4.chars ⟨100, 64, 1, 2⟩ ∧ environment .lease = Text.decimal 3600 ∧
          Script.printed "bound" environment =
            ["ip=100.64.1.2".toList, "lease=3600".toList] :=
      ⟨fun
        | .ip => "100.64.1.2".toList
        | .lease => "3600".toList
        | _ => [], by decide, by decide, by decide⟩
    refine hlease4 ⟨100, 64, 1, 2⟩ 3600 environment _ _ (by decide) hip hlease ?_
    rw [hprinted, htext]
    exact .noise (by decide) (by decide) (.returnLineFeed _)
      (.next (List.forall_mem_singleton.2 (by decide)) (List.forall_mem_singleton.2 (by decide))
        (.returnLineFeed _) (.next (List.forall_mem_nil _) (List.forall_mem_nil _) .text .done))
  · have htext : "prefix_address=::\nprefix_length=56\nlease=60\nudhcpc6: done".toList =
        [] ++ "prefix_address=::".toList ++ [] ++ ['\n'] ++
          ([] ++ "prefix_length=56".toList ++ [] ++ ['\n'] ++
            ([] ++ "lease=60".toList ++ [] ++ ['\n'] ++
              ("udhcpc6: done".toList ++ [] ++ []))) := by decide
    obtain ⟨environment, hempty, hdelegation, hlease, hprinted⟩ :
        ∃ environment : Script.Variable → List Char, environment .ip = [] ∧
          environment .delegation = IPv6.unspecified.chars ++ '/' :: Text.decimal 56 ∧
          environment .delegationLease = Text.decimal 60 ∧
          Script.printed "bound" environment =
            ["prefix_address=::".toList, "prefix_length=56".toList, "lease=60".toList] :=
      ⟨fun
        | .delegation => "::/56".toList
        | .delegationLease => "60".toList
        | _ => [], by decide, by decide, by decide, by decide⟩
    refine hlease6 .unspecified 56 60 environment _ _ (by decide) hempty hdelegation hlease ?_
    rw [hprinted, htext]
    have hnil := List.forall_mem_nil fun c => Text.isBlank c ∧ c ≠ '\n'
    exact .next hnil hnil (.lineFeed _) (.next hnil hnil (.lineFeed _)
      (.next hnil hnil (.lineFeed _) (.noise (by decide) (by decide) .text .done)))
  · rw [(hcompose _ _ _).1 (by decide)]
    exact hlast _ _ [] ⟨[], "ip=".toList, [], by decide, by decide, List.forall_mem_nil _⟩
  · rw [(hcompose _ _ _).2 (by decide)]
    decide
  · exact (hnoise _ _ _ (by decide) (by decide)).1
  · refine (hnone _ _ (.inr ⟨"0".toList, ?_, by decide⟩)).1
    exact ⟨["ip=100.64.1.2".toList], "lease=0".toList, [], by decide, by decide,
      List.forall_mem_nil _⟩

end Report

end HybridAccess.Dhcp
