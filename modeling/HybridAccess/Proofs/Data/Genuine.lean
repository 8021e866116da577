/-
  HybridAccess — which packets come from a DHCP client, and which are taken for one.

  `Traffic.IsDhcp` says what a packet from a DHCP client to a server is by the
  rules of IPv4, IPv6 and UDP. `Traffic.classify` looks at less: it finds UDP
  and the ports where they would stand (`BearsPorts`), and neither at the
  version, nor at whether the header is long enough to be one, nor at whether
  the packet is the first fragment. Main statement: `dhcp_iff_genuine_iff`,
  that these packets, and no others, are taken for what they are not.
-/
import HybridAccess.Data.Traffic
import HybridAccess.Proofs.Gre.Exact

namespace HybridAccess.Traffic

/-! ## What stands in a packet -/

/-- The version of an IP packet, the upper half of its first byte. -/
def version? (packet : Bytes) : Option Nat :=
  packet[0]?.map fun b => b.toNat / 16

/-- The length of an IPv4 header: the lower half of the first byte counts words of four bytes. -/
def headerLength? (packet : Bytes) : Option Nat :=
  packet[0]?.map fun b => 4 * (b.toNat % 16)

/-- Where the piece of a packet that an IPv4 packet carries belongs: thirteen bits, behind three
flags. -/
def fragmentOffset? (packet : Bytes) : Option Nat := do
  let high ← packet[6]?
  let low ← packet[7]?
  some (high.toNat % 32 * 256 + low.toNat)

/-- The number of UDP stands at a place, and a source and a destination port behind a header. -/
structure HasPorts (packet : Bytes) (place length : Nat) (ports : UInt16 × UInt16) : Prop where
  udp : packet[place]? = some udp
  ports : (packet.drop length).take 4 = Bytes.be16 ports.1 ++ Bytes.be16 ports.2

/-- A packet from a DHCP client to a server, with its protocol number. -/
inductive IsDhcp (packet : Bytes) : UInt16 → Prop
  /-- UDP in IPv4: a whole header, and the first fragment. -/
  | ipv4 {length : Nat} (version : version? packet = some 4)
      (header : headerLength? packet = some length) (whole : 20 ≤ length)
      (first : fragmentOffset? packet = some 0)
      (ports : HasPorts packet 9 length (68, 67)) : IsDhcp packet 0x0800
  /-- UDP directly in IPv6. -/
  | ipv6 (version : version? packet = some 6)
      (ports : HasPorts packet 6 40 (546, 547)) : IsDhcp packet 0x86DD

/-- A packet with UDP and the ports of DHCP in the places where its protocol has them, whatever else
stands in it. -/
inductive BearsPorts (packet : Bytes) : UInt16 → Prop
  | ipv4 {length : Nat} (header : headerLength? packet = some length)
      (ports : HasPorts packet 9 length (68, 67)) : BearsPorts packet 0x0800
  | ipv6 (ports : HasPorts packet 6 40 (546, 547)) : BearsPorts packet 0x86DD

/-- Not the packet that its ports make it look like. -/
inductive Unfit (packet : Bytes) : UInt16 → Prop
  | version4 (h : version? packet ≠ some 4) : Unfit packet 0x0800
  /-- The ports would stand inside the header. -/
  | header {length : Nat} (h : headerLength? packet = some length) (short : length < 20) :
      Unfit packet 0x0800
  /-- A later fragment, in which no ports stand. -/
  | fragment (h : fragmentOffset? packet ≠ some 0) : Unfit packet 0x0800
  | version6 (h : version? packet ≠ some 6) : Unfit packet 0x86DD

variable {packet : Bytes} {protocol : UInt16}

/-! ## What is looked at -/

theorem ports?_eq_some_iff {bytes : Bytes} {source destination : UInt16} :
    ports? bytes = some (source, destination) ↔
      bytes.take 4 = Bytes.be16 source ++ Bytes.be16 destination := by
  by_cases hl : 4 ≤ bytes.length
  · obtain ⟨a, b, c, d, rest, rfl⟩ := Bytes.exists_four hl
    simp only [ports?, Option.some.injEq, Prod.mk.injEq, Bytes.word16_eq_iff]
    constructor
    · rintro ⟨hs, hd⟩
      rw [← hs, ← hd]
      rfl
    · intro h
      have hpairs : [a, b] ++ [c, d] = Bytes.be16 source ++ Bytes.be16 destination := h
      exact List.append_inj hpairs rfl
  · have hshort : (bytes.take 4).length < 4 := by
      rw [List.length_take]
      omega
    constructor
    · intro h
      unfold ports? at h
      split at h
      · simp at hl
      · cases h
    · intro h
      rw [h] at hshort
      exact absurd hshort (by simp)

theorem ports4?_eq_some_iff {ports : UInt16 × UInt16} : ports4? packet = some ports ↔
    ∃ length, headerLength? packet = some length ∧ HasPorts packet 9 length ports := by
  constructor
  · intro h
    simp only [ports4?, bind, Option.bind_eq_some_iff] at h
    obtain ⟨first, hfirst, number, hnumber, h⟩ := h
    split at h
    · next hudp =>
      refine ⟨4 * (first.toNat % 16), ?_, ⟨hudp ▸ hnumber, ?_⟩⟩
      · rw [headerLength?, ← List.head?_eq_getElem?, hfirst]
        rfl
      · rw [Nat.mul_comm]
        exact ports?_eq_some_iff.1 h
    · cases h
  · rintro ⟨length, hlength, hudp, hports⟩
    obtain ⟨first, hfirst, rfl⟩ := Option.map_eq_some_iff.1 hlength
    rw [← List.head?_eq_getElem?] at hfirst
    rw [Nat.mul_comm] at hports
    simp [ports4?, hfirst, hudp, ports?_eq_some_iff.2 hports]

theorem ports6?_eq_some_iff {ports : UInt16 × UInt16} :
    ports6? packet = some ports ↔ HasPorts packet 6 40 ports := by
  constructor
  · intro h
    simp only [ports6?, bind, Option.bind_eq_some_iff] at h
    obtain ⟨number, hnumber, h⟩ := h
    split at h
    · next hudp => exact ⟨hudp ▸ hnumber, ports?_eq_some_iff.1 h⟩
    · cases h
  · rintro ⟨hudp, hports⟩
    simp [ports6?, hudp, ports?_eq_some_iff.2 hports]

/-- A packet is taken for one of a DHCP client just for the ports. -/
theorem classify_eq_dhcp_iff : classify protocol packet = .dhcp ↔ BearsPorts packet protocol := by
  unfold classify
  constructor
  · intro h
    split at h
    · next h4 =>
      obtain ⟨rfl, hports⟩ := h4
      obtain ⟨length, hlength, hports⟩ := ports4?_eq_some_iff.1 hports
      exact .ipv4 hlength hports
    · split at h
      · next h6 =>
        obtain ⟨rfl, hports⟩ := h6
        exact .ipv6 (ports6?_eq_some_iff.1 hports)
      · cases h
  · rintro (⟨hlength, hports⟩ | ⟨hports⟩)
    · exact if_pos ⟨rfl, ports4?_eq_some_iff.2 ⟨_, hlength, hports⟩⟩
    · rw [if_neg fun h => absurd h.1 (by decide)]
      exact if_pos ⟨rfl, ports6?_eq_some_iff.2 hports⟩

/-! ## What the packets are -/

theorem IsDhcp.bearsPorts (h : IsDhcp packet protocol) : BearsPorts packet protocol := by
  cases h with
  | ipv4 _ header _ _ ports => exact .ipv4 header ports
  | ipv6 _ ports => exact .ipv6 ports

theorem IsDhcp.not_unfit (h : IsDhcp packet protocol) : ¬ Unfit packet protocol := by
  intro hunfit
  cases h with
  | ipv4 version header whole first ports =>
    cases hunfit with
    | version4 hversion => exact hversion version
    | header hlength hshort =>
      cases header.symm.trans hlength
      omega
    | fragment hfirst => exact hfirst first
  | ipv6 version ports =>
    cases hunfit with
    | version6 hversion => exact hversion version

theorem BearsPorts.isDhcp (h : BearsPorts packet protocol) (hfit : ¬ Unfit packet protocol) :
    IsDhcp packet protocol := by
  cases h with
  | @ipv4 length header ports =>
    exact .ipv4 (Classical.not_not.1 fun h => hfit (.version4 h)) header
      (Nat.le_of_not_lt fun h => hfit (.header header h))
      (Classical.not_not.1 fun h => hfit (.fragment h)) ports
  | ipv6 ports => exact .ipv6 (Classical.not_not.1 fun h => hfit (.version6 h)) ports

/-- **A packet from a DHCP client is always found, and another packet is taken for one just if it
bears the ports and is not what they make it look like.** -/
theorem dhcp_iff_genuine_iff (protocol : UInt16) (packet : Bytes) :
    (IsDhcp packet protocol → classify protocol packet = .dhcp) ∧
    ((classify protocol packet = .dhcp ↔ IsDhcp packet protocol) ↔
      ¬ (BearsPorts packet protocol ∧ Unfit packet protocol)) := by
  rw [classify_eq_dhcp_iff]
  refine ⟨IsDhcp.bearsPorts, fun h => ?_, fun h => ?_⟩
  · rintro ⟨hports, hunfit⟩
    exact (h.1 hports).not_unfit hunfit
  · exact ⟨fun hports => hports.isDhcp fun hunfit => h ⟨hports, hunfit⟩, IsDhcp.bearsPorts⟩

/-- A later fragment of a UDP packet whose data happen to be the two ports. -/
def laterFragment : Bytes :=
  [0x45, 0, 0, 24, 0, 0, 0, 185, 64, 17, 0, 0, 10, 0, 0, 1, 10, 0, 0, 2, 0, 68, 0, 67]

/-- A later fragment is taken for a packet of a DHCP client. -/
theorem laterFragment_taken_for_dhcp :
    classify 0x0800 laterFragment = .dhcp ∧ ¬ IsDhcp laterFragment 0x0800 := by
  refine ⟨by decide, fun h => ?_⟩
  cases h with
  | ipv4 version header whole first ports => exact absurd first (by decide)

end HybridAccess.Traffic
