/-
  HybridAccess — which packets are messages, and what they consist of.

  The walk over the attributes takes the packet apart without a gap
  (`Attribute.parts_of_decodeAll`): the attributes read are its front, and at
  the front of what is left no attribute stands. Main statement:
  `decode_takes_apart`. It says which packets are read, and that a packet is
  head, attributes and a rest, so that writing what was read gives the packet
  without the rest.
-/
import HybridAccess.Proofs.Message.Written

namespace HybridAccess.Message

/-- **The attributes that are read are the front of the bytes, and the walk stops where no
attribute stands.** -/
theorem Attribute.parts_of_decodeAll {bytes left : Bytes} {as : List Attribute}
    (h : decodeAll bytes = (as, left)) :
    ∃ front, encodeAll as = .ok front ∧ bytes = front ++ left ∧ ∃ e, decode left = .error e := by
  fun_induction decodeAll bytes generalizing as with
  | case1 bytes a rest hd bs left' hrest ih =>
    cases h
    obtain ⟨front, hfront, hparts, hstop⟩ := ih hrest
    obtain ⟨first, hfirst, hbytes⟩ := eq_encode_append_of_decode hd
    refine ⟨first ++ front, ?_, ?_, hstop⟩
    · rw [encodeAll_cons_of_ok hfirst, hfront]
      rfl
    · rw [hbytes, hparts, List.append_assoc]
  | case2 bytes e hd =>
    cases h
    exact ⟨[], rfl, rfl, e, hd⟩

/-- A packet is a message just if it starts with a control header without a sequence number, and a
known tunnel and a known kind follow. -/
theorem exists_decode_iff {packet : Bytes} : (∃ m, decode packet = .ok m) ↔
    ∃ key type body, packet = (Gre.Header.mk Gre.controlProtocol key none).encode ++ type :: body ∧
      (∃ t, Tunnel.ofNibble? (type.toNat % 16) = some t) ∧
      ∃ k, Kind.ofNibble? (type.toNat / 16) = some k := by
  constructor
  · rintro ⟨m, h⟩
    obtain ⟨left, hread⟩ := decode_eq_ok_iff.1 h
    obtain ⟨type, body, hpacket, htunnel, hkind, -⟩ := head_of_read hread
    exact ⟨m.key, type, body, hpacket, ⟨_, htunnel⟩, _, hkind⟩
  · rintro ⟨key, type, body, rfl, ⟨tunnel, htunnel⟩, kind, hkind⟩
    refine ⟨⟨kind, tunnel, key, (Attribute.decodeAll body).1⟩,
      decode_eq_ok_iff.2 ⟨(Attribute.decodeAll body).2, read_eq_ok_iff.2 ⟨body, ?_, rfl⟩⟩⟩
    rw [head_eq, ← eq_typeByte hkind htunnel, List.append_assoc]
    rfl

/-- **Which packets are messages, and that a message is the packet without a rest at whose front no
attribute stands.** -/
theorem decode_takes_apart (packet : Bytes) :
    ((∃ m, decode packet = .ok m) ↔
      ∃ k₀ k₁ k₂ k₃ type rest, packet = 0x20 :: 0x00 :: 0x01 :: 0x01 :: k₀ :: k₁ :: k₂ :: k₃ ::
          type :: rest ∧
        (type.toNat % 16 = 0 ∨ type.toNat % 16 = 8) ∧
        1 ≤ type.toNat / 16 ∧ type.toNat / 16 ≤ 6) ∧
    ∀ m, decode packet = .ok m → ∃ attributes rest,
      Attribute.encodeAll m.attributes = .ok attributes ∧
      packet = [0x20, 0x00, 0x01, 0x01] ++ Bytes.be32 m.key ++ [typeByte m.kind m.tunnel] ++
        attributes ++ rest ∧
      (rest = [] ∨ ∃ e, Attribute.decode rest = .error e) ∧
      (packet.length ≤ 1500 → ∃ written, m.encode = .ok written ∧ packet = written ++ rest) := by
  constructor
  · simp only [exists_decode_iff, Tunnel.exists_ofNibble?_iff, Kind.exists_ofNibble?_iff,
      encode_controlHeader]
    constructor
    · rintro ⟨key, type, rest, rfl, hnibbles⟩
      exact ⟨_, _, _, _, type, rest, rfl, hnibbles⟩
    · rintro ⟨k₀, k₁, k₂, k₃, type, rest, rfl, hnibbles⟩
      refine ⟨Bytes.word32 k₀ k₁ k₂ k₃, type, rest, ?_, hnibbles⟩
      rw [Bytes.be32_word32]
      rfl
  · intro m h
    obtain ⟨left, hread⟩ := decode_eq_ok_iff.1 h
    obtain ⟨body, hpacket, hbody⟩ := read_eq_ok_iff.1 hread
    obtain ⟨front, hfront, rfl, hstop⟩ := Attribute.parts_of_decodeAll hbody
    rw [← List.append_assoc] at hpacket
    refine ⟨front, left, hfront, hpacket, Or.inr hstop, fun hle => ⟨_, ?_, hpacket⟩⟩
    refine encode_eq_ok_iff.2 ⟨?_, front, hfront, rfl⟩
    rw [hpacket] at hle
    simp only [List.length_append, length_head, Attribute.length_of_encodeAll hfront] at hle
    exact Nat.le_trans (Nat.le_add_right _ _) hle

end HybridAccess.Message
