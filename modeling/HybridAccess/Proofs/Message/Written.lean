/-
  HybridAccess — writing a message and reading it back.

  A message is written as its head (`head`: header, kind and tunnel) and its
  attributes. `Attribute.encodeAll_cases` and `encode_cases` say what writing
  gives: the bytes, or which of the two size errors. Reading a written list of
  attributes goes on with whatever stands behind it (`Attribute.decodeAll_append`),
  and a message is read just if the packet starts with its head (`read_eq_ok_iff`).
  Main statement: `encode_fits_and_reads_back`.
-/
import Mathlib.Algebra.GroupWithZero.Nat
import Mathlib.Algebra.Order.BigOperators.Group.List
import Mathlib.Algebra.Order.Group.Nat
import HybridAccess.Message.Basic

namespace HybridAccess.Message

/-! ## Attributes -/

namespace Attribute

/-- The number of bytes that several attributes take. -/
def sizeAll (as : List Attribute) : Nat := (as.map encodedLength).sum

theorem sizeAll_append (as bs : List Attribute) : sizeAll (as ++ bs) = sizeAll as + sizeAll bs := by
  simp [sizeAll]

/-- Whether the length field cannot describe the value. -/
def isOversize (a : Attribute) : Bool := maxValueLength < a.value.length

theorem encode_of_oversize {a : Attribute} (h : a.isOversize = true) :
    a.encode = .error (.attributeTooLarge a.value.length) := by
  rw [encode, if_neg (Nat.not_le.2 (of_decide_eq_true h))]

theorem encode_of_fit {a : Attribute} (h : a.isOversize = false) :
    ∃ bytes, a.encode = .ok bytes ∧ bytes.length = a.encodedLength := by
  refine ⟨_, if_pos (Nat.not_lt.1 (of_decide_eq_false h)), ?_⟩
  simp only [List.length_append, List.length_cons, Bytes.length_be16, encodedLength, prefixLength]

theorem encodeAll_cons_of_error {a : Attribute} {e : PacketError} (h : a.encode = .error e)
    (as : List Attribute) : encodeAll (a :: as) = .error e := by
  rw [encodeAll, h]
  rfl

theorem encodeAll_cons_of_ok {a : Attribute} {bytes : Bytes} (h : a.encode = .ok bytes)
    (as : List Attribute) : encodeAll (a :: as) = (encodeAll as).map (bytes ++ ·) := by
  rw [encodeAll, h]
  cases encodeAll as <;> rfl

theorem encodeAll_cons_eq_ok {a : Attribute} {as : List Attribute} {bytes : Bytes} :
    encodeAll (a :: as) = .ok bytes ↔
      ∃ first rest, a.encode = .ok first ∧ encodeAll as = .ok rest ∧ bytes = first ++ rest := by
  rw [encodeAll]
  cases a.encode with
  | error e => simp [bind, Except.bind]
  | ok first =>
    cases encodeAll as with
    | error e => simp [bind, Except.bind]
    | ok rest => simp [bind, Except.bind, pure, Except.pure, eq_comm]

/-- **Writing attributes fails at the first one that is too long, and else fills their size.** -/
theorem encodeAll_cases (as : List Attribute) :
    (∃ a, as.find? isOversize = some a ∧
      encodeAll as = .error (.attributeTooLarge a.value.length)) ∨
    (as.find? isOversize = none ∧
      ∃ bytes, encodeAll as = .ok bytes ∧ bytes.length = sizeAll as) := by
  induction as with
  | nil => exact Or.inr ⟨rfl, [], rfl, rfl⟩
  | cons a as ih =>
    cases hbig : a.isOversize with
    | true =>
      exact Or.inl ⟨a, List.find?_cons_of_pos hbig,
        encodeAll_cons_of_error (encode_of_oversize hbig) as⟩
    | false =>
      obtain ⟨first, hfirst, hlength⟩ := encode_of_fit hbig
      rw [List.find?_cons_of_neg (by simp only [hbig, Bool.false_eq_true, not_false_eq_true]),
        encodeAll_cons_of_ok hfirst]
      rcases ih with ⟨b, hb, herror⟩ | ⟨hnone, rest, hrest, hsize⟩
      · exact Or.inl ⟨b, hb, by rw [herror]; rfl⟩
      · refine Or.inr ⟨hnone, first ++ rest, by rw [hrest]; rfl, ?_⟩
        simp only [List.length_append, hlength, hsize, sizeAll, List.map_cons, List.sum_cons]

theorem length_of_encodeAll {as : List Attribute} {bytes : Bytes}
    (h : encodeAll as = .ok bytes) : bytes.length = sizeAll as := by
  rcases encodeAll_cases as with ⟨a, -, he⟩ | ⟨-, _, he, hlength⟩
  · rw [h] at he; cases he
  · rw [h] at he; cases he; exact hlength

theorem decodeAll_of_error {bytes : Bytes} {e : PacketError} (h : decode bytes = .error e) :
    decodeAll bytes = ([], bytes) := by
  rw [decodeAll]
  split
  · next hd => rw [h] at hd; cases hd
  · rfl

theorem decodeAll_of_ok {a : Attribute} {bytes rest : Bytes} (h : decode bytes = .ok (a, rest)) :
    decodeAll bytes = (a :: (decodeAll rest).1, (decodeAll rest).2) := by
  rw [decodeAll]
  split
  · next hd => rw [h] at hd; cases hd; rfl
  · next hd => rw [h] at hd; cases hd

/-- **Reading goes on behind attributes that were written.** -/
theorem decodeAll_append {as : List Attribute} {bytes : Bytes} (h : encodeAll as = .ok bytes)
    (tail : Bytes) :
    decodeAll (bytes ++ tail) = (as ++ (decodeAll tail).1, (decodeAll tail).2) := by
  induction as generalizing bytes with
  | nil => cases h; rfl
  | cons a as ih =>
    obtain ⟨first, rest, hfirst, hrest, rfl⟩ := encodeAll_cons_eq_ok.1 h
    rw [List.append_assoc, decodeAll_of_ok (decode_encode_append hfirst (rest ++ tail)), ih hrest]
    rfl

theorem decodeAll_nil : decodeAll [] = ([], []) := decodeAll_of_error rfl

end Attribute

/-! ## The head of a message -/

theorem tunnel_of_typeByte (kind : Kind) (tunnel : Tunnel) :
    Tunnel.ofNibble? ((typeByte kind tunnel).toNat % 16) = some tunnel := by
  cases kind <;> cases tunnel <;> rfl

theorem kind_of_typeByte (kind : Kind) (tunnel : Tunnel) :
    Kind.ofNibble? ((typeByte kind tunnel).toNat / 16) = some kind := by
  cases kind <;> cases tunnel <;> rfl

/-- The byte that holds kind and tunnel is the one with their numbers in its halves. -/
theorem eq_typeByte {type : UInt8} {kind : Kind} {tunnel : Tunnel}
    (hkind : Kind.ofNibble? (type.toNat / 16) = some kind)
    (htunnel : Tunnel.ofNibble? (type.toNat % 16) = some tunnel) : type = typeByte kind tunnel := by
  rw [typeByte, ← Kind.ofNibble?_eq_some_iff.1 hkind, ← Tunnel.ofNibble?_eq_some_iff.1 htunnel,
    Nat.div_add_mod, UInt8.ofNat_toNat]

/-- The header of control messages has no sequence number. -/
theorem encode_controlHeader (key : UInt32) :
    (Gre.Header.mk Gre.controlProtocol key none).encode =
      [0x20, 0x00, 0x01, 0x01] ++ Bytes.be32 key := by
  have hflags : Bytes.be16 Gre.keyFlags = [0x20, 0x00] := by decide
  have hprotocol : Bytes.be16 Gre.controlProtocol = [0x01, 0x01] := by decide
  simp [Gre.Header.encode, Gre.Header.flags, hflags, hprotocol]

/-- What stands before the attributes: the header, and the byte for kind and tunnel. -/
def head (m : Message) : Bytes :=
  [0x20, 0x00, 0x01, 0x01] ++ Bytes.be32 m.key ++ [typeByte m.kind m.tunnel]

theorem head_eq (m : Message) : m.head =
    (Gre.Header.mk Gre.controlProtocol m.key none).encode ++ [typeByte m.kind m.tunnel] := by
  rw [encode_controlHeader, head]

@[simp] theorem length_head (m : Message) : m.head.length = fixedLength := rfl

/-- The number of bytes that a message takes. -/
def size (m : Message) : Nat := fixedLength + Attribute.sizeAll m.attributes

/-- **What writing a message gives: one of two size errors, or head and attributes.** -/
theorem encode_cases (m : Message) :
    (∃ a, m.attributes.find? Attribute.isOversize = some a ∧
      m.encode = .error (.attributeTooLarge a.value.length)) ∨
    (m.attributes.find? Attribute.isOversize = none ∧ maxLength < m.size ∧
      m.encode = .error (.payloadTooLarge m.size)) ∨
    (m.size ≤ maxLength ∧ ∃ bytes, Attribute.encodeAll m.attributes = .ok bytes ∧
      m.encode = .ok (m.head ++ bytes)) := by
  rcases Attribute.encodeAll_cases m.attributes with ⟨a, ha, herror⟩ | ⟨hnone, bytes, hbytes, hsize⟩
  · refine Or.inl ⟨a, ha, ?_⟩
    rw [encode, herror]
    rfl
  · have hlength : (m.head ++ bytes).length = m.size := by
      rw [List.length_append, length_head, hsize, size]
    have hencode : m.encode = if m.size ≤ maxLength then .ok (m.head ++ bytes)
        else .error (.payloadTooLarge m.size) := by
      rw [← hlength, encode, hbytes, head_eq, List.append_assoc]
      rfl
    rcases Nat.lt_or_ge maxLength m.size with hlt | hle
    · exact Or.inr (Or.inl ⟨hnone, hlt, by rw [hencode, if_neg (Nat.not_le.2 hlt)]⟩)
    · exact Or.inr (Or.inr ⟨hle, bytes, hbytes, by rw [hencode, if_pos hle]⟩)

/-- An attribute that is too long makes the message too long. -/
theorem lt_size_of_oversize {m : Message} {a : Attribute} (ha : a ∈ m.attributes)
    (h : a.isOversize = true) : maxLength < m.size := by
  have hvalue : 65535 < a.value.length := of_decide_eq_true h
  have hsum : a.encodedLength ≤ Attribute.sizeAll m.attributes :=
    List.le_sum_of_mem (List.mem_map_of_mem ha)
  simp only [Attribute.encodedLength, Attribute.prefixLength] at hsum
  simp only [size, fixedLength, Gre.Header.shortLength, maxLength]
  omega

/-- **The ways in which a packet is read: an error about its header, or about what stands behind a
header, or a message.** -/
theorem read_cases (packet : Bytes) :
    (∃ e, Gre.Header.decode packet = .error e ∧ read packet = .error e) ∨
    ∃ header body, Gre.Header.decode packet = .ok (header, body) ∧
      ((header.sequence ≠ none ∧ read packet = .error (.invalidFlags Gre.sequenceFlags)) ∨
      (header.sequence = none ∧ header.protocol ≠ Gre.controlProtocol ∧
        read packet = .error (.notControl header.protocol)) ∨
      (header.sequence = none ∧ header.protocol = Gre.controlProtocol ∧
        ((body = [] ∧ read packet = .error (.invalidLength fixedLength packet.length)) ∨
        ∃ type rest, body = type :: rest ∧
          ((Tunnel.ofNibble? (type.toNat % 16) = none ∧
            read packet = .error (.invalidTunnel (type.toNat % 16))) ∨
          (Kind.ofNibble? (type.toNat / 16) = none ∧
            read packet = .error (.unknownMessage (type.toNat / 16))) ∨
          ∃ tunnel kind, Tunnel.ofNibble? (type.toNat % 16) = some tunnel ∧
            Kind.ofNibble? (type.toNat / 16) = some kind ∧
            read packet = .ok (⟨kind, tunnel, header.key, (Attribute.decodeAll rest).1⟩,
              (Attribute.decodeAll rest).2))))) := by
  cases hd : Gre.Header.decode packet with
  | error e => exact Or.inl ⟨e, rfl, by rw [read, hd]; rfl⟩
  | ok p =>
    obtain ⟨header, body⟩ := p
    refine Or.inr ⟨header, body, rfl, ?_⟩
    generalize hr : read packet = r
    simp only [read, hd, bind, Except.bind, throw, throwThe, MonadExceptOf.throw, pure,
      Except.pure] at hr
    split at hr
    · next hs => exact Or.inl ⟨Option.isSome_iff_ne_none.1 hs, hr.symm⟩
    · next hs =>
      have hnone : header.sequence = none := Option.not_isSome_iff_eq_none.1 hs
      split at hr
      · next hp => exact Or.inr (Or.inl ⟨hnone, hp, hr.symm⟩)
      · next hp =>
        refine Or.inr (Or.inr ⟨hnone, not_not.1 hp, ?_⟩)
        split at hr
        · exact Or.inl ⟨rfl, hr.symm⟩
        · next type rest =>
          refine Or.inr ⟨type, rest, rfl, ?_⟩
          split at hr
          · next tunnel ht =>
            split at hr
            · next kind hk => exact Or.inr (Or.inr ⟨tunnel, kind, ht, hk, hr.symm⟩)
            · next hk => exact Or.inr (Or.inl ⟨Option.eq_none_iff_forall_ne_some.2 hk, hr.symm⟩)
          · next ht => exact Or.inl ⟨Option.eq_none_iff_forall_ne_some.2 ht, hr.symm⟩

/-- What is read stands behind a control header, with a known tunnel and a known kind. -/
theorem head_of_read {packet left : Bytes} {m : Message} (h : read packet = .ok (m, left)) :
    ∃ type body, packet = (Gre.Header.mk Gre.controlProtocol m.key none).encode ++ type :: body ∧
      Tunnel.ofNibble? (type.toNat % 16) = some m.tunnel ∧
      Kind.ofNibble? (type.toNat / 16) = some m.kind ∧
      Attribute.decodeAll body = (m.attributes, left) := by
  rcases read_cases packet with ⟨e, -, he⟩ | ⟨⟨protocol, key, sequence⟩, body, hd, hcases⟩
  · cases he.symm.trans h
  · rcases hcases with ⟨-, he⟩ | ⟨-, -, he⟩ | ⟨rfl, rfl, hcases⟩
    · cases he.symm.trans h
    · cases he.symm.trans h
    · rcases hcases with ⟨-, he⟩ | ⟨type, rest, rfl, ⟨-, he⟩ | ⟨-, he⟩ |
        ⟨tunnel, kind, htunnel, hkind, he⟩⟩
      · cases he.symm.trans h
      · cases he.symm.trans h
      · cases he.symm.trans h
      · cases he.symm.trans h
        exact ⟨type, rest, Gre.Header.eq_encode_append_of_decode hd, htunnel, hkind, rfl⟩

/-- **A message is read just if the packet starts with its head, and its attributes stand
behind.** -/
theorem read_eq_ok_iff {packet left : Bytes} {m : Message} : read packet = .ok (m, left) ↔
    ∃ body, packet = m.head ++ body ∧ Attribute.decodeAll body = (m.attributes, left) := by
  constructor
  · intro h
    obtain ⟨type, body, hpacket, htunnel, hkind, hbody⟩ := head_of_read h
    refine ⟨body, ?_, hbody⟩
    rw [hpacket, head_eq, eq_typeByte hkind htunnel, List.append_assoc]
    rfl
  · rintro ⟨body, rfl, hbody⟩
    obtain ⟨kind, tunnel, key, as⟩ := m
    simp [read, head_eq, Gre.Header.decode_encode_append, tunnel_of_typeByte, kind_of_typeByte,
      hbody, bind, Except.bind, pure, Except.pure]

theorem decode_eq_ok_iff {packet : Bytes} {m : Message} :
    decode packet = .ok m ↔ ∃ left, read packet = .ok (m, left) := by
  unfold decode
  cases read packet with
  | error e => exact ⟨fun h => (nomatch h), fun ⟨_, h⟩ => (nomatch h)⟩
  | ok r =>
    constructor
    · rintro h
      cases h
      exact ⟨r.2, rfl⟩
    · rintro ⟨left, h⟩
      cases h
      rfl

/-! ## Reading what was written -/

theorem encode_eq_ok_iff {m : Message} {packet : Bytes} : m.encode = .ok packet ↔
    m.size ≤ maxLength ∧
      ∃ bytes, Attribute.encodeAll m.attributes = .ok bytes ∧ packet = m.head ++ bytes := by
  rcases m.encode_cases with ⟨a, ha, he⟩ | ⟨-, hlt, he⟩ | ⟨hle, bytes, hbytes, he⟩
  · have hlt := lt_size_of_oversize (List.mem_of_find?_eq_some ha) (List.find?_some ha)
    rw [he]
    exact ⟨fun h => (nomatch h), fun h => absurd hlt (Nat.not_lt.2 h.1)⟩
  · rw [he]
    exact ⟨fun h => (nomatch h), fun h => absurd hlt (Nat.not_lt.2 h.1)⟩
  · rw [he, hbytes]
    constructor
    · intro h
      cases h
      exact ⟨hle, bytes, rfl, rfl⟩
    · rintro ⟨-, _, h, rfl⟩
      cases h
      rfl

/-- A message is written just if it fits. -/
theorem exists_encode_iff {m : Message} : (∃ packet, m.encode = .ok packet) ↔ m.size ≤ maxLength := by
  constructor
  · rintro ⟨packet, h⟩
    exact (encode_eq_ok_iff.1 h).1
  · intro hle
    rcases m.encode_cases with ⟨a, ha, -⟩ | ⟨-, hlt, -⟩ | ⟨-, bytes, -, he⟩
    · have := lt_size_of_oversize (List.mem_of_find?_eq_some ha) (List.find?_some ha)
      exact absurd hle (Nat.not_le.2 this)
    · exact absurd hle (Nat.not_le.2 hlt)
    · exact ⟨_, he⟩

/-- What stands behind a written message is read as further attributes. -/
theorem decode_append_of_encode {m : Message} {packet : Bytes} (h : m.encode = .ok packet)
    (tail : Bytes) : decode (packet ++ tail) =
      .ok { m with attributes := m.attributes ++ (Attribute.decodeAll tail).1 } := by
  obtain ⟨-, bytes, hbytes, rfl⟩ := encode_eq_ok_iff.1 h
  exact decode_eq_ok_iff.2 ⟨_, read_eq_ok_iff.2
    ⟨bytes ++ tail, List.append_assoc .., Attribute.decodeAll_append hbytes tail⟩⟩

/-- A written message is read back. -/
theorem decode_of_encode {m : Message} {packet : Bytes} (h : m.encode = .ok packet) :
    decode packet = .ok m := by
  have := decode_append_of_encode h []
  rwa [List.append_nil, Attribute.decodeAll_nil, List.append_nil] at this

/-- **A message is written just if it fits, a value that is too long is the first error, and what
was written is read back, with whatever attributes follow it.** -/
theorem encode_fits_and_reads_back (m : Message) :
    let size := 9 + (m.attributes.map fun a => 3 + a.value.length).sum
    ((∃ packet, m.encode = .ok packet) ↔ size ≤ 1500) ∧
    (1500 < size → m.encode = .error (
      match m.attributes.find? fun a => 65535 < a.value.length with
      | some a => .attributeTooLarge a.value.length
      | none => .payloadTooLarge size)) ∧
    ∀ packet, m.encode = .ok packet → packet.length = size ∧ decode packet = .ok m ∧
      ∀ tail, decode (packet ++ tail) =
        .ok { m with attributes := m.attributes ++ (Attribute.decodeAll tail).1 } := by
  intro size
  have hsize : m.size = size := rfl
  refine ⟨exists_encode_iff, fun hlt => ?_,
    fun packet h => ⟨?_, decode_of_encode h, decode_append_of_encode h⟩⟩
  · change m.encode = .error (match m.attributes.find? Attribute.isOversize with
      | some a => .attributeTooLarge a.value.length
      | none => .payloadTooLarge m.size)
    rcases m.encode_cases with ⟨a, ha, he⟩ | ⟨hnone, -, he⟩ | ⟨hle, -⟩
    · rw [ha, he]
    · rw [hnone, he]
    · exact absurd hlt (Nat.not_lt.2 hle)
  · obtain ⟨-, bytes, hbytes, rfl⟩ := encode_eq_ok_iff.1 h
    rw [List.length_append, length_head, Attribute.length_of_encodeAll hbytes]
    rfl

end HybridAccess.Message
