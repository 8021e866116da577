/-
  HybridAccess — the header that starts every packet.

  A header holds a protocol, a key and perhaps a sequence number. Its first
  word says whether the sequence number is there; no other flags and no other
  version are known. `decode` returns the header and the bytes behind it:

  * `decode_encode_append`: a written header is read back, whatever follows;
  * `eq_encode_append_of_decode`: what is read starts with the written header.
-/
import HybridAccess.PacketError

namespace HybridAccess.Gre

/-- The protocol number of control messages. -/
def controlProtocol : UInt16 := 0x0101

/-- The protocol number of IPv4 packets. -/
def ipv4Protocol : UInt16 := 0x0800

/-- The protocol number of IPv6 packets. -/
def ipv6Protocol : UInt16 := 0x86DD

/-- Whether a protocol number belongs to IP packets. -/
def isIP (protocol : UInt16) : Bool :=
  protocol == ipv4Protocol || protocol == ipv6Protocol

/-- Flags and version of a header with a key. -/
def keyFlags : UInt16 := 0x2000

/-- Flags and version of a header with a key and a sequence number. -/
def sequenceFlags : UInt16 := 0x3000

/-- The header of a packet. -/
structure Header where
  protocol : UInt16
  key : UInt32
  sequence : Option UInt32
deriving DecidableEq, Repr

namespace Header

/-- Length without a sequence number. -/
def shortLength : Nat := 8

/-- Length with a sequence number. -/
def longLength : Nat := 12

/-- Flags and version of a header. -/
def flags (h : Header) : UInt16 :=
  if h.sequence.isSome then sequenceFlags else keyFlags

/-- The number of bytes a header takes. -/
def encodedLength (h : Header) : Nat :=
  if h.sequence.isSome then longLength else shortLength

/-- The bytes of a header. -/
def encode (h : Header) : Bytes :=
  Bytes.be16 h.flags ++ Bytes.be16 h.protocol ++ Bytes.be32 h.key ++
    (h.sequence.map Bytes.be32).getD []

/-- Write a header behind the bytes that a buffer holds. -/
def encodeInto (h : Header) (buffer : Bytes) : Bytes :=
  let buffer := buffer ++ Bytes.be16 h.flags
  let buffer := buffer ++ Bytes.be16 h.protocol
  let buffer := buffer ++ Bytes.be32 h.key
  match h.sequence with
  | none => buffer
  | some n => buffer ++ Bytes.be32 n

/-- Read a header, and return it with the bytes behind it. -/
def decode (packet : Bytes) : Except PacketError (Header × Bytes) :=
  match packet with
  | f₀ :: f₁ :: p₀ :: p₁ :: k₀ :: k₁ :: k₂ :: k₃ :: rest =>
    let flags := Bytes.word16 f₀ f₁
    let protocol := Bytes.word16 p₀ p₁
    let key := Bytes.word32 k₀ k₁ k₂ k₃
    if flags = keyFlags then .ok (⟨protocol, key, none⟩, rest)
    else if flags = sequenceFlags then
      match rest with
      | s₀ :: s₁ :: s₂ :: s₃ :: rest =>
        .ok (⟨protocol, key, some (Bytes.word32 s₀ s₁ s₂ s₃)⟩, rest)
      | _ => .error (.invalidLength longLength packet.length)
    else .error (.invalidFlags flags)
  | _ => .error (.invalidLength shortLength packet.length)

@[simp] theorem length_encode (h : Header) : h.encode.length = h.encodedLength := by
  cases h with
  | mk p k s => cases s <;> rfl

theorem encodeInto_eq (h : Header) (buffer : Bytes) : h.encodeInto buffer = buffer ++ h.encode := by
  obtain ⟨p, k, s⟩ := h
  cases s <;> simp [encodeInto, encode]

/-- A written header is read back, whatever follows it. -/
theorem decode_encode_append (h : Header) (rest : Bytes) :
    decode (h.encode ++ rest) = .ok (h, rest) := by
  obtain ⟨p, k, s⟩ := h
  have hk : Bytes.word16 (UInt8.ofNat (keyFlags.toNat / 0x100)) keyFlags.toUInt8 =
    keyFlags := Bytes.word16_be16 _
  have hs : Bytes.word16 (UInt8.ofNat (sequenceFlags.toNat / 0x100))
    sequenceFlags.toUInt8 = sequenceFlags := Bytes.word16_be16 _
  have hne : sequenceFlags ≠ keyFlags := by decide
  cases s with
  | none =>
    simp [decode, encode, flags, Bytes.be16, Bytes.be32, hk, Bytes.word16_be16, Bytes.word32_be32]
  | some s =>
    simp [decode, encode, flags, Bytes.be16, Bytes.be32, hs, hne, Bytes.word16_be16,
      Bytes.word32_be32]

/-- What is read starts with the bytes of the header. -/
theorem eq_encode_append_of_decode {packet rest : Bytes} {h : Header}
    (hd : decode packet = .ok (h, rest)) : packet = h.encode ++ rest := by
  unfold decode at hd
  split at hd
  · next f₀ f₁ p₀ p₁ k₀ k₁ k₂ k₃ tail =>
    simp only at hd
    split at hd
    · next hf =>
      simp only [Except.ok.injEq, Prod.mk.injEq] at hd
      obtain ⟨rfl, rfl⟩ := hd
      simp [encode, flags, ← hf, Bytes.be16_word16, Bytes.be32_word32]
    · split at hd
      · next hf =>
        split at hd
        · simp only [Except.ok.injEq, Prod.mk.injEq] at hd
          obtain ⟨rfl, rfl⟩ := hd
          simp [encode, flags, ← hf, Bytes.be16_word16, Bytes.be32_word32]
        · cases hd
      · cases hd
  · cases hd

end Header

/-- The protocol field of a packet, with no other field looked at. -/
def peekProtocol (packet : Bytes) : Option UInt16 :=
  match packet with
  | _ :: _ :: a :: b :: _ => some (Bytes.word16 a b)
  | _ => none

end HybridAccess.Gre
