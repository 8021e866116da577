/-
  HybridAccess — control messages.

  A control message says what it is about (`Kind`) and which tunnel it
  concerns, and carries the key of the session and a list of attributes. On
  the wire it is a header without a sequence number, one byte for kind and
  tunnel, and the attributes. A message is at most `maxLength` bytes long.

  Reading is strict about the header and lenient about the attributes: bytes
  that are no attribute end the list (`read` returns them).
-/
import HybridAccess.Tunnel
import HybridAccess.Gre.Header
import HybridAccess.Message.Attribute

namespace HybridAccess

namespace Message

/-- What a control message is about. -/
inductive Kind
  | request
  | accept
  | deny
  | hello
  | teardown
  | notify
deriving DecidableEq, Repr

namespace Kind

/-- The number of a kind on the wire. -/
def nibble : Kind → Nat
  | request => 1
  | accept => 2
  | deny => 3
  | hello => 4
  | teardown => 5
  | notify => 6

/-- The kind with a number. -/
def ofNibble? : Nat → Option Kind
  | 1 => some request
  | 2 => some accept
  | 3 => some deny
  | 4 => some hello
  | 5 => some teardown
  | 6 => some notify
  | _ => none

/-- The name of a kind. -/
def name : Kind → String
  | request => "request"
  | accept => "accept"
  | deny => "deny"
  | hello => "hello"
  | teardown => "tear down"
  | notify => "notify"

theorem ofNibble?_eq_some_iff {n : Nat} {k : Kind} : ofNibble? n = some k ↔ n = k.nibble := by
  constructor
  · intro h
    unfold ofNibble? at h
    split at h <;> simp at h <;> subst h <;> rfl
  · rintro rfl
    cases k <;> rfl

theorem exists_ofNibble?_iff {n : Nat} : (∃ k, ofNibble? n = some k) ↔ 1 ≤ n ∧ n ≤ 6 := by
  constructor
  · rintro ⟨k, hk⟩
    rw [ofNibble?_eq_some_iff.1 hk]
    cases k <;> decide
  · rintro ⟨hlow, hhigh⟩
    have hn : n = 1 ∨ n = 2 ∨ n = 3 ∨ n = 4 ∨ n = 5 ∨ n = 6 := by omega
    rcases hn with rfl | rfl | rfl | rfl | rfl | rfl <;> exact ⟨_, rfl⟩

end Kind

end Message

/-- A control message. -/
structure Message where
  kind : Message.Kind
  tunnel : Tunnel
  /-- The key in the header. -/
  key : UInt32
  attributes : List Message.Attribute
deriving DecidableEq, Repr

namespace Message

/-- The length of the longest message. -/
def maxLength : Nat := 1500

/-- The length of header, kind and tunnel. -/
def fixedLength : Nat := Gre.Header.shortLength + 1

/-- The byte that holds kind and tunnel. -/
def typeByte (kind : Kind) (tunnel : Tunnel) : UInt8 :=
  UInt8.ofNat (16 * kind.nibble + tunnel.nibble)

/-- The first attribute with an identifier. -/
def find? (m : Message) (id : UInt8) : Option Attribute :=
  m.attributes.find? (·.id == id)

/-- The bytes of a message. -/
def encode (m : Message) : Except PacketError Bytes := do
  let attributes ← Attribute.encodeAll m.attributes
  let packet := (Gre.Header.mk Gre.controlProtocol m.key none).encode ++
    typeByte m.kind m.tunnel :: attributes
  if packet.length ≤ maxLength then return packet
  else throw (.payloadTooLarge packet.length)

/-- Read a message, and return it with the bytes at its end that are no attribute. -/
def read (packet : Bytes) : Except PacketError (Message × Bytes) := do
  let (header, body) ← Gre.Header.decode packet
  if header.sequence.isSome then throw (.invalidFlags Gre.sequenceFlags)
  if header.protocol ≠ Gre.controlProtocol then throw (.notControl header.protocol)
  match body with
  | [] => throw (.invalidLength fixedLength packet.length)
  | type :: rest =>
    let some tunnel := Tunnel.ofNibble? (type.toNat % 16)
      | throw (.invalidTunnel (type.toNat % 16))
    let some kind := Kind.ofNibble? (type.toNat / 16)
      | throw (.unknownMessage (type.toNat / 16))
    let (attributes, left) := Attribute.decodeAll rest
    return (⟨kind, tunnel, header.key, attributes⟩, left)

/-- Read a message. -/
def decode (packet : Bytes) : Except PacketError Message := do
  return (← read packet).1

end Message

end HybridAccess
