/-
  HybridAccess — attributes of control messages.

  An attribute is an identifier and a value. On the wire the identifier is one
  byte, the length of the value two bytes, and the value follows. `decodeAll`
  reads attributes until the bytes end or one of them is cut short, and returns
  what it could not read. Reading takes back exactly what writing produced
  (`decode_encode_append`, `eq_encode_append_of_decode`).
-/
import HybridAccess.PacketError
import HybridAccess.Message.Stamp

namespace HybridAccess.Message

/-- An attribute of a control message. -/
structure Attribute where
  id : UInt8
  value : Bytes
deriving DecidableEq, Repr

namespace Attribute

/-! ## Identifiers -/

/-- IPv6 address of the server. -/
def serverAddress : UInt8 := 2

/-- Name under which the client introduces itself. -/
def clientName : UInt8 := 3

/-- Number of the session. -/
def sessionId : UInt8 := 4

/-- Time stamp of a hello. -/
def timestamp : UInt8 := 5

/-- Rate of the traffic that bypasses the tunnels. -/
def bypassRate : UInt8 := 6

/-- A new list of traffic filters. -/
def filterList : UInt8 := 8

/-- Seconds between two reports of bypass traffic. -/
def bypassInterval : UInt8 := 10

/-- Seconds between two hellos. -/
def helloInterval : UInt8 := 14

/-- Hellos that may stay unanswered. -/
def helloRetries : UInt8 := 15

/-- Reason of a refusal or of the end of a session. -/
def errorCode : UInt8 := 17

/-- The broadband link has failed. -/
def dslFailure : UInt8 := 18

/-- The cellular link has failed. -/
def lteFailure : UInt8 := 19

/-- Key of the session. -/
def bondingKey : UInt8 := 20

/-- Answer to a list of traffic filters. -/
def filterListAck : UInt8 := 30

/-- Question or answer whether the tunnel works. -/
def tunnelVerification : UInt8 := 35

/-- Ends every message. -/
def padding : UInt8 := 255

/-! ## Values -/

/-- An attribute without a value. -/
def flag (id : UInt8) : Attribute := ⟨id, []⟩

/-- An attribute whose value is a word. -/
def ofWord (id : UInt8) (w : UInt32) : Attribute := ⟨id, Bytes.be32 w⟩

/-- The attribute that ends a message. -/
def pad : Attribute := flag padding

/-- The first four bytes of the value, as a word. -/
def asWord? (a : Attribute) : Option UInt32 :=
  match a.value with
  | b₀ :: b₁ :: b₂ :: b₃ :: _ => some (Bytes.word32 b₀ b₁ b₂ b₃)
  | _ => none

/-- The value as an address. -/
def asAddress? (a : Attribute) : Option IPv6 := IPv6.ofBytes? a.value

/-- The value as a time stamp. -/
def asStamp? (a : Attribute) : Option Stamp := Stamp.decode? a.value

@[simp] theorem asWord?_ofWord (id : UInt8) (w : UInt32) : (ofWord id w).asWord? = some w := by
  simp [asWord?, ofWord, Bytes.be32, Bytes.word32_be32]

/-! ## Wire form -/

/-- The bytes of identifier and length. -/
def prefixLength : Nat := 3

/-- The largest value that the length field can describe. -/
def maxValueLength : Nat := 0xFFFF

/-- The number of bytes an attribute takes. -/
def encodedLength (a : Attribute) : Nat := prefixLength + a.value.length

/-- The bytes of an attribute. -/
def encode (a : Attribute) : Except PacketError Bytes :=
  if a.value.length ≤ maxValueLength then
    .ok (a.id :: Bytes.be16 (UInt16.ofNat a.value.length) ++ a.value)
  else .error (.attributeTooLarge a.value.length)

/-- The bytes of several attributes, one behind the other. -/
def encodeAll : List Attribute → Except PacketError Bytes
  | [] => .ok []
  | a :: as => do return (← a.encode) ++ (← encodeAll as)

/-- Read the attribute at the front, and return it with the bytes behind it. -/
def decode : Bytes → Except PacketError (Attribute × Bytes)
  | id :: l₀ :: l₁ :: body =>
    let length := (Bytes.word16 l₀ l₁).toNat
    let value := body.take length
    if value.length = length then .ok (⟨id, value⟩, body.drop length)
    else .error (.malformed (prefixLength + length) (prefixLength + body.length))
  | short => .error (.malformed prefixLength short.length)

theorem length_lt_of_decode {bytes rest : Bytes} {a : Attribute}
    (h : decode bytes = .ok (a, rest)) : rest.length < bytes.length := by
  unfold decode at h
  split at h
  · simp only at h
    split at h
    · cases h
      simp only [List.length_drop, List.length_cons]
      omega
    · cases h
  · cases h

/-- Read attributes as long as it goes. The second result is what could not be read: nothing, or
bytes at whose front no attribute stands. -/
def decodeAll (bytes : Bytes) : List Attribute × Bytes :=
  match _h : decode bytes with
  | .ok (a, rest) =>
    let (as, left) := decodeAll rest
    (a :: as, left)
  | .error _ => ([], bytes)
termination_by bytes.length
decreasing_by exact length_lt_of_decode _h

/-- Why the bytes that could not be read are no attribute. -/
def complaint? (left : Bytes) : Option PacketError :=
  match left, decode left with
  | _ :: _, .error e => some e
  | _, _ => none

/-- A written attribute is read back, whatever follows it. -/
theorem decode_encode_append {a : Attribute} {bytes : Bytes} (h : a.encode = .ok bytes)
    (rest : Bytes) : decode (bytes ++ rest) = .ok (a, rest) := by
  unfold encode at h
  split at h
  · next hl =>
    cases h
    have hn : (UInt16.ofNat a.value.length).toNat = a.value.length := by
      simp only [UInt16.toNat_ofNat', maxValueLength] at *; omega
    simp only [decode, Bytes.be16, List.cons_append, List.nil_append, Bytes.word16_be16]
    simp [hn]
  · cases h

/-- What is read starts with the bytes of the attribute. -/
theorem eq_encode_append_of_decode {bytes rest : Bytes} {a : Attribute}
    (h : decode bytes = .ok (a, rest)) : ∃ front, a.encode = .ok front ∧ bytes = front ++ rest := by
  unfold decode at h
  split at h
  · next id l₀ l₁ body =>
    simp only at h
    split at h
    · next hl =>
      cases h
      have hw := UInt16.toNat_lt (Bytes.word16 l₀ l₁)
      refine ⟨id :: l₀ :: l₁ :: body.take (Bytes.word16 l₀ l₁).toNat, ?_, by simp⟩
      simp only [encode, hl]
      rw [if_pos (by simp only [maxValueLength]; omega), UInt16.ofNat_toNat, Bytes.be16_word16]
      rfl
    · cases h
  · cases h

end Attribute

end HybridAccess.Message
