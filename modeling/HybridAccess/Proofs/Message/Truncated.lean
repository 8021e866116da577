/-
  HybridAccess — messages that are cut short.

  Of an attribute that is cut somewhere nothing is read, neither a shorter
  value nor another attribute (`Attribute.exists_error_of_lt`). The walk over
  the attributes therefore stops at the cut, with all attributes that end
  before it (`Attribute.decodeAll_take`). Main statement: `decode_take`.
-/
import HybridAccess.Proofs.Gre.Exact
import HybridAccess.Proofs.Message.Written

namespace HybridAccess.Message

/-! ## Attributes -/

namespace Attribute

theorem length_of_encode {a : Attribute} {bytes : Bytes} (h : a.encode = .ok bytes) :
    bytes.length = a.encodedLength := by
  unfold encode at h
  split at h
  · cases h
    simp [encodedLength, prefixLength]
    omega
  · cases h

theorem sizeAll_cons (a : Attribute) (as : List Attribute) :
    sizeAll (a :: as) = a.encodedLength + sizeAll as := by
  simp [sizeAll]

/-- Nothing is read from an attribute that is cut short. -/
theorem exists_error_of_lt {a : Attribute} {bytes : Bytes} {k : Nat} (h : a.encode = .ok bytes)
    (hk : k < bytes.length) : ∃ e, decode (bytes.take k) = .error e := by
  cases hd : decode (bytes.take k) with
  | error e => exact ⟨e, rfl⟩
  | ok r =>
    obtain ⟨b, rest⟩ := r
    obtain ⟨front, hfront, htake⟩ := eq_encode_append_of_decode hd
    -- what is read from the front alone is read from all the bytes too, and leaves the cut part
    have hbytes : bytes = front ++ (rest ++ bytes.drop k) := by
      rw [← List.append_assoc, ← htake, List.take_append_drop]
    have hall := decode_encode_append h []
    rw [List.append_nil, hbytes, decode_encode_append hfront] at hall
    simp only [Except.ok.injEq, Prod.mk.injEq, List.append_eq_nil_iff, List.drop_eq_nil_iff] at hall
    omega

/-- **The attributes that end before a cut are read, and no others.** -/
theorem decodeAll_take {as : List Attribute} {bytes : Bytes} (h : encodeAll as = .ok bytes)
    (k : Nat) : ∃ n, n ≤ as.length ∧ (decodeAll (bytes.take k)).1 = as.take n ∧
      ∀ i, i < as.length → (i < n ↔ sizeAll (as.take (i + 1)) ≤ k) := by
  induction as generalizing bytes k with
  | nil =>
    cases h
    refine ⟨0, Nat.le_refl 0, ?_, fun i hi => absurd hi (Nat.not_lt_zero i)⟩
    rw [List.take_nil, decodeAll_nil]
    rfl
  | cons a as ih =>
    obtain ⟨first, rest, hfirst, hrest, rfl⟩ := encodeAll_cons_eq_ok.1 h
    have hlength := length_of_encode hfirst
    rcases Nat.lt_or_ge k first.length with hcut | hwhole
    · obtain ⟨e, he⟩ := exists_error_of_lt hfirst hcut
      rw [List.take_append_of_le_length (Nat.le_of_lt hcut), decodeAll_of_error he]
      refine ⟨0, Nat.zero_le _, rfl, fun i _ => ?_⟩
      rw [List.take_succ_cons, sizeAll_cons]
      omega
    · obtain ⟨n, hn, hread, hends⟩ := ih hrest (k - first.length)
      rw [List.take_append, List.take_of_length_le hwhole,
        decodeAll_of_ok (decode_encode_append hfirst _), hread]
      refine ⟨n + 1, Nat.succ_le_succ hn, rfl, fun i hi => ?_⟩
      rw [List.take_succ_cons, sizeAll_cons]
      cases i with
      | zero =>
        have hnone : sizeAll (as.take 0) = 0 := rfl
        omega
      | succ i =>
        have hi' := hends i (Nat.lt_of_succ_lt_succ hi)
        omega

end Attribute

/-! ## Messages -/

theorem decode_of_header_error {packet : Bytes} {e : PacketError}
    (h : Gre.Header.decode packet = .error e) : decode packet = .error e := by
  simp [decode, read, h, bind, Except.bind]

/-- A header with nothing behind it is no message. -/
theorem decode_controlHeader (key : UInt32) :
    decode (Gre.Header.mk Gre.controlProtocol key none).encode = .error (.invalidLength 9 8) := by
  have hheader := Gre.Header.decode_encode_append ⟨Gre.controlProtocol, key, none⟩ []
  rw [List.append_nil] at hheader
  simp [decode, read, hheader, bind, Except.bind, throw, throwThe, MonadExceptOf.throw, fixedLength,
    Gre.Header.shortLength, Gre.Header.encodedLength]

/-- **A message that is cut short is refused if its head is not complete, and else it is the same
message with the leading attributes that end before the cut.** -/
theorem decode_take (m : Message) (packet : Bytes) (k : Nat) (hb : m.encode = .ok packet)
    (hk : k ≤ packet.length) :
    (k < 9 → decode (packet.take k) = .error (.invalidLength (if k < 8 then 8 else 9) k)) ∧
    (9 ≤ k → ∃ n, n ≤ m.attributes.length ∧
      decode (packet.take k) = .ok { m with attributes := m.attributes.take n } ∧
      ∀ i, i < m.attributes.length →
        (i < n ↔ 9 + ((m.attributes.take (i + 1)).map fun a => 3 + a.value.length).sum ≤ k)) := by
  obtain ⟨-, bytes, hbytes, rfl⟩ := encode_eq_ok_iff.1 hb
  have hhead : m.head.length = 9 := rfl
  constructor
  · intro hshort
    rcases Nat.lt_or_ge k 8 with hlt | hge
    · have hlength : ((m.head ++ bytes).take k).length = k := List.length_take_of_le hk
      have herror := Gre.Header.decode_of_short (hlength.symm ▸ hlt)
      rw [hlength] at herror
      rw [if_pos hlt, decode_of_header_error herror]
    · obtain rfl : k = 8 := by omega
      have hheader : (m.head ++ bytes).take 8 =
          (Gre.Header.mk Gre.controlProtocol m.key none).encode := by
        rw [head_eq, List.append_assoc]
        exact List.take_left' (Gre.Header.length_encode _)
      rw [if_neg (Nat.lt_irrefl 8), hheader, decode_controlHeader]
  · intro hlong
    obtain ⟨n, hn, hread, hends⟩ := Attribute.decodeAll_take hbytes (k - 9)
    have htake : (m.head ++ bytes).take k = m.head ++ bytes.take (k - 9) := by
      rw [List.take_append, List.take_of_length_le (hhead ▸ hlong), hhead]
    refine ⟨n, hn, ?_, fun i hi => ?_⟩
    · exact decode_eq_ok_iff.2 ⟨_, read_eq_ok_iff.2 ⟨_, htake, Prod.ext hread rfl⟩⟩
    · have hsum : ((m.attributes.take (i + 1)).map fun a => 3 + a.value.length).sum =
          Attribute.sizeAll (m.attributes.take (i + 1)) := rfl
      rw [hends i hi, hsum]
      omega

/-- An accept that brings the number and the key of a session. -/
def twoWords : Message :=
  ⟨.accept, .lte, 0, [.ofWord Attribute.sessionId 42, .ofWord Attribute.bondingKey 7]⟩

/-- A key of which two bytes are left is not read as a shorter one. -/
theorem decode_take_within_key : ∃ packet, twoWords.encode = .ok packet ∧ 21 ≤ packet.length ∧
    decode (packet.take 21) =
      .ok { twoWords with attributes := [.ofWord Attribute.sessionId 42] } := by
  obtain ⟨packet, hb⟩ : ∃ packet, twoWords.encode = .ok packet := ⟨_, rfl⟩
  have hlength : packet.length = 23 := by
    obtain ⟨-, bytes, hbytes, rfl⟩ := encode_eq_ok_iff.1 hb
    rw [List.length_append, Attribute.length_of_encodeAll hbytes]
    rfl
  obtain ⟨n, -, hread, hends⟩ := (decode_take twoWords packet 21 hb (by omega)).2 (by decide)
  have hfirst : 0 < n := (hends 0 (by decide)).2 (by decide)
  have hsecond : ¬ 1 < n := fun h => absurd ((hends 1 (by decide)).1 h) (by decide)
  obtain rfl : n = 1 := by omega
  exact ⟨packet, hb, by omega, hread⟩

end HybridAccess.Message
