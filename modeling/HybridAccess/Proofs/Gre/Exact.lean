/-
  HybridAccess — which packets start with a header.

  The writer gives each header bytes of its own, and the reader takes a header
  from these bytes and from no others (`decode_eq_ok_iff`). `Headless` lists
  why there is no header at the front of a packet (`decode_eq_error_iff`). Main
  statement: `decode_inverts_encode`.
-/
import HybridAccess.Gre.Header

namespace HybridAccess

namespace Bytes

theorem word16_eq_iff {a b : UInt8} {w : UInt16} : word16 a b = w ↔ [a, b] = be16 w := by
  constructor
  · rintro rfl
    exact (be16_word16 a b).symm
  · intro h
    cases h
    exact word16_be16 w

theorem exists_four {bytes : Bytes} (h : 4 ≤ bytes.length) :
    ∃ a b c d rest, bytes = a :: b :: c :: d :: rest := by
  rcases bytes with _ | ⟨a, _ | ⟨b, _ | ⟨c, _ | ⟨d, rest⟩⟩⟩⟩
  case cons.cons.cons.cons => exact ⟨a, b, c, d, rest, rfl⟩
  all_goals simp at h

theorem exists_eight {bytes : Bytes} (h : 8 ≤ bytes.length) :
    ∃ a b c d a' b' c' d' rest, bytes = a :: b :: c :: d :: a' :: b' :: c' :: d' :: rest := by
  obtain ⟨a, b, c, d, behind, rfl⟩ := exists_four (Nat.le_trans (by decide) h)
  have hbehind : 4 ≤ behind.length := by simpa using h
  obtain ⟨a', b', c', d', rest, rfl⟩ := exists_four hbehind
  exact ⟨a, b, c, d, a', b', c', d', rest, rfl⟩

end Bytes

namespace Gre.Header

variable {packet rest : Bytes} {h : Header} {e : PacketError}

theorem decode_eq_ok_iff : decode packet = .ok (h, rest) ↔ packet = h.encode ++ rest := by
  constructor
  · exact eq_encode_append_of_decode
  · rintro rfl
    exact decode_encode_append h rest

/-- Two headers at the front of the same packet are the same one. -/
theorem eq_of_isPrefix {h' : Header} (hp : h.encode <+: packet) (hp' : h'.encode <+: packet) :
    h = h' := by
  obtain ⟨rest, hrest⟩ := hp
  obtain ⟨rest', hrest'⟩ := hp'
  have hd := decode_eq_ok_iff.2 hrest.symm
  rw [decode_eq_ok_iff.2 hrest'.symm] at hd
  cases hd
  rfl

/-! ## Packets without a header -/

/-- Why no header stands at the front of a packet. -/
inductive Headless (packet : Bytes) : PacketError → Prop
  | short (short : packet.length < 8) : Headless packet (.invalidLength 8 packet.length)
  | flags (f₀ f₁ : UInt8) (rest : Bytes) (front : packet = f₀ :: f₁ :: rest)
    (long : 8 ≤ packet.length) (plain : [f₀, f₁] ≠ [0x20, 0x00])
    (sequenced : [f₀, f₁] ≠ [0x30, 0x00]) : Headless packet (.invalidFlags (Bytes.word16 f₀ f₁))
  | cut (rest : Bytes) (front : packet = 0x30 :: 0x00 :: rest) (long : 8 ≤ packet.length)
    (short : packet.length < 12) : Headless packet (.invalidLength 12 packet.length)

theorem word16_eq_keyFlags {a b : UInt8} : Bytes.word16 a b = keyFlags ↔ [a, b] = [0x20, 0x00] := by
  have hflags : Bytes.be16 keyFlags = [0x20, 0x00] := by decide
  rw [Bytes.word16_eq_iff, hflags]

theorem word16_eq_sequenceFlags {a b : UInt8} :
    Bytes.word16 a b = sequenceFlags ↔ [a, b] = [0x30, 0x00] := by
  have hflags : Bytes.be16 sequenceFlags = [0x30, 0x00] := by decide
  rw [Bytes.word16_eq_iff, hflags]

theorem decode_of_short (hs : packet.length < 8) :
    decode packet = .error (.invalidLength 8 packet.length) := by
  unfold decode
  split
  · simp only [List.length_cons] at hs
    omega
  · rfl

theorem headless_of_decode (he : decode packet = .error e) : Headless packet e := by
  rcases Nat.lt_or_ge packet.length 8 with hs | hl
  · rw [decode_of_short hs] at he
    cases he
    exact .short hs
  obtain ⟨f₀, f₁, p₀, p₁, k₀, k₁, k₂, k₃, rest, rfl⟩ := Bytes.exists_eight hl
  simp only [decode] at he
  split at he
  · cases he
  · next hkey =>
    split at he
    · next hseq =>
      cases word16_eq_sequenceFlags.1 hseq
      split at he
      · cases he
      · next hcut =>
        -- with four more bytes the sequence number would have been read
        have hrest : rest.length < 4 := by
          refine Nat.lt_of_not_le fun hlong => ?_
          obtain ⟨s₀, s₁, s₂, s₃, rest, rfl⟩ := Bytes.exists_four hlong
          exact hcut _ _ _ _ _ rfl
        cases he
        refine .cut _ rfl hl ?_
        simp only [List.length_cons]
        omega
    · next hseq =>
      cases he
      exact .flags _ _ _ rfl hl (mt word16_eq_keyFlags.2 hkey) (mt word16_eq_sequenceFlags.2 hseq)

theorem decode_of_headless (hh : Headless packet e) : decode packet = .error e := by
  cases hh with
  | short hs => exact decode_of_short hs
  | flags f₀ f₁ rest front long plain sequenced =>
    obtain ⟨_, _, p₀, p₁, k₀, k₁, k₂, k₃, rest, rfl⟩ := Bytes.exists_eight long
    cases front
    simp only [decode, if_neg (mt word16_eq_keyFlags.1 plain),
      if_neg (mt word16_eq_sequenceFlags.1 sequenced)]
  | cut rest front long short =>
    obtain ⟨_, _, p₀, p₁, k₀, k₁, k₂, k₃, rest, rfl⟩ := Bytes.exists_eight long
    cases front
    have hkey : ¬ Bytes.word16 0x30 0x00 = keyFlags := by decide
    have hseq : Bytes.word16 0x30 0x00 = sequenceFlags := by decide
    simp only [decode, if_neg hkey, if_pos hseq]
    split
    · simp only [List.length_cons] at short
      omega
    · rfl

theorem decode_eq_error_iff : decode packet = .error e ↔ Headless packet e :=
  ⟨headless_of_decode, decode_of_headless⟩

/-! ## Main statement -/

/-- **A header is read just from the bytes that are written for it, whatever follows them, and any
other packet is refused for what is wrong at its front.** Its payload begins where the written
header ends, no two headers are written alike, and writing behind a buffer keeps what it holds. -/
theorem decode_inverts_encode (packet : Bytes) :
    (∀ h offset, offset ≤ packet.length ∧ decode packet = .ok (h, packet.drop offset) ↔
      offset = h.encodedLength ∧ h.encode <+: packet) ∧
    (∀ h, decode (h.encode ++ packet) = .ok (h, packet)) ∧
    (∀ h rest, decode packet = .ok (h, rest) → h.encode ++ rest = packet) ∧
    (∀ h h' : Header, h.encode = h'.encode → h = h') ∧
    (∀ e, decode packet = .error e ↔ Headless packet e) ∧
    ∀ h : Header, h.encodeInto packet = packet ++ h.encode := by
  refine ⟨fun h offset => ?_, fun h => decode_encode_append h packet,
    fun h rest hd => (eq_encode_append_of_decode hd).symm, fun h h' heq => ?_,
    fun e => decode_eq_error_iff, fun h => encodeInto_eq h packet⟩
  · constructor
    · rintro ⟨hle, hd⟩
      have hp := eq_encode_append_of_decode hd
      have hlength := congrArg List.length hp
      simp only [List.length_append, length_encode, List.length_drop] at hlength
      exact ⟨by omega, _, hp.symm⟩
    · rintro ⟨rfl, rest, rfl⟩
      refine ⟨by simp, ?_⟩
      rw [← length_encode, List.drop_left]
      exact decode_encode_append h rest
  · have hself : h.encode <+: h.encode := List.prefix_refl _
    exact eq_of_isPrefix hself (heq ▸ hself)

end Gre.Header

end HybridAccess
