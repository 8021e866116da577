/-
  HybridAccess — two planes, and the packets that each of them takes.

  Three readers look at the head of a packet: two of its bytes lead it to a
  plane (`Plane.of?`), a control message has a strict header (`Message.decode`),
  and the data plane has its filters (`Ingress.judge`). All three find the same
  protocol number at the same place (`Gre.peekProtocol_of_decode`), and no number
  is that of control messages and that of IP packets. So a packet that a plane
  accepts is led there (`Plane.Accepts.of?_eq`). Main statement:
  `Plane.of?_agrees`.
-/
import HybridAccess.Data.Plane
import HybridAccess.Proofs.Data.Forged
import HybridAccess.Proofs.Message.Written

namespace HybridAccess

/-- Whether a plane has a use for a packet: as a control message, or as a frame of the session. -/
def Plane.Accepts (packet : Bytes) (key : UInt32) : Plane → Prop
  | .control => ∃ m, Message.decode packet = .ok m
  | .data => ∃ sequence frame, Ingress.judge packet key = .frame sequence frame

/-! ## The protocol number -/

namespace Gre

/-- The protocol number stands at the same place in every header. -/
theorem peekProtocol_of_decode {packet body : Bytes} {h : Header}
    (hd : Header.decode packet = .ok (h, body)) : peekProtocol packet = some h.protocol := by
  rw [Header.eq_encode_append_of_decode hd]
  exact congrArg some (Bytes.word16_be16 h.protocol)

theorem ne_controlProtocol_of_isIP {protocol : UInt16} (h : isIP protocol = true) :
    protocol ≠ controlProtocol := by
  rintro rfl
  exact absurd h (by decide)

/-- The header of a packet is not refused for its protocol number. -/
theorem Header.decode_ne_notControl (packet : Bytes) (protocol : UInt16) :
    decode packet ≠ .error (.notControl protocol) := by
  intro h
  unfold decode at h
  split at h
  · simp only at h
    split at h
    · cases h
    · split at h
      · split at h <;> cases h
      · cases h
  · cases h

end Gre

namespace Message
variable {packet : Bytes}

theorem peekProtocol_of_decode {m : Message} (h : decode packet = .ok m) :
    Gre.peekProtocol packet = some Gre.controlProtocol := by
  obtain ⟨left, hread⟩ := decode_eq_ok_iff.1 h
  obtain ⟨type, body, rfl, -⟩ := head_of_read hread
  exact Gre.peekProtocol_of_decode (Gre.Header.decode_encode_append _ _)

/-- Only a packet with another protocol number is refused for it. -/
theorem peekProtocol_of_notControl {protocol : UInt16}
    (h : read packet = .error (.notControl protocol)) :
    Gre.peekProtocol packet = some protocol ∧ protocol ≠ Gre.controlProtocol := by
  rcases read_cases packet with ⟨e, hd, he⟩ | ⟨header, body, hd, hcases⟩
  · cases he.symm.trans h
    exact absurd hd (Gre.Header.decode_ne_notControl packet protocol)
  · rcases hcases with ⟨-, he⟩ | ⟨-, hne, he⟩ | ⟨-, -, hcases⟩
    · cases he.symm.trans h
    · cases he.symm.trans h
      exact ⟨Gre.peekProtocol_of_decode hd, hne⟩
    · -- behind the check of the number, no error is about it
      rcases hcases with ⟨-, he⟩ | ⟨type, rest, -, ⟨-, he⟩ | ⟨-, he⟩ | ⟨tunnel, kind, -, -, he⟩⟩ <;>
        cases he.symm.trans h

theorem read_of_decode_error {e : PacketError} (h : decode packet = .error e) :
    read packet = .error e := by
  unfold decode at h
  cases hr : read packet with
  | error e' => rw [hr] at h; cases h; rfl
  | ok r => rw [hr] at h; cases h

end Message

namespace Ingress

/-- A frame has a header with the key of the session, and an IP packet is behind it. -/
theorem header_of_judge {packet frame : Bytes} {key : UInt32} {sequence : Option UInt32}
    (h : judge packet key = .frame sequence frame) :
    ∃ header body, Gre.Header.decode packet = .ok (header, body) ∧ header.key = key ∧
      Gre.isIP header.protocol = true := by
  unfold judge at h
  split at h
  · cases h
  · next header body hd =>
    split at h
    · cases h
    · next hkey =>
      split at h
      · cases h
      · next hip => exact ⟨header, body, hd, not_not.1 hkey, by simpa using hip⟩

/-- A packet that is no frame leaves nothing behind but a count. -/
theorem receive_of_not_frame (i : Ingress) {packet : Bytes} {view : View}
    (h : ∀ sequence frame, judge packet view.key ≠ .frame sequence frame) (now : Duration) :
    (i.receive packet view now).frames = [] ∧
      (i.receive packet view now).ingress.buffer = i.buffer := by
  rw [receive]
  cases hv : judge packet view.key with
  | malformed | wrongKey | unsupported => exact ⟨rfl, rfl⟩
  | frame sequence frame => exact absurd hv (h sequence frame)

end Ingress

/-! ## Where a packet is led -/

namespace Plane
variable {packet : Bytes} {key : UInt32}

theorem of?_server (packet : Bytes) (server : IPv6) : of? packet server server =
    (Gre.peekProtocol packet).map fun p => if p = Gre.controlProtocol then control else data :=
  if_neg (not_not.2 rfl)

/-- **A packet of the server is led to the plane that accepts it.** -/
theorem Accepts.of?_eq {plane : Plane} (h : plane.Accepts packet key) (server : IPv6) :
    of? packet server server = some plane := by
  rw [of?_server]
  cases plane with
  | control =>
    obtain ⟨m, hm⟩ := h
    rw [Message.peekProtocol_of_decode hm]
    rfl
  | data =>
    obtain ⟨sequence, frame, hjudge⟩ := h
    obtain ⟨header, body, hd, -, hip⟩ := Ingress.header_of_judge hjudge
    rw [Gre.peekProtocol_of_decode hd, Option.map_some,
      if_neg (Gre.ne_controlProtocol_of_isIP hip)]

/-- A packet that is led to the control plane is not refused for its protocol number. -/
theorem decode_ne_notControl {server : IPv6} (h : of? packet server server = some .control)
    (protocol : UInt16) : Message.decode packet ≠ .error (.notControl protocol) := by
  intro herror
  obtain ⟨hpeek, hne⟩ := Message.peekProtocol_of_notControl (Message.read_of_decode_error herror)
  rw [of?_server, hpeek, Option.map_some, if_neg hne] at h
  cases h

/-- **The plane a packet is led to, and the planes that accept it.** A control message is led to the
control plane, and the data plane would drop it: no frame leaves, and those that wait stay. A frame
of the session is led to the data plane, and is no control message. No plane other than the one a
packet is led to accepts it, and on the control plane no packet turns out to have another protocol
number. -/
theorem of?_agrees (packet : Bytes) (view : View) (server : IPv6) :
    let plane := of? packet server server
    (∀ m, Message.decode packet = .ok m → plane = some .control ∧
      ∀ (i : Ingress) (now : Duration), (i.receive packet view now).frames = [] ∧
        (i.receive packet view now).ingress.buffer = i.buffer) ∧
    (∀ sequence frame, Ingress.judge packet view.key = .frame sequence frame →
      plane = some .data ∧ ∃ e, Message.decode packet = .error e) ∧
    (∀ p : Plane, plane ≠ some p → ¬ p.Accepts packet view.key) ∧
    (plane = some .control → ∀ protocol,
      Message.decode packet ≠ .error (.notControl protocol)) := by
  intro plane
  have hplane : ∀ p : Plane, p.Accepts packet view.key → plane = some p := fun p h =>
    h.of?_eq server
  have hboth : control.Accepts packet view.key → ¬ data.Accepts packet view.key := fun hc hd =>
    nomatch (hplane control hc).symm.trans (hplane data hd)
  refine ⟨fun m hm => ⟨hplane control ⟨m, hm⟩, fun i now => ?_⟩, fun sequence frame hf =>
    ⟨hplane data ⟨sequence, frame, hf⟩, ?_⟩, fun p hne h => hne (hplane p h),
    decode_ne_notControl⟩
  · exact i.receive_of_not_frame (fun sequence frame hf => hboth ⟨m, hm⟩ ⟨sequence, frame, hf⟩) now
  · cases hm : Message.decode packet with
    | error e => exact ⟨e, rfl⟩
    | ok m => exact absurd ⟨sequence, frame, hf⟩ (hboth ⟨m, hm⟩)

end Plane

end HybridAccess
