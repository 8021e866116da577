/-
  HybridAccess — packets that are not the session's.

  A packet is forged if its header is unknown, its key is another one than the
  session's or no IP packet is inside. What is behind the filters of a receiving
  half (`inner`) decides which frames leave (`meet_congr`), and a forged packet
  leaves it as it is (`inner_of_forged`). Nothing leaves or waits but the frames
  of the other packets, each at most once (`subperm_meet`). Main statement:
  `forged_packets_unfelt`.
-/
import HybridAccess.Proofs.Data.Account

namespace HybridAccess.Ingress

/-- The protocol number and the payload of a packet with a known header, the key of the session
and an IP packet inside. -/
def Input.content? : Input → Option (UInt16 × Bytes)
  | .packet bytes view _ =>
    match Gre.Header.decode bytes with
    | .ok (header, payload) =>
      if header.key = view.key ∧ Gre.isIP header.protocol then some (header.protocol, payload)
      else none
    | .error _ => none
  | .tick .. => none

/-- Whether an input is a packet without such a content. -/
def Input.isForged : Input → Bool
  | .packet bytes view now => (packet bytes view now).content?.isNone
  | .tick .. => false

/-- The frame of a packet that is not forged: two zero bytes, the protocol number, the payload. -/
def Input.frame? (input : Input) : Option Bytes :=
  input.content?.map fun c => [0, 0] ++ Bytes.be16 c.1 ++ c.2

/-- The inputs that a receiving half meets, each with the frames that leave at it. -/
def exchanges (i : Ingress) : List Input → List (Input × List Bytes)
  | [] => []
  | input :: inputs => (input, (i.meet input).frames) :: (i.meet input).ingress.exchanges inputs

/-- The receiving half after some inputs. -/
def after (i : Ingress) (inputs : List Input) : Ingress :=
  inputs.foldl (fun i input => (i.meet input).ingress) i

/-- The frames that wait. -/
def pending (i : Ingress) : List Bytes := i.buffer.waiting.map (·.payload)

/-- The receiving half behind its filters: packets that pass none of them are not counted. -/
def inner (i : Ingress) : Ingress :=
  { i with counts := { i.counts with malformed := 0, wrongKey := 0, unsupported := 0 } }

/-! ## One input -/

/-- What a packet is found to be, by its content. -/
theorem judge_cases (bytes : Bytes) (view : View) (now : Duration) :
    ((Input.packet bytes view now).content? = none ∧
      ∀ sequence frame, judge bytes view.key ≠ .frame sequence frame) ∨
    ∃ protocol payload sequence,
      (Input.packet bytes view now).content? = some (protocol, payload) ∧
      judge bytes view.key = .frame sequence (Frame.build protocol payload) := by
  simp only [judge, Input.content?]
  cases Gre.Header.decode bytes with
  | error e => exact Or.inl ⟨rfl, fun _ _ h => nomatch h⟩
  | ok p =>
    obtain ⟨header, payload⟩ := p
    by_cases hkey : header.key = view.key
    · cases hip : Gre.isIP header.protocol with
      | true =>
        exact Or.inr ⟨header.protocol, payload, header.sequence, by simp [hkey, hip],
          by simp [hkey, hip]⟩
      | false => exact Or.inl ⟨by simp [hip], fun _ _ h => by simp [hkey, hip] at h⟩
    · exact Or.inl ⟨by simp [hkey], fun _ _ h => by simp [hkey] at h⟩

section
variable (i : Ingress)

theorem inner_accept_of_ne {verdict : Verdict} (h : ∀ sequence frame, verdict ≠ .frame sequence frame)
    (timeout : Option Duration) (now : Duration) :
    (i.accept verdict timeout now).ingress.inner = i.inner := by
  cases verdict with
  | malformed | wrongKey | unsupported => rfl
  | frame sequence frame => exact absurd rfl (h sequence frame)

/-- **A forged packet leaves everything behind the filters as it is.** -/
theorem inner_of_forged {input : Input} (h : input.isForged = true) :
    (i.meet input).ingress.inner = i.inner := by
  cases input with
  | tick => cases h
  | packet bytes view now =>
    rcases judge_cases bytes view now with ⟨-, hne⟩ | ⟨protocol, payload, sequence, hc, -⟩
    · exact i.inner_accept_of_ne hne _ now
    · rw [Input.isForged, hc] at h; cases h

theorem reorder_inner (sequence : UInt32) (frame : Bytes) (now timeout : Duration) :
    (i.inner.reorder sequence frame now timeout).frames =
        (i.reorder sequence frame now timeout).frames ∧
      (i.inner.reorder sequence frame now timeout).ingress.inner =
        (i.reorder sequence frame now timeout).ingress.inner := by
  have hbuffer : i.inner.buffer = i.buffer := rfl
  unfold reorder
  rw [hbuffer]
  cases i.buffer.insert sequence frame now with
  | ok buffer => exact ⟨rfl, rfl⟩
  | error r => cases r <;> exact ⟨rfl, rfl⟩

theorem accept_inner (verdict : Verdict) (timeout : Option Duration) (now : Duration) :
    (i.inner.accept verdict timeout now).frames = (i.accept verdict timeout now).frames ∧
      (i.inner.accept verdict timeout now).ingress.inner =
        (i.accept verdict timeout now).ingress.inner := by
  cases verdict with
  | malformed | wrongKey | unsupported => exact ⟨rfl, rfl⟩
  | frame sequence frame =>
    cases sequence with
    | none => exact ⟨rfl, rfl⟩
    | some sequence =>
      cases timeout with
      | none => exact ⟨rfl, rfl⟩
      | some timeout => exact i.reorder_inner sequence frame now timeout

theorem tick_inner (view : View) (now : Duration) :
    (i.inner.tick view now).frames = (i.tick view now).frames ∧
      (i.inner.tick view now).ingress.inner = (i.tick view now).ingress.inner := by
  have htimeout : i.inner.timeout? view = i.timeout? view := rfl
  have hbuffer : i.inner.buffer = i.buffer := rfl
  unfold tick
  rw [htimeout, hbuffer]
  cases i.timeout? view with
  | none => exact ⟨rfl, rfl⟩
  | some timeout => dsimp only; split <;> exact ⟨rfl, rfl⟩

theorem meet_inner (input : Input) :
    (i.inner.meet input).frames = (i.meet input).frames ∧
      (i.inner.meet input).ingress.inner = (i.meet input).ingress.inner := by
  cases input with
  | packet bytes view now => exact i.accept_inner _ _ now
  | tick view now => exact i.tick_inner view now

/-- **What is behind the filters decides which frames leave, and what is behind them then.** -/
theorem meet_congr {i j : Ingress} (h : i.inner = j.inner) (input : Input) :
    (i.meet input).frames = (j.meet input).frames ∧
      (i.meet input).ingress.inner = (j.meet input).ingress.inner := by
  obtain ⟨hif, hii⟩ := i.meet_inner input
  obtain ⟨hjf, hji⟩ := j.meet_inner input
  rw [← hif, ← hii, ← hjf, ← hji, h]
  exact ⟨rfl, rfl⟩

/-! ## Where the frames come from -/

theorem subperm_release (now timeout : Duration) :
    ((i.release now timeout).frames ++ (i.release now timeout).ingress.pending).Subperm
      i.pending := by
  obtain ⟨packets, hperm, hsub⟩ := i.buffer.subperm_retrieve now timeout
  have hmap := hperm.map (·.payload)
  rw [List.map_append] at hmap
  exact ⟨packets.map (·.payload), hmap, hsub.map _⟩

theorem subperm_reorder (sequence : UInt32) (frame : Bytes) (now timeout : Duration) :
    ((i.reorder sequence frame now timeout).frames ++
        (i.reorder sequence frame now timeout).ingress.pending).Subperm (i.pending ++ [frame]) := by
  rcases i.buffer.insert_refused_or_taken sequence frame now with ⟨r, hi⟩ | ⟨-, -, -, hi⟩
  · simp only [reorder, hi]
    exact (subperm_release { i with counts := i.counts.refuse r } now timeout).trans
      (List.sublist_append_left _ _).subperm
  · have hpush : pending { i with buffer := i.buffer.push ⟨sequence, frame, now⟩ } =
        i.pending ++ [frame] := List.map_append
    simp only [reorder, hi, ← hpush]
    exact subperm_release _ now timeout

/-- **What leaves and what waits behind an input waited before it, or is its frame.** -/
theorem subperm_meet (input : Input) :
    ((i.meet input).frames ++ (i.meet input).ingress.pending).Subperm
      (i.pending ++ input.frame?.toList) := by
  have hquiet : i.pending.Subperm (i.pending ++ input.frame?.toList) :=
    (List.sublist_append_left _ _).subperm
  cases input with
  | tick view now =>
    simp only [meet, tick]
    split
    · split
      · exact hquiet
      · exact (i.subperm_release now _).trans hquiet
    · exact hquiet
  | packet bytes view now =>
    simp only [meet, receive]
    rcases judge_cases bytes view now with ⟨-, hne⟩ | ⟨protocol, payload, sequence, hc, hjudge⟩
    · cases hjudge : judge bytes view.key with
      | malformed | wrongKey | unsupported => exact hquiet
      | frame sequence frame => exact absurd hjudge (hne sequence frame)
    · have hframe : (Input.packet bytes view now).frame? =
          some (Frame.build protocol payload) := by
        rw [Input.frame?, hc, Frame.build_eq]
        rfl
      rw [hjudge, hframe]
      cases sequence with
      | none => exact List.perm_append_comm.subperm
      | some sequence =>
        cases i.timeout? view with
        | none => exact List.perm_append_comm.subperm
        | some timeout => exact i.subperm_reorder sequence _ now timeout

end

/-! ## A whole course -/

theorem exchanges_filter {i j : Ingress} (h : i.inner = j.inner) (inputs : List Input) :
    ((i.exchanges inputs).filter fun e => ! e.1.isForged) =
        j.exchanges (inputs.filter fun input => ! input.isForged) ∧
      (i.after inputs).inner = (j.after (inputs.filter fun input => ! input.isForged)).inner := by
  induction inputs generalizing i j with
  | nil => exact ⟨rfl, h⟩
  | cons input inputs ih =>
    cases hf : input.isForged with
    | true =>
      have hnext : (i.meet input).ingress.inner = j.inner := (i.inner_of_forged hf).trans h
      simpa [exchanges, after, hf] using ih hnext
    | false =>
      obtain ⟨hframes, hnext⟩ := meet_congr h input
      simpa [exchanges, after, hf, hframes] using ih hnext

theorem subperm_after (i : Ingress) (inputs : List Input) :
    ((i.exchanges inputs).flatMap (·.2) ++ (i.after inputs).pending).Subperm
      (i.pending ++ inputs.filterMap Input.frame?) := by
  induction inputs generalizing i with
  | nil => exact (List.append_nil _).symm ▸ List.Subperm.refl _
  | cons input inputs ih =>
    have hrest := ih (i.meet input).ingress
    have hfirst := i.subperm_meet input
    simp only [exchanges, after, List.foldl_cons, List.flatMap_cons] at hrest ⊢
    rw [← after] at hrest ⊢
    have hframes : (input :: inputs).filterMap Input.frame? =
        input.frame?.toList ++ inputs.filterMap Input.frame? := by
      cases hf : input.frame? <;> simp [hf]
    rw [hframes, List.append_assoc, ← List.append_assoc i.pending]
    refine ((List.subperm_append_left _).2 hrest).trans ?_
    rw [← List.append_assoc]
    exact (List.subperm_append_right _).2 hfirst

theorem Input.frame?_eq_some {input : Input} {frame : Bytes} (h : input.frame? = some frame) :
    ∃ bytes view now header payload, input = .packet bytes view now ∧
      Gre.Header.decode bytes = .ok (header, payload) ∧ header.key = view.key ∧
      (header.protocol = 0x0800 ∨ header.protocol = 0x86DD) ∧
      frame = [0, 0] ++ Bytes.be16 header.protocol ++ payload := by
  obtain ⟨c, hc, rfl⟩ := Option.map_eq_some_iff.1 h
  cases input with
  | tick => cases hc
  | packet bytes view now =>
    simp only [content?] at hc
    split at hc
    · next header payload hd =>
      split at hc
      · next hpass =>
        cases hc
        refine ⟨bytes, view, now, header, payload, rfl, hd, hpass.1, ?_, rfl⟩
        simpa [Gre.isIP, Gre.ipv4Protocol, Gre.ipv6Protocol] using hpass.2
      · cases hc
    · cases hc

/-- **Forged packets have no influence, and what leaves comes from the others.** Without the forged
packets the other inputs are answered with the same frames, and the same packets wait and are
counted behind the filters. Each frame that leaves waited at the start or is made of the content of
a packet that was received, and no packet makes more than one. -/
theorem forged_packets_unfelt (i : Ingress) (inputs : List Input) :
    let others := inputs.filter fun input => ! input.isForged
    let frames := (i.exchanges inputs).flatMap (·.2)
    let whole := i.after inputs
    let part := i.after others
    ((i.exchanges inputs).filter fun e => ! e.1.isForged) = i.exchanges others ∧
    part.buffer = whole.buffer ∧
    part.counts.late = whole.counts.late ∧ part.counts.duplicate = whole.counts.duplicate ∧
    part.counts.overflow = whole.counts.overflow ∧
    part.counts.delivered = whole.counts.delivered ∧
    (frames ++ whole.pending).Subperm (i.pending ++ inputs.filterMap Input.frame?) ∧
    ∀ frame ∈ frames, frame ∈ i.pending ∨
      ∃ bytes view now header payload, Input.packet bytes view now ∈ inputs ∧
        Gre.Header.decode bytes = .ok (header, payload) ∧ header.key = view.key ∧
        (header.protocol = 0x0800 ∨ header.protocol = 0x86DD) ∧
        frame = [0, 0] ++ Bytes.be16 header.protocol ++ payload := by
  intro others frames whole part
  obtain ⟨hanswers, hinner⟩ := exchanges_filter (rfl : i.inner = i.inner) inputs
  have hcounts : whole.inner.counts = part.inner.counts := congrArg (·.counts) hinner
  have hsub := i.subperm_after inputs
  refine ⟨hanswers, congrArg (·.buffer) hinner.symm, congrArg (·.late) hcounts.symm,
    congrArg (·.duplicate) hcounts.symm, congrArg (·.overflow) hcounts.symm,
    congrArg (·.delivered) hcounts.symm, hsub, fun frame hframe => ?_⟩
  rcases List.mem_append.1 (hsub.subset (List.mem_append_left _ hframe)) with hold | hnew
  · exact Or.inl hold
  · obtain ⟨input, hinput, hf⟩ := List.mem_filterMap.1 hnew
    obtain ⟨bytes, view, now, header, payload, rfl, hpacket⟩ := Input.frame?_eq_some hf
    exact Or.inr ⟨bytes, view, now, header, payload, hinput, hpacket⟩

end HybridAccess.Ingress
