/-
  HybridAccess — what becomes of the packets that are received.

  Every packet counts as delivered, or as dropped for one of six reasons, or it
  waits. `Meets` says this of one packet or tick, and `accounted_iff` of a whole
  course: the counts and the packets that wait add up to the packets received,
  unless the first release of the reorder buffer strands packets. Those are
  dropped without being counted.
-/
import HybridAccess.Data.Ingress
import HybridAccess.Proofs.Reorder.Discard

namespace HybridAccess.Ingress

open Reorder (Buffer Call Policy)

/-- What the receiving half meets. -/
inductive Input
  | packet (bytes : Bytes) (view : View) (now : Duration)
  | tick (view : View) (now : Duration)

/-- The packets among some inputs. -/
def received (inputs : List Input) : Nat :=
  inputs.countP fun
    | .packet .. => true
    | .tick .. => false

/-- What happens in an input. -/
def meet (i : Ingress) : Input → Outcome
  | .packet bytes view now => i.receive bytes view now
  | .tick view now => i.tick view now

/-- The receiving half after some inputs, and all frames that left. -/
structure Course where
  ingress : Ingress
  frames : List Bytes

/-- The course with one more input. -/
def Course.next (k : Course) (input : Input) : Course :=
  let o := k.ingress.meet input
  ⟨o.ingress, k.frames ++ o.frames⟩

/-- The course of a new receiving half that meets some inputs. -/
def run (policy : Policy) (inputs : List Input) : Course :=
  inputs.foldl Course.next ⟨.initial policy, []⟩

/-- The packets whose fate is counted. -/
def Counts.total (c : Counts) : Nat :=
  c.delivered + c.malformed + c.wrongKey + c.unsupported + c.late + c.duplicate + c.overflow

/-- The calls that an input makes of the reorder buffer. -/
def Input.calls (policy : Policy) : Input → List (Call Bytes)
  | .packet bytes view now =>
    match judge bytes view.key, policy.timeout? view.lteRoundTrip view.dslRoundTrip with
    | .frame (some sequence) frame, some timeout =>
      [.insert sequence frame now, .retrieve now timeout]
    | _, _ => []
  | .tick view now =>
    match policy.timeout? view.lteRoundTrip view.dslRoundTrip with
    | some timeout => [.retrieve now timeout]
    | none => []

/-! ## One input -/

/-- What meeting some packets does, which make the given calls of the buffer. -/
structure Meets (i : Ingress) (packets : Nat) (calls : List (Call Bytes)) (o : Outcome) :
    Prop where
  policy : o.ingress.policy = i.policy
  buffer : o.ingress.buffer = i.buffer.performAll calls
  delivered : o.ingress.counts.delivered = i.counts.delivered + o.frames.length
  balance : o.ingress.counts.total + o.ingress.buffer.waiting.length +
    (i.buffer.dropped calls).length = i.counts.total + i.buffer.waiting.length + packets

section
variable (i : Ingress)

theorem meets_release (now timeout : Duration) :
    Meets i 0 [.retrieve now timeout] (i.release now timeout) := by
  have h := i.buffer.length_retrieve now timeout
  refine ⟨rfl, rfl, rfl, ?_⟩
  simp only [release, Counts.total, List.length_map]
  omega

theorem total_refuse (c : Counts) (r : Reorder.Refusal) :
    (c.refuse r).total = c.total + 1 ∧ (c.refuse r).delivered = c.delivered := by
  cases r <;> exact ⟨by simp only [Counts.refuse, Counts.total]; omega, rfl⟩

end

/-- One thing after another. -/
theorem Meets.trans {i : Ingress} {m n : Nat} {cs ds : List (Call Bytes)} {o o' : Outcome}
    (h : Meets i m cs o) (h' : Meets o.ingress n ds o') (entries : List Log.Entry) :
    Meets i (m + n) (cs ++ ds) ⟨o.frames ++ o'.frames, entries, o'.ingress⟩ := by
  refine ⟨h'.policy.trans h.policy, ?_, ?_, ?_⟩
  · rw [Buffer.performAll_append, ← h.buffer]; exact h'.buffer
  · rw [h'.delivered, h.delivered, List.length_append, Nat.add_assoc]
  · have h₁ := h.balance
    have h₂ := h'.balance
    rw [Buffer.dropped_append, List.length_append, ← h.buffer]
    dsimp only
    omega

section
variable (i : Ingress) {sequence : UInt32} {frame : Bytes} {now : Duration}

theorem meets_refused {r : Reorder.Refusal} (h : i.buffer.insert sequence frame now = .error r) :
    Meets i 1 [.insert sequence frame now] ⟨[], [], { i with counts := i.counts.refuse r }⟩ := by
  obtain ⟨ht, hd⟩ := total_refuse i.counts r
  refine ⟨rfl, (Buffer.perform_insert_of_error h).symm, hd, ?_⟩
  rw [Buffer.dropped_insert, ht]
  simp only [List.length_nil]
  omega

theorem meets_taken (h : i.buffer.insert sequence frame now =
      .ok (i.buffer.push ⟨sequence, frame, now⟩)) :
    Meets i 1 [.insert sequence frame now]
      ⟨[], [], { i with buffer := i.buffer.push ⟨sequence, frame, now⟩ }⟩ := by
  refine ⟨rfl, (Buffer.perform_insert_of_ok h).symm, rfl, ?_⟩
  rw [Buffer.dropped_insert]
  simp only [Buffer.push, List.length_append, List.length_cons, List.length_nil]
  omega

theorem meets_reorder (sequence : UInt32) (frame : Bytes) (now timeout : Duration) :
    Meets i 1 [.insert sequence frame now, .retrieve now timeout]
      (i.reorder sequence frame now timeout) := by
  rcases i.buffer.insert_refused_or_taken sequence frame now with ⟨r, hi⟩ | ⟨-, -, -, hi⟩
  · simp only [reorder, hi]
    exact (i.meets_refused hi).trans (meets_release _ now timeout) _
  · simp only [reorder, hi]
    exact (i.meets_taken hi).trans (meets_release _ now timeout) _

theorem meets_accept (verdict : Verdict) (timeout : Option Duration) (now : Duration) :
    Meets i 1
      (match verdict, timeout with
        | .frame (some sequence) frame, some timeout =>
          [.insert sequence frame now, .retrieve now timeout]
        | _, _ => [])
      (i.accept verdict timeout now) := by
  have hcount : ∀ {c : Counts} {frames entries}, c.total = i.counts.total + 1 →
      c.delivered = i.counts.delivered + frames.length →
      Meets i 1 [] ⟨frames, entries, { i with counts := c }⟩ := fun hc hd =>
    ⟨rfl, rfl, hd, by simp only [hc, Buffer.dropped_nil, List.length_nil]; omega⟩
  cases verdict with
  | malformed | wrongKey | unsupported =>
    exact hcount (by simp only [Counts.total]; omega) rfl
  | frame sequence frame =>
    cases sequence with
    | none => exact hcount (by simp only [Counts.total]; omega) rfl
    | some sequence =>
      cases timeout with
      | none => exact hcount (by simp only [Counts.total]; omega) rfl
      | some timeout => exact i.meets_reorder sequence frame now timeout

theorem meets_tick (view : View) (now : Duration) :
    Meets i 0 ((Input.tick view now).calls i.policy) (i.tick view now) := by
  have hquiet : Meets i 0 [] ⟨[], [], i⟩ :=
    ⟨rfl, rfl, rfl, by simp only [Buffer.dropped_nil, List.length_nil]⟩
  simp only [tick, Input.calls, timeout?]
  cases i.policy.timeout? view.lteRoundTrip view.dslRoundTrip with
  | none => exact hquiet
  | some timeout =>
    dsimp only
    split
    · next h =>
      -- nothing waits, and a retrieval would do nothing
      have hr := Buffer.retrieve_of_nil (List.isEmpty_iff.1 h) now timeout
      have hb : i.buffer.perform (.retrieve now timeout) = i.buffer := by
        simp only [Buffer.perform, hr]
      refine ⟨rfl, hb.symm, rfl, ?_⟩
      simp [Buffer.dropped, Buffer.stepsOf, hr]
    · exact i.meets_release now timeout

/-- **Every packet is delivered, dropped or waits.** -/
theorem meets_meet (input : Input) :
    Meets i (received [input]) (input.calls i.policy) (i.meet input) := by
  cases input with
  | packet bytes view now => exact i.meets_accept _ _ now
  | tick view now => exact i.meets_tick view now

end

/-! ## A whole course -/

/-- The calls that some inputs make of the reorder buffer. -/
def calls (policy : Policy) (inputs : List Input) : List (Call Bytes) :=
  inputs.flatMap (Input.calls policy)

theorem meets_run (policy : Policy) (inputs : List Input) :
    Meets (.initial policy) (received inputs) (calls policy inputs)
      ⟨(run policy inputs).frames, [], (run policy inputs).ingress⟩ := by
  induction inputs using List.reverseRecOn with
  | nil => exact ⟨rfl, rfl, rfl, rfl⟩
  | append_singleton inputs input ih =>
    have hpolicy : (run policy inputs).ingress.policy = policy := ih.policy
    have hnext := meets_meet (run policy inputs).ingress input
    rw [hpolicy] at hnext
    have hrun : run policy (inputs ++ [input]) = (run policy inputs).next input := by
      simp [run]
    have hcalls : calls policy (inputs ++ [input]) = calls policy inputs ++ input.calls policy := by
      simp [calls]
    have hreceived : received (inputs ++ [input]) = received inputs + received [input] :=
      List.countP_append
    rw [hrun, hcalls, hreceived]
    exact ih.trans hnext []

/-- **The counts and the packets that wait add up to the packets received, and as many frames left
as are counted, unless the first release of the reorder buffer strands packets.** -/
theorem accounted_iff (policy : Policy) (inputs : List Input) :
    let k := run policy inputs
    let b := Buffer.empty Reorder.defaultCapacity
    k.ingress.counts.delivered = k.frames.length ∧
    received inputs = k.ingress.counts.total + k.ingress.buffer.waiting.length +
      (b.dropped (calls policy inputs)).length ∧
    (received inputs = k.ingress.counts.total + k.ingress.buffer.waiting.length ↔
      ∀ pre now timeout, pre ++ [.retrieve now timeout] <+: calls policy inputs →
        (b.performAll pre).last = none → ¬ (b.performAll pre).Strands now timeout) := by
  intro k b
  have h := meets_run policy inputs
  have hdelivered : k.ingress.counts.delivered = 0 + k.frames.length := h.delivered
  have hbalance : k.ingress.counts.total + k.ingress.buffer.waiting.length +
      (b.dropped (calls policy inputs)).length = 0 + 0 + received inputs := h.balance
  have hw : b.WellFormed := .empty _
  refine ⟨by omega, by omega, Iff.trans ?_ (hw.dropped_eq_nil_iff _)⟩
  rw [← List.length_eq_zero_iff]
  omega

/-- Two packets far apart, the second one of which leaves at once: the first one does not wait any
more, and no count tells of it. -/
theorem not_accounted :
    let inputs := [
      .packet [0x30, 0, 8, 0, 0, 0, 0, 0, 0x80, 0, 0, 4, 0x45] .default .zero,
      .packet [0x30, 0, 8, 0, 0, 0, 0, 0, 0, 0, 0, 1, 0x45] .default .zero]
    let k := run (.fixed (.ofSeconds 1)) inputs
    received inputs = 2 ∧ k.ingress.counts.total = 1 ∧ k.ingress.buffer.waiting = [] ∧
      k.ingress.counts.delivered = 1 ∧ k.frames.length = 1 := by
  decide +kernel

end HybridAccess.Ingress
