/-
  HybridAccess — the invariant of the reorder buffer.

  `WellFormed` holds of an empty buffer and is kept by every call
  (`WellFormed.perform`), so that it holds whatever calls were made before. The
  window, in which no number waits that is not after the last one released, is
  kept in three places: late packets are not taken in, the lowest packet leaves
  first, and what became late when the first packet left is dropped.
-/
import HybridAccess.Proofs.Reorder.Drain

namespace HybridAccess.Reorder.Buffer

variable {α : Type} {b : Buffer α}

/-- What holds of a buffer after any calls. -/
structure WellFormed (b : Buffer α) : Prop where
  bounded : b.waiting.length ≤ b.capacity
  distinct : b.Distinct
  window : ∀ l, b.last = some l → ∀ p ∈ b.waiting,
    0 < ahead l p.sequence ∧ ahead l p.sequence < halfCircle

/-- The expected number lies one ahead of the last one. -/
theorem offset_add_one {l : UInt32} (hl : b.last = some l) {p : Packet α}
    (hpos : 0 < ahead l p.sequence) : b.offset p + 1 = ahead l p.sequence := by
  have hnext : b.next = l + 1 := by simp [next, hl]
  have : b.offset p = ahead l p.sequence - ahead l l - 1 := by
    rw [offset, hnext]; exact ahead_succ_of_lt (by rwa [ahead_self])
  rw [this, ahead_self]; omega

/-- Behind a release nothing waits half of the circle ahead. -/
theorem WellFormed.offset_lt_halfCircle (h : b.WellFormed) {l : UInt32} (hl : b.last = some l)
    {p : Packet α} (hp : p ∈ b.waiting) : b.offset p < halfCircle := by
  obtain ⟨hpos, hlt⟩ := h.window l hl p hp
  have := offset_add_one hl hpos
  omega

theorem WellFormed.empty (capacity : Nat) : (Buffer.empty capacity : Buffer α).WellFormed :=
  ⟨Nat.zero_le _, List.nodup_nil, fun _ h => by cases h⟩

theorem WellFormed.push (h : b.WellFormed) {p : Packet α} (hl : b.isLate p.sequence = false)
    (hd : ∀ q ∈ b.waiting, q.sequence ≠ p.sequence) (hc : b.waiting.length < b.capacity) :
    (b.push p).WellFormed := by
  refine ⟨?_, nodup_map_concat h.distinct hd, fun l hlast q hq => ?_⟩
  · simp only [Buffer.push, List.length_append, List.length_singleton]; omega
  · rcases List.mem_append.1 hq with hq | hq
    · exact h.window l hlast q hq
    · rw [List.mem_singleton.1 hq]; exact after_iff.1 (isLate_eq_false.1 hl l hlast)

theorem WellFormed.insert (h : b.WellFormed) (s : UInt32) (x : α) (now : Duration) :
    (b.perform (.insert s x now)).WellFormed := by
  rcases b.perform_insert_cases s x now with ⟨-, hb⟩ | ⟨hl, hd, hc, -, hb⟩
  · rwa [hb]
  · rw [hb]; exact h.push hl hd hc

theorem sublist_retrieve (b : Buffer α) (now timeout : Duration) :
    (b.retrieve now timeout).buffer.waiting.Sublist b.waiting :=
  (sublist_discardLate (b.run now timeout).2).trans (drains_run b now timeout).order

@[simp] theorem capacity_retrieve (b : Buffer α) (now timeout : Duration) :
    (b.retrieve now timeout).buffer.capacity = b.capacity :=
  (drains_run b now timeout).capacity

theorem WellFormed.retrieve (h : b.WellFormed) (now timeout : Duration) :
    (b.retrieve now timeout).buffer.WellFormed := by
  have hsub := sublist_retrieve b now timeout
  refine ⟨?_, h.distinct.sublist (hsub.map _), fun l hlast p hp => ?_⟩
  · rw [capacity_retrieve]; exact Nat.le_trans hsub.length_le h.bounded
  · exact after_iff.1 (isLate_eq_false.1 (mem_discardLate.1 hp).2 l hlast)

theorem WellFormed.reset (b : Buffer α) : b.reset.WellFormed :=
  ⟨Nat.zero_le _, List.nodup_nil, fun _ h => by cases h⟩

/-- **Every call keeps the invariant.** -/
theorem WellFormed.perform (h : b.WellFormed) (c : Call α) : (b.perform c).WellFormed := by
  cases c with
  | insert s x now => exact h.insert s x now
  | retrieve now timeout => exact h.retrieve now timeout
  | reset => exact .reset b

theorem WellFormed.performAll (h : b.WellFormed) (calls : List (Call α)) :
    (b.performAll calls).WellFormed := by
  induction calls generalizing b with
  | nil => exact h
  | cons c cs ih => exact ih (h.perform c)

@[simp] theorem capacity_perform (b : Buffer α) (c : Call α) :
    (b.perform c).capacity = b.capacity := by
  cases c with
  | insert s x now =>
    rcases b.perform_insert_cases s x now with ⟨-, hb⟩ | ⟨-, -, -, -, hb⟩
    · rw [hb]
    · rw [hb]; rfl
  | retrieve now timeout => exact capacity_retrieve b now timeout
  | reset => rfl

theorem capacity_performAll (b : Buffer α) (calls : List (Call α)) :
    (b.performAll calls).capacity = b.capacity := by
  induction calls generalizing b with
  | nil => rfl
  | cons c cs ih => exact (ih _).trans (capacity_perform b c)

theorem settled_retrieve (b : Buffer α) (now timeout : Duration) :
    (b.retrieve now timeout).buffer.Settled now timeout := by
  have h := (drains_run b now timeout).settled
  exact ⟨fun p hp => h.next p (mem_discardLate.1 hp).1,
    fun p hp => h.young p (mem_discardLate.1 hp).1⟩

/-- **The buffer is bounded, free of repetitions and within its window after any calls.** -/
theorem performAll_keeps_window (capacity : Nat) (calls : List (Call α)) :
    let b := (Buffer.empty capacity : Buffer α).performAll calls
    b.waiting.length ≤ capacity ∧ (b.waiting.map (·.sequence)).Nodup ∧
    (∀ l, b.last = some l → ∀ p ∈ b.waiting,
      0 < ahead l p.sequence ∧ ahead l p.sequence < halfCircle) ∧
    (∀ now timeout, let b' := b.perform (.retrieve now timeout)
      ∀ p ∈ b'.waiting, p.sequence ≠ b'.next ∧ p.age now < timeout) ∧
    ∀ s x now, (∀ r, b.answer (.insert s x now) = .refused r → b.perform (.insert s x now) = b) ∧
      (b.answer (.insert s x now) = .accepted →
        b.perform (.insert s x now) = b.push ⟨s, x, now⟩) := by
  intro b
  have h : b.WellFormed := (WellFormed.empty capacity).performAll calls
  refine ⟨?_, h.distinct, h.window, fun now timeout p hp => ?_, fun s x now => ?_⟩
  · have := h.bounded; rwa [capacity_performAll] at this
  · have hs := settled_retrieve b now timeout
    exact ⟨hs.next p hp, Nat.lt_of_not_le (hs.young p hp)⟩
  · rcases b.perform_insert_cases s x now with ⟨⟨r, ha⟩, hb⟩ | ⟨-, -, -, ha, hb⟩
    · refine ⟨fun _ _ => hb, fun ha' => ?_⟩
      rw [ha] at ha'; cases ha'
    · refine ⟨fun _ ha' => ?_, fun _ => hb⟩
      rw [ha] at ha'; cases ha'

end HybridAccess.Reorder.Buffer
