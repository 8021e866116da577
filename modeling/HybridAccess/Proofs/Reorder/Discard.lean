/-
  HybridAccess — packets that are dropped while they wait.

  What a retrieval releases may make late what still waits, and that is
  dropped. `length_retrieve`: every packet that waited leaves, is dropped or
  goes on waiting. Behind a release nothing in the window can become late, so
  that only a first release drops packets: those that lie half of the circle or
  more ahead of the last number it releases (`Strands`, `dropped_eq_nil_iff`).
-/
import Mathlib.Data.List.Induction
import Mathlib.Data.List.Perm.Subperm
import HybridAccess.Proofs.Reorder.Invariant

namespace HybridAccess.Reorder

variable {α : Type}

/-- The number that is dropped in a step. -/
def Step.dropped? : Step α → Option UInt32
  | discarded s => some s
  | _ => none

namespace Buffer

variable {b b' : Buffer α} {now timeout : Duration}

/-- The numbers that are dropped in a list of calls. -/
def dropped (b : Buffer α) (calls : List (Call α)) : List UInt32 :=
  (b.steps calls).filterMap Step.dropped?

/-- Some packet waits half of the circle or more ahead of the last number of the retrieval. -/
def Strands (now timeout : Duration) (b : Buffer α) : Prop :=
  ∃ l, (b.retrieve now timeout).buffer.last = some l ∧
    ∃ p ∈ b.waiting, ahead b.next l + halfCircle ≤ b.offset p

@[simp] theorem dropped_nil (b : Buffer α) : b.dropped [] = [] := rfl

theorem dropped_append (b : Buffer α) (cs ds : List (Call α)) :
    b.dropped (cs ++ ds) = b.dropped cs ++ (b.performAll cs).dropped ds := by
  simp [dropped]

theorem dropped_insert (b : Buffer α) (s : UInt32) (x : α) (now : Duration) :
    b.dropped [.insert s x now] = [] := by
  simp [dropped, stepsOf]

/-! ## One retrieval -/

theorem Drains.dropped {steps : List (Step α)} (h : Drains now timeout b steps b') :
    steps.filterMap Step.dropped? = [] := by
  induction h with
  | stop => rfl
  | @move b b₁ b' p steps _ _ ih =>
    rw [List.filterMap_append, ih, stepsTo]
    split <;> rfl

theorem dropped_retrieve (b : Buffer α) (now timeout : Duration) :
    b.dropped [.retrieve now timeout] =
      ((b.run now timeout).2.waiting.filter fun p =>
        (b.run now timeout).2.isLate p.sequence).map (·.sequence) := by
  have h := (drains_run b now timeout).dropped
  simp only [Buffer.dropped, steps_singleton, stepsOf, retrieve, List.filterMap_append, h,
    discardLate, List.filterMap_map, List.nil_append]
  exact congrFun List.filterMap_eq_map _

/-- **Every packet that waited leaves, is dropped or goes on waiting.** -/
theorem length_retrieve (b : Buffer α) (now timeout : Duration) :
    (b.retrieve now timeout).released.length + (b.dropped [.retrieve now timeout]).length +
      (b.retrieve now timeout).buffer.waiting.length = b.waiting.length := by
  have hperm := (drains_run b now timeout).perm.length_eq
  have hsplit := (b.run now timeout).2.waiting.length_eq_length_filter_add
    fun p => (b.run now timeout).2.isLate p.sequence
  rw [List.length_append] at hperm
  rw [released_retrieve, dropped_retrieve, buffer_retrieve, List.length_map]
  simp only [discardLate]
  omega

/-- No packet leaves that did not wait, and none both leaves and goes on waiting. -/
theorem subperm_retrieve (b : Buffer α) (now timeout : Duration) :
    ((b.retrieve now timeout).released ++ (b.retrieve now timeout).buffer.waiting).Subperm
      b.waiting := by
  rw [released_retrieve, buffer_retrieve]
  exact ((sublist_discardLate _).append_left _).subperm.trans
    (drains_run b now timeout).perm.symm.subperm

theorem retrieve_of_nil (h : b.waiting = []) (now timeout : Duration) :
    b.retrieve now timeout = ⟨b, []⟩ := by
  have hstop : b.advance? now timeout = none := by simp [advance?, take?, overdue, h]
  obtain ⟨capacity, last, waiting⟩ := b
  subst h
  simp [retrieve, run_of_none hstop, discardLate]

/-- What stays comes after the last number that left just if nothing lay too far ahead of it. -/
theorem Drained.forall_after_iff {ps : List (Packet α)} {p : Packet α}
    (hr : Drained now timeout b (ps ++ [p]) b')
    (hperm : b.waiting.Perm (ps ++ [p] ++ b'.waiting)) :
    (∀ q ∈ b'.waiting, after q.sequence p.sequence = true) ↔
      ∀ q ∈ b.waiting, b.offset q < b.offset p + halfCircle := by
  have hhalf : 0 < halfCircle := by decide
  have hlt : ∀ q ∈ b'.waiting, b.offset p < b.offset q := fun q hq => hr.before p (by simp) q hq
  constructor
  · intro h q hq
    rcases List.mem_append.1 (hperm.mem_iff.1 hq) with hq | hq
    · rcases List.mem_append.1 hq with hq | hq
      · have := (List.pairwise_append.1 hr.sorted).2.2 q hq p List.mem_cons_self
        omega
      · rw [List.mem_singleton.1 hq]; omega
    · have := (after_iff_offset (hlt q hq)).1 (h q hq)
      omega
  · intro h q hq
    have := h q (hperm.mem_iff.2 (List.mem_append_right _ hq))
    have := hlt q hq
    exact (after_iff_offset (hlt q hq)).2 (by omega)

/-- **A retrieval drops packets just if it is the first one to release and strands them.** -/
theorem WellFormed.dropped_retrieve_eq_nil_iff (h : b.WellFormed) :
    b.dropped [.retrieve now timeout] = [] ↔ (b.last = none → ¬ b.Strands now timeout) := by
  have hd := drains_run b now timeout
  have hr := hd.drained h.distinct
  have hperm := hd.perm
  have hlast := hd.last
  have hbuffer : (b.retrieve now timeout).buffer.last = (b.run now timeout).2.last := rfl
  rw [dropped_retrieve, List.map_eq_nil_iff, List.filter_eq_nil_iff, Strands, hbuffer]
  simp only [Bool.not_eq_true, isLate_eq_false]
  generalize (b.run now timeout).2 = b' at hd hr hperm hlast
  generalize (b.run now timeout).1.filterMap Step.packet? = ps at hr hperm hlast
  rcases List.eq_nil_or_concat ps with rfl | ⟨ps, p, rfl⟩
  · -- nothing leaves, and the window is kept
    have hkeep : b'.last = b.last := hlast
    rw [hkeep]
    refine iff_of_true (fun q hq l hl => ?_) fun hnone => by simp [hnone]
    exact after_iff.2 (h.window l hl q (hperm.mem_iff.2 hq))
  · have hp : b'.last = some p.sequence := by simpa using hlast
    rw [List.concat_eq_append] at hr hperm
    have hiff := hr.forall_after_iff hperm
    simp only [hp, Option.some.injEq, forall_eq', exists_eq_left', not_exists, not_and, Nat.not_le]
    rw [hiff]
    refine ⟨fun hall _ => hall, fun hall q hq => ?_⟩
    cases hl : b.last with
    | none => exact hall hl q hq
    | some l =>
      have := h.offset_lt_halfCircle hl hq
      omega

/-! ## A whole run -/

/-- **Only a first release drops packets, and only those that it strands.** -/
theorem WellFormed.dropped_eq_nil_iff (h : b.WellFormed) (calls : List (Call α)) :
    b.dropped calls = [] ↔ ∀ pre now timeout, pre ++ [.retrieve now timeout] <+: calls →
      (b.performAll pre).last = none → ¬ (b.performAll pre).Strands now timeout := by
  induction calls using List.reverseRecOn with
  | nil => simp [dropped, steps]
  | append_singleton cs c ih =>
    rw [dropped_append, List.append_eq_nil_iff, ih, forall_retrieve_concat_iff]
    refine and_congr_right' ?_
    cases c with
    | insert s x now => exact iff_of_true (dropped_insert ..) (by rintro _ _ ⟨⟩)
    | retrieve now timeout =>
      refine (h.performAll cs).dropped_retrieve_eq_nil_iff.trans
        ⟨?_, fun hall => hall now timeout rfl⟩
      rintro hd _ _ ⟨⟩
      exact hd
    | reset => exact iff_of_true rfl (by rintro _ _ ⟨⟩)

end Buffer

end HybridAccess.Reorder
