/-
  HybridAccess — the order of what is released.

  Once a packet was released, all that wait lie within half of the circle of
  sequence numbers, and every released number comes after the one before it.
  Before the first release any numbers may wait, and then the buffer goes from
  one waiting packet to the next one up the circle, however far away it is. If
  it has to skip half of the circle or more (`Leaps`), it releases a number that
  is late already. `released_increases_iff`: this is the only way in which a
  run leaves serial order.
-/
import Mathlib.Data.List.Chain
import HybridAccess.Proofs.Reorder.Invariant

namespace HybridAccess.Reorder.Buffer

variable {α : Type} {b b' : Buffer α} {now timeout : Duration}

/-- Two waiting packets with nobody between them lie half of the circle or more apart, and some
packet that is overdue lies at the second one or behind it. -/
def Leaps (now timeout : Duration) (b : Buffer α) : Prop :=
  ∃ p ∈ b.waiting, ∃ q ∈ b.waiting, halfCircle ≤ b.offset q - b.offset p ∧
    (∀ r ∈ b.waiting, b.offset r ≤ b.offset p ∨ b.offset q ≤ b.offset r) ∧
    ∃ r ∈ b.waiting, b.offset q ≤ b.offset r ∧ timeout ≤ r.age now

instance (now timeout : Duration) (b : Buffer α) : Decidable (b.Leaps now timeout) :=
  inferInstanceAs (Decidable (∃ p ∈ b.waiting, ∃ q ∈ b.waiting, _ ∧ _ ∧ ∃ r ∈ b.waiting, _ ∧ _))

/-- The numbers up to which everything is released or given up, one after the other. -/
def trail (b : Buffer α) (calls : List (Call α)) : List UInt32 :=
  (b.steps calls).filterMap Step.reached?

theorem trail_concat (b : Buffer α) (cs : List (Call α)) (c : Call α) :
    b.trail (cs ++ [c]) =
      b.trail cs ++ ((b.performAll cs).stepsOf c).filterMap Step.reached? := by
  simp [trail]

/-! ## One retrieval -/

section
variable {ps : List (Packet α)} (hr : Drained now timeout b ps b')
include hr

/-- A gap between two packets that leave one after the other is a leap if it is wide. -/
theorem Drained.leaps (hperm : b.waiting.Perm (ps ++ b'.waiting)) {l₁ l₂ : List (Packet α)}
    {p q : Packet α} (he : ps = l₁ ++ p :: q :: l₂)
    (hgap : halfCircle ≤ b.offset q - b.offset p) : b.Leaps now timeout := by
  have hs := hr.sorted
  rw [he, List.pairwise_append, List.pairwise_cons, List.pairwise_cons] at hs
  obtain ⟨-, ⟨hp, hq, -⟩, hl⟩ := hs
  have hmem : ∀ r ∈ ps, r ∈ b.waiting := fun r h => hperm.mem_iff.2 (List.mem_append_left _ h)
  have hpps : p ∈ ps := he ▸ by simp
  have hqps : q ∈ ps := he ▸ by simp
  have hpq := hp q List.mem_cons_self
  -- in `ps` nothing stands between the two
  have hadj : ∀ r ∈ ps, b.offset r ≤ b.offset p ∨ b.offset q ≤ b.offset r := by
    intro r hrps
    rw [he] at hrps
    rcases List.mem_append.1 hrps with h | h
    · exact Or.inl (Nat.le_of_lt (hl r h p List.mem_cons_self))
    · rcases List.mem_cons.1 h with rfl | h
      · exact Or.inl (Nat.le_refl _)
      · rcases List.mem_cons.1 h with rfl | h
        · exact Or.inr (Nat.le_refl _)
        · exact Or.inr (Nat.le_of_lt (hq r h))
  refine ⟨p, hmem p hpps, q, hmem q hqps, hgap, fun r hrw => ?_, ?_⟩
  · rcases List.mem_append.1 (hperm.mem_iff.1 hrw) with h | h
    · exact hadj r h
    · exact Or.inr (Nat.le_of_lt (hr.before q hqps r h))
  · have hhalf : 2 ≤ halfCircle := by decide
    rcases hr.due q hqps with h | ⟨r, hrps, h⟩ | h
    · omega
    · rcases hadj r hrps with h' | h' <;> omega
    · exact h

/-- Over a leap a number is released that is late. -/
theorem Drained.not_isChain (hperm : b.waiting.Perm (ps ++ b'.waiting))
    (hset : b'.Settled now timeout) (hleap : b.Leaps now timeout) :
    ¬ (ps.map (·.sequence)).IsChain fun s t => after t s = true := by
  obtain ⟨p, hp, q, hq, hgap, hadj, r, hrw, hle, ho⟩ := hleap
  have hhalf : 2 ≤ halfCircle := by decide
  have hin : ∀ s ∈ b.waiting, s ∈ ps ∨ s ∈ b'.waiting := fun s hs =>
    List.mem_append.1 (hperm.mem_iff.1 hs)
  have hrps : r ∈ ps := (hin r hrw).resolve_right fun h => hset.young r h ho
  have hqps : q ∈ ps := (hin q hq).resolve_right fun h => by
    have := hr.before r hrps q h; omega
  have hpps : p ∈ ps := (hin p hp).resolve_right fun h => by
    have := hr.before r hrps p h; omega
  obtain ⟨l₁, l₂, rfl⟩ := List.append_of_mem hpps
  have hs := hr.sorted
  rw [List.pairwise_append, List.pairwise_cons] at hs
  obtain ⟨-, ⟨hp₂, -⟩, hl⟩ := hs
  have hq₂ : q ∈ l₂ := by
    rcases List.mem_append.1 hqps with h | h
    · have := hl q h p List.mem_cons_self; omega
    · rcases List.mem_cons.1 h with rfl | h
      · omega
      · exact h
  -- the packet that leaves after `p` lies at `q` or behind it
  cases l₂ with
  | nil => cases hq₂
  | cons s l₂ =>
    have hps := hp₂ s List.mem_cons_self
    have hqs : b.offset q ≤ b.offset s := by
      refine (hadj s (hperm.mem_iff.2 (by simp))).resolve_left fun h => ?_
      omega
    intro hc
    rw [List.map_append, List.map_cons, List.map_cons, List.isChain_append_cons_cons] at hc
    have := (after_iff_offset hps).1 hc.2.1
    omega

theorem Drained.isChain_iff (hperm : b.waiting.Perm (ps ++ b'.waiting))
    (hset : b'.Settled now timeout) :
    ((ps.map (·.sequence)).IsChain fun s t => after t s = true) ↔ ¬ b.Leaps now timeout := by
  refine ⟨fun hc hl => hr.not_isChain hperm hset hl hc, fun hl => ?_⟩
  rw [List.isChain_map, List.isChain_iff_forall_rel_of_append_cons_cons]
  intro p q l₁ l₂ he
  have hs := hr.sorted
  rw [he, List.pairwise_append, List.pairwise_cons] at hs
  rw [after_iff_offset (hs.2.1.1 q List.mem_cons_self)]
  exact Nat.lt_of_not_le fun hgap => hl (hr.leaps hperm he hgap)

end

theorem WellFormed.not_leaps (h : b.WellFormed) {l : UInt32} (hl : b.last = some l) :
    ¬ b.Leaps now timeout := by
  rintro ⟨p, -, q, hq, hgap, -⟩
  have := h.offset_lt_halfCircle hl hq
  omega

/-- **One retrieval is in serial order, with the last number before it, unless it is the first and
leaps.** -/
theorem WellFormed.isChain_retrieve_iff (h : b.WellFormed) (now timeout : Duration) :
    ((b.last.toList ++ (b.retrieve now timeout).released.map (·.sequence)).IsChain
      fun s t => after t s = true) ↔ (b.last = none → ¬ b.Leaps now timeout) := by
  have hd := drains_run b now timeout
  have hiff := (hd.drained h.distinct).isChain_iff hd.perm hd.settled
  rw [released_retrieve]
  cases hl : b.last with
  | none => simpa using hiff
  | some l =>
    simp only [reduceCtorEq, false_implies, iff_true, Option.toList_some, List.singleton_append]
    refine (hiff.2 (h.not_leaps hl)).cons fun s hs => ?_
    obtain ⟨p, hp, rfl⟩ := List.mem_map.1 (List.mem_of_mem_head? hs)
    exact after_iff.2 (h.window l hl p (hd.perm.mem_iff.2 (List.mem_append_left _ hp)))

/-! ## The trail of one retrieval -/

/-- The trail never goes back if what is released is in serial order. -/
theorem Drains.isChain_trail {steps : List (Step α)} (h : Drains now timeout b steps b')
    (hc : (b.last.toList ++ (steps.filterMap Step.packet?).map (·.sequence)).IsChain
      fun s t => after t s = true) :
    (b.last.toList ++ steps.filterMap Step.reached?).IsChain fun s t => after s t = false := by
  induction h with
  | @stop b => cases b.last <;> simp
  | @move b b₁ b' p steps hl _ ih =>
    rw [List.filterMap_append, filterMap_packet?_stepsTo, List.map_append] at hc
    obtain ⟨hlast, hnew, hlink⟩ := List.isChain_append.1 hc
    have htail := ih (by rw [hl.last]; exact hnew)
    rw [hl.last, Option.toList_some, List.singleton_append] at htail
    have hlast' : b.last.toList.IsChain fun s t => after s t = false := by cases b.last <;> simp
    rw [List.filterMap_append, stepsTo]
    split
    · refine List.isChain_append.2 ⟨hlast', htail, fun l hl s hs => ?_⟩
      obtain rfl : _ = s := Option.mem_some_iff.1 hs
      exact not_after_of_ahead_lt (after_iff.1 (hlink l hl _ rfl)).2
    · refine List.isChain_append.2 ⟨hlast', htail.cons_cons (not_after_sub_one _),
        fun l hl s hs => ?_⟩
      obtain rfl : _ = s := Option.mem_some_iff.1 hs
      obtain ⟨hpos, hlt⟩ := after_iff.1 (hlink l hl _ rfl)
      refine not_after_of_ahead_lt ?_
      rw [ahead_sub_one hpos]; omega

/-- The last number of the trail is the last number released. -/
theorem Drains.last_trail {steps : List (Step α)} (h : Drains now timeout b steps b') :
    b'.last = (steps.filterMap Step.reached?).getLast?.or b.last := by
  induction h with
  | stop => rfl
  | @move b b₁ b' p steps hl _ ih =>
    have hs : ((b.stepsTo p).filterMap Step.reached?).getLast? = some p.sequence := by
      unfold stepsTo; split <;> rfl
    rw [ih, hl.last, List.filterMap_append, List.getLast?_append, hs]
    cases (steps.filterMap Step.reached?).getLast? <;> rfl

/-! ## A whole run -/

theorem isChain_append_iff {β : Type} {R : β → β → Prop} {l m : List β} :
    (l ++ m).IsChain R ↔ l.IsChain R ∧ (l.getLast?.toList ++ m).IsChain R := by
  rw [List.isChain_append, List.isChain_append]
  cases l.getLast? <;> simp

theorem filterMap_reached?_retrieve (b : Buffer α) (now timeout : Duration) :
    (b.retrieve now timeout).steps.filterMap Step.reached? =
      (b.run now timeout).1.filterMap Step.reached? := by
  simp [retrieve, discardLate, Step.reached?]

/-- The last number is the last one released, and the last one of the trail. -/
theorem last_perform (b : Buffer α) {c : Call α} (hc : c ≠ .reset) :
    (b.perform c).last =
      (((b.stepsOf c).filterMap Step.packet?).map (·.sequence)).getLast?.or b.last ∧
    (b.perform c).last = ((b.stepsOf c).filterMap Step.reached?).getLast?.or b.last := by
  cases c with
  | insert s x now =>
    have : (b.perform (.insert s x now)).last = b.last := by
      rcases b.perform_insert_cases s x now with ⟨-, hb⟩ | ⟨-, -, -, -, hb⟩
      · rw [hb]
      · rw [hb]; rfl
    rw [this]; exact ⟨rfl, rfl⟩
  | retrieve now timeout =>
    have h := drains_run b now timeout
    constructor
    · show _ = ((b.retrieve now timeout).released.map _).getLast?.or b.last
      rw [released_retrieve, List.getLast?_map]; exact h.last
    · show _ = ((b.retrieve now timeout).steps.filterMap _).getLast?.or b.last
      rw [filterMap_reached?_retrieve]; exact h.last_trail
  | reset => exact absurd rfl hc

theorem last_performAll (hb : b.last = none) {calls : List (Call α)} (hc : Call.reset ∉ calls) :
    (b.performAll calls).last = ((b.released calls).map (·.sequence)).getLast? ∧
    (b.performAll calls).last = (b.trail calls).getLast? := by
  induction calls using List.reverseRecOn with
  | nil => exact ⟨hb, hb⟩
  | append_singleton cs c ih =>
    simp only [List.mem_append, List.mem_singleton, not_or] at hc
    obtain ⟨h₁, h₂⟩ := ih hc.1
    obtain ⟨h₃, h₄⟩ := (b.performAll cs).last_perform (Ne.symm hc.2)
    rw [performAll_append, performAll_singleton, released_concat, trail_concat, List.map_append,
      List.getLast?_append, List.getLast?_append, ← h₁, ← h₂]
    exact ⟨h₃, h₄⟩

/-- A run is in serial order if the run before its last call is, and this call is. -/
theorem isChain_concat_iff (hb : b.last = none) {cs : List (Call α)} (hc : Call.reset ∉ cs)
    (c : Call α) :
    (((b.released (cs ++ [c])).map (·.sequence)).IsChain fun s t => after t s = true) ↔
      (((b.released cs).map (·.sequence)).IsChain fun s t => after t s = true) ∧
      ((b.performAll cs).last.toList ++
        (((b.performAll cs).stepsOf c).filterMap Step.packet?).map (·.sequence)).IsChain
          fun s t => after t s = true := by
  rw [released_concat, List.map_append, isChain_append_iff, (last_performAll hb hc).1]

theorem isChain_released_iff (hw : b.WellFormed) (hb : b.last = none) {calls : List (Call α)}
    (hc : Call.reset ∉ calls) :
    (((b.released calls).map (·.sequence)).IsChain fun s t => after t s = true) ↔
      ∀ pre now timeout, pre ++ [.retrieve now timeout] <+: calls →
        (b.performAll pre).last = none → ¬ (b.performAll pre).Leaps now timeout := by
  induction calls using List.reverseRecOn with
  | nil => simp [released, steps]
  | append_singleton cs c ih =>
    simp only [List.mem_append, List.mem_singleton, not_or] at hc
    rw [isChain_concat_iff hb hc.1, ih hc.1, forall_retrieve_concat_iff]
    refine and_congr_right' ?_
    cases c with
    | insert s x now => cases (b.performAll cs).last <;> simp [stepsOf]
    | retrieve now timeout =>
      refine ((hw.performAll cs).isChain_retrieve_iff now timeout).trans
        ⟨?_, fun h => h now timeout rfl⟩
      rintro h _ _ ⟨⟩
      exact h
    | reset => exact absurd rfl hc.2

theorem isChain_trail (hb : b.last = none) {calls : List (Call α)} (hc : Call.reset ∉ calls)
    (h : ((b.released calls).map (·.sequence)).IsChain fun s t => after t s = true) :
    (b.trail calls).IsChain fun s t => after s t = false := by
  induction calls using List.reverseRecOn with
  | nil => simp [trail, steps]
  | append_singleton cs c ih =>
    simp only [List.mem_append, List.mem_singleton, not_or] at hc
    obtain ⟨hcs, hlast⟩ := (isChain_concat_iff hb hc.1 c).1 h
    rw [trail_concat, isChain_append_iff, ← (last_performAll hb hc.1).2]
    refine ⟨ih hc.1 hcs, ?_⟩
    cases c with
    | insert s x now => cases (b.performAll cs).last <;> simp [stepsOf]
    | retrieve now timeout =>
      have hd := drains_run (b.performAll cs) now timeout
      rw [stepsOf, filterMap_reached?_retrieve]
      refine hd.isChain_trail ?_
      rw [← released_retrieve]; exact hlast
    | reset => exact absurd rfl hc.2

/-- **A run is in serial order unless its first release leaps.** For all calls without a reset of a
new buffer: every number released comes after the one released before it, and the number up to which
all is released or given up never goes back, if and only if no retrieval that finds nothing released
yet skips half of the circle or more. -/
theorem released_increases_iff (capacity : Nat) (calls : List (Call α))
    (hc : Call.reset ∉ calls) :
    let b : Buffer α := .empty capacity
    ((((b.released calls).map (·.sequence)).IsChain
        fun s t => 0 < ahead s t ∧ ahead s t < halfCircle) ∧
      (b.trail calls).IsChain fun l l' => ¬ (0 < ahead l' l ∧ ahead l' l < halfCircle)) ↔
    ∀ pre now timeout, pre ++ [.retrieve now timeout] <+: calls →
      (b.performAll pre).last = none → ¬ (b.performAll pre).Leaps now timeout := by
  intro b
  have hiff := isChain_released_iff (WellFormed.empty (α := α) capacity) rfl hc
  have htrail := isChain_trail (b := b) rfl hc
  simp only [after_iff, Bool.eq_false_iff, Ne] at hiff htrail
  exact ⟨fun h => hiff.1 h.1, fun h => ⟨hiff.2 h, htrail (hiff.2 h)⟩⟩

/-- A first release that goes around the point where the numbers wrap, and no leap. -/
theorem released_increases_around_the_wrap :
    let calls : List (Call Nat) := [.insert 4294967295 7 .zero, .insert 0 8 .zero,
      .retrieve .zero .zero, .insert 2 9 .zero, .retrieve .zero .zero]
    let b : Buffer Nat := .empty 4
    Call.reset ∉ calls ∧ (b.released calls).map (·.sequence) = [4294967295, 0, 2] ∧
    ∀ pre now timeout, pre ++ [.retrieve now timeout] <+: calls →
      (b.performAll pre).last = none → ¬ (b.performAll pre).Leaps now timeout := by
  refine ⟨by decide, by decide +kernel, ?_⟩
  refine (released_increases_iff 4 _ (by decide)).1 ⟨?_, ?_⟩
  · decide +kernel
  · decide +kernel

/-- Two packets more than half of the circle apart, both waiting before the first release: the
second one leaves although it is late by then, and the last number goes back. -/
theorem released_not_increasing :
    let calls : List (Call Nat) :=
      [.insert 1 7 .zero, .insert 2147483653 8 .zero, .retrieve .zero .zero]
    let b : Buffer Nat := .empty 4
    Call.reset ∉ calls ∧
    ¬ (((b.released calls).map (·.sequence)).IsChain
        fun s t => 0 < ahead s t ∧ ahead s t < halfCircle) ∧
    ¬ (b.trail calls).IsChain fun l l' => ¬ (0 < ahead l' l ∧ ahead l' l < halfCircle) := by
  intro calls b
  have hout : (b.released calls).map (·.sequence) = [1, 2147483653] := by decide +kernel
  have htrail : b.trail calls = [1, 2147483652, 2147483653] := by decide +kernel
  rw [hout, htrail]
  exact ⟨by decide, by decide, by decide⟩

end HybridAccess.Reorder.Buffer
