/-
  HybridAccess — how packets leave a reorder buffer.

  `Leaves` is one move seen from outside: a packet with nobody before it leaves
  because it is expected or because some packet is overdue. `Drains` chains
  moves until none is possible, and `drains_run` shows that this is what `run`
  does. Nothing is lost on the way (`Drains.perm`), and if the numbers are
  distinct (`Drains.drained`) the packets leave in the order of their distance
  from the expected number, all of them before those that stay, and a gap is
  only skipped for an overdue packet behind it.
-/
import Mathlib.Data.List.Nodup
import HybridAccess.Proofs.Reorder.Call
import HybridAccess.Proofs.Reorder.Distance

namespace HybridAccess.Reorder

/-- A list is what is found in it and what is left without that. -/
theorem perm_cons_eraseP_of_find? {β : Type} {f : β → Bool} {l : List β} {x : β}
    (h : l.find? f = some x) : l.Perm (x :: l.eraseP f) := by
  obtain ⟨hx, before, behind, rfl, hb⟩ := List.find?_eq_some_iff_append.1 h
  have he : (before ++ x :: behind).eraseP f = before ++ behind := by
    rw [List.eraseP_append_right _ fun a ha => by simpa using hb a ha,
      List.eraseP_cons_of_pos hx]
  rw [he]; exact List.perm_middle

theorem nodup_map_concat {β γ : Type} {f : β → γ} {l : List β} {x : β} (h : (l.map f).Nodup)
    (hx : ∀ y ∈ l, f y ≠ f x) : ((l ++ [x]).map f).Nodup := by
  rw [List.map_append, List.map_singleton]
  refine h.append (List.nodup_singleton _) ?_
  simpa only [List.disjoint_singleton, List.mem_map, not_exists, not_and] using hx

namespace Buffer

variable {α : Type} {b b' : Buffer α} {now timeout : Duration} {p : Packet α}

/-- How far a packet lies ahead of the expected number. -/
def offset (b : Buffer α) (p : Packet α) : Nat := ahead b.next p.sequence

/-- Serial order by the distances from the expected number. -/
theorem after_iff_offset {p q : Packet α} (h : b.offset p < b.offset q) :
    after q.sequence p.sequence = true ↔ b.offset q - b.offset p < halfCircle :=
  after_iff_of_lt h

/-- No two packets with one number wait. -/
def Distinct (b : Buffer α) : Prop := (b.waiting.map (·.sequence)).Nodup

theorem overdue_eq_true : b.overdue now timeout = true ↔ ∃ p ∈ b.waiting, timeout ≤ p.age now := by
  simp [overdue]

/-! ## One move -/

theorem take?_eq_none {s : UInt32} : b.take? s = none ↔ ∀ p ∈ b.waiting, p.sequence ≠ s := by
  simp [take?]

theorem take?_eq_some {s : UInt32} (h : b.take? s = some (p, b')) :
    p.sequence = s ∧ b.waiting.Perm (p :: b'.waiting) ∧ b'.waiting.Sublist b.waiting ∧
      b'.last = some s ∧ b'.capacity = b.capacity := by
  simp only [take?, Option.map_eq_some_iff, Prod.mk.injEq] at h
  obtain ⟨q, hq, rfl, rfl⟩ := h
  exact ⟨by simpa using List.find?_some hq, perm_cons_eraseP_of_find? hq, List.eraseP_sublist,
    rfl, rfl⟩

theorem lowest?_eq_none : b.lowest? = none ↔ b.waiting = [] := by
  simp [lowest?]

theorem lowest?_eq_some {s : UInt32} (h : b.lowest? = some s) :
    (∃ p ∈ b.waiting, p.sequence = s) ∧ ∀ q ∈ b.waiting, ahead b.next s ≤ b.offset q := by
  simp only [lowest?, Option.map_eq_some_iff] at h
  obtain ⟨d, hd, rfl⟩ := h
  obtain ⟨hmem, hmin⟩ := List.min?_eq_some_iff.1 hd
  obtain ⟨p, hp, rfl⟩ := List.mem_map.1 hmem
  rw [add_ahead]
  exact ⟨⟨p, hp, rfl⟩, fun q hq => hmin _ (List.mem_map.2 ⟨q, hq, rfl⟩)⟩

/-- A packet leaves: nobody lies before it, and it is expected or some packet is overdue. -/
structure Leaves (now timeout : Duration) (b : Buffer α) (p : Packet α) (b' : Buffer α) :
    Prop where
  least : ∀ q ∈ b.waiting, b.offset p ≤ b.offset q
  due : p.sequence = b.next ∨ ∃ r ∈ b.waiting, timeout ≤ r.age now
  perm : b.waiting.Perm (p :: b'.waiting)
  order : b'.waiting.Sublist b.waiting
  last : b'.last = some p.sequence
  capacity : b'.capacity = b.capacity

/-- The steps of a move. -/
def stepsTo (b : Buffer α) (p : Packet α) : List (Step α) :=
  if p.sequence = b.next then [.released p] else [.skipped b.next p.sequence, .released p]

/-- Nothing can move. -/
structure Settled (now timeout : Duration) (b : Buffer α) : Prop where
  next : ∀ p ∈ b.waiting, p.sequence ≠ b.next
  young : ∀ p ∈ b.waiting, ¬ timeout ≤ p.age now

theorem settled_of_advance? (h : b.advance? now timeout = none) : b.Settled now timeout := by
  unfold advance? at h
  split at h
  · cases h
  · next ht =>
    have hnext := take?_eq_none.1 ht
    refine ⟨hnext, fun p hp ho => ?_⟩
    rw [if_pos (overdue_eq_true.2 ⟨p, hp, ho⟩)] at h
    -- an overdue packet makes the buffer non-empty, so that there is a lowest number to take
    obtain ⟨s, hs⟩ : ∃ s, b.lowest? = some s := by
      rw [← Option.ne_none_iff_exists']
      exact fun hn => by rw [lowest?_eq_none.1 hn] at hp; cases hp
    obtain ⟨⟨q, hq, hqs⟩, -⟩ := lowest?_eq_some hs
    have hq' : b.take? s ≠ none := fun hn => take?_eq_none.1 hn q hq hqs
    obtain ⟨⟨q', b''⟩, hq''⟩ := Option.ne_none_iff_exists'.1 hq'
    simp [hs, hq''] at h

theorem leaves_of_advance? {steps : List (Step α)} (h : b.advance? now timeout = some (steps, b')) :
    ∃ p, Leaves now timeout b p b' ∧ steps = b.stepsTo p := by
  unfold advance? at h
  split at h
  · next p b₁ ht =>
    simp only [Option.some.injEq, Prod.mk.injEq] at h
    obtain ⟨rfl, rfl⟩ := h
    obtain ⟨hs, hperm, hsub, hlast, hcap⟩ := take?_eq_some ht
    refine ⟨p, ⟨fun q _ => ?_, Or.inl hs, hperm, hsub, hs ▸ hlast, hcap⟩, by simp [stepsTo, hs]⟩
    simp only [offset, hs, ahead_self, Nat.zero_le]
  · next ht =>
    split at h
    · next ho =>
      simp only [Option.bind_eq_bind, Option.bind_eq_some_iff] at h
      obtain ⟨s, hlow, ⟨p, b₁⟩, ht', h⟩ := h
      simp only [Option.some.injEq, Prod.mk.injEq] at h
      obtain ⟨rfl, rfl⟩ := h
      obtain ⟨hs, hperm, hsub, hlast, hcap⟩ := take?_eq_some ht'
      obtain ⟨-, hmin⟩ := lowest?_eq_some hlow
      have hne : p.sequence ≠ b.next := take?_eq_none.1 ht p (hperm.mem_iff.2 List.mem_cons_self)
      subst hs
      exact ⟨p, ⟨hmin, Or.inr (overdue_eq_true.1 ho), hperm, hsub, hlast, hcap⟩,
        by simp [stepsTo, hne]⟩
    · cases h

namespace Leaves
variable (h : Leaves now timeout b p b')
include h

theorem mem : p ∈ b.waiting := h.perm.mem_iff.2 List.mem_cons_self

theorem mem_of_mem {q : Packet α} (hq : q ∈ b'.waiting) : q ∈ b.waiting := h.order.subset hq

theorem next : b'.next = p.sequence + 1 := by simp [Buffer.next, h.last]

theorem nodup (hd : b.Distinct) : (p.sequence :: b'.waiting.map (·.sequence)).Nodup := by
  exact (h.perm.map (fun q : Packet α => q.sequence)).nodup_iff.1 hd

theorem distinct (hd : b.Distinct) : b'.Distinct := (List.nodup_cons.1 (h.nodup hd)).2

/-- Those that stay lie behind the one that leaves. -/
theorem offset_lt (hd : b.Distinct) {q : Packet α} (hq : q ∈ b'.waiting) :
    b.offset p < b.offset q := by
  refine Nat.lt_of_le_of_ne (h.least q (h.mem_of_mem hq)) fun he => ?_
  have hs : p.sequence = q.sequence := ahead_inj.1 he
  exact (List.nodup_cons.1 (h.nodup hd)).1 (List.mem_map.2 ⟨q, hq, hs.symm⟩)

/-- The distances of those that stay, counted from the number expected now. -/
theorem offset_eq (hd : b.Distinct) {q : Packet α} (hq : q ∈ b'.waiting) :
    b'.offset q = b.offset q - b.offset p - 1 := by
  rw [offset, h.next]; exact ahead_succ_of_lt (h.offset_lt hd hq)

end Leaves

/-! ## All moves -/

/-- Moves until nothing can move, with their steps. -/
inductive Drains (now timeout : Duration) : Buffer α → List (Step α) → Buffer α → Prop
  | stop {b : Buffer α} : b.Settled now timeout → Drains now timeout b [] b
  | move {b b₁ b' : Buffer α} {p : Packet α} {steps : List (Step α)} :
      Leaves now timeout b p b₁ → Drains now timeout b₁ steps b' →
      Drains now timeout b (b.stepsTo p ++ steps) b'

theorem run_of_none (h : b.advance? now timeout = none) : b.run now timeout = ([], b) := by
  rw [run]
  split
  · rfl
  · next h' => rw [h] at h'; cases h'

theorem run_of_some {steps : List (Step α)} (h : b.advance? now timeout = some (steps, b')) :
    b.run now timeout = (steps ++ (b'.run now timeout).1, (b'.run now timeout).2) := by
  rw [run]
  split
  · next h' => rw [h] at h'; cases h'
  · next h' => rw [h] at h'; cases h'; rfl

theorem drains_run (b : Buffer α) (now timeout : Duration) :
    Drains now timeout b (b.run now timeout).1 (b.run now timeout).2 := by
  fun_induction Buffer.run b now timeout with
  | case1 b h => exact .stop (settled_of_advance? h)
  | case2 b steps b' h rest b'' hr ih =>
    obtain ⟨p, hl, rfl⟩ := leaves_of_advance? h
    rw [hr] at ih
    exact .move hl ih

@[simp] theorem filterMap_packet?_stepsTo (b : Buffer α) (p : Packet α) :
    (b.stepsTo p).filterMap Step.packet? = [p] := by
  unfold stepsTo; split <;> rfl

namespace Drains
variable {steps : List (Step α)} (h : Drains now timeout b steps b')
include h

theorem settled : b'.Settled now timeout := by
  induction h with
  | stop hs => exact hs
  | move _ _ ih => exact ih

theorem capacity : b'.capacity = b.capacity := by
  induction h with
  | stop => rfl
  | move hl _ ih => exact ih.trans hl.capacity

theorem order : b'.waiting.Sublist b.waiting := by
  induction h with
  | stop => exact .refl _
  | move hl _ ih => exact ih.trans hl.order

/-- No packet is lost or released twice. -/
theorem perm : b.waiting.Perm (steps.filterMap Step.packet? ++ b'.waiting) := by
  induction h with
  | stop => exact .refl _
  | move hl _ ih =>
    rw [List.filterMap_append, filterMap_packet?_stepsTo]
    exact hl.perm.trans (ih.cons _)

theorem last : b'.last =
    ((steps.filterMap Step.packet?).getLast?.map (·.sequence)).or b.last := by
  induction h with
  | stop => rfl
  | @move b b₁ b' p steps hl _ ih =>
    rw [ih, hl.last, List.filterMap_append, filterMap_packet?_stepsTo, List.singleton_append,
      List.getLast?_cons]
    cases (steps.filterMap Step.packet?).getLast? <;> rfl

end Drains

/-- In which order the packets `ps` leave, where `rest` is the buffer behind them. -/
structure Drained (now timeout : Duration) (b : Buffer α) (ps : List (Packet α))
    (rest : Buffer α) : Prop where
  sorted : ps.Pairwise (b.offset · < b.offset ·)
  before : ∀ p ∈ ps, ∀ q ∈ rest.waiting, b.offset p < b.offset q
  due : ∀ p ∈ ps, b.offset p = 0 ∨ (∃ q ∈ ps, b.offset p = b.offset q + 1) ∨
    ∃ r ∈ b.waiting, b.offset p ≤ b.offset r ∧ timeout ≤ r.age now

/-- **The moves release in order.** -/
theorem Drains.drained {steps : List (Step α)} (h : Drains now timeout b steps b')
    (hd : b.Distinct) : Drained now timeout b (steps.filterMap Step.packet?) b' := by
  induction h with
  | stop hs => exact ⟨.nil, by simp, by simp⟩
  | @move b b₁ b' p steps hl hr ih =>
    have ih := ih (hl.distinct hd)
    have hps : ∀ q ∈ steps.filterMap Step.packet?, q ∈ b₁.waiting := fun q hq =>
      hr.perm.mem_iff.2 (List.mem_append_left _ hq)
    rw [List.filterMap_append, filterMap_packet?_stepsTo, List.singleton_append]
    -- beyond `p` the distances from the old and the new expected number are ordered alike
    have hlt : ∀ q ∈ b₁.waiting, ∀ r ∈ b₁.waiting, b₁.offset q < b₁.offset r →
        b.offset q < b.offset r := fun q hq r hr hqr => by
      have := hl.offset_lt hd hq
      rw [hl.offset_eq hd hq, hl.offset_eq hd hr] at hqr; omega
    refine ⟨List.pairwise_cons.2 ⟨fun q hq => hl.offset_lt hd (hps q hq), ?_⟩, ?_, ?_⟩
    · exact ih.sorted.imp_of_mem fun {q r} hq hr hqr => hlt q (hps q hq) r (hps r hr) hqr
    · intro q hq r hr'
      rcases List.mem_cons.1 hq with rfl | hq
      · exact hl.offset_lt hd (hr.order.subset hr')
      · exact hlt q (hps q hq) r (hr.order.subset hr') (ih.before q hq r hr')
    · intro q hq
      rcases List.mem_cons.1 hq with rfl | hq
      · rcases hl.due with he | ⟨r, hr, ho⟩
        · exact Or.inl (by rw [offset, he, ahead_self])
        · exact Or.inr (Or.inr ⟨r, hr, hl.least r hr, ho⟩)
      · have hq₁ := hps q hq
        have hpq := hl.offset_lt hd hq₁
        have hqe := hl.offset_eq hd hq₁
        rcases ih.due q hq with h | ⟨r, hr, h⟩ | ⟨r, hr, hle, ho⟩
        · exact Or.inr (Or.inl ⟨p, List.mem_cons_self, by omega⟩)
        · have hpr := hl.offset_lt hd (hps r hr)
          rw [hqe, hl.offset_eq hd (hps r hr)] at h
          exact Or.inr (Or.inl ⟨r, List.mem_cons_of_mem _ hr, by omega⟩)
        · have hpr := hl.offset_lt hd hr
          rw [hqe, hl.offset_eq hd hr] at hle
          exact Or.inr (Or.inr ⟨r, hl.mem_of_mem hr, by omega, ho⟩)

/-! ## Retrieving -/

theorem filterMap_packet?_discardLate (b : Buffer α) :
    b.discardLate.1.filterMap Step.packet? = [] := by
  simp [discardLate, Step.packet?]

theorem released_retrieve (b : Buffer α) (now timeout : Duration) :
    (b.retrieve now timeout).released = (b.run now timeout).1.filterMap Step.packet? := by
  simp [Retrieval.released, retrieve, filterMap_packet?_discardLate]

theorem buffer_retrieve (b : Buffer α) (now timeout : Duration) :
    (b.retrieve now timeout).buffer = (b.run now timeout).2.discardLate.2 := rfl

@[simp] theorem mem_discardLate {b : Buffer α} {p : Packet α} :
    p ∈ b.discardLate.2.waiting ↔ p ∈ b.waiting ∧ b.isLate p.sequence = false := by
  simp [discardLate]

theorem sublist_discardLate (b : Buffer α) : b.discardLate.2.waiting.Sublist b.waiting :=
  List.filter_sublist

theorem discardLate_of_forall {b : Buffer α} (h : ∀ p ∈ b.waiting, b.isLate p.sequence = false) :
    b.discardLate = ([], b) := by
  have hnone : b.waiting.filter (fun p => b.isLate p.sequence) = [] :=
    List.filter_eq_nil_iff.2 fun p hp => by simp [h p hp]
  have hall : b.waiting.filter (fun p => ! b.isLate p.sequence) = b.waiting :=
    List.filter_eq_self.2 fun p hp => by simp [h p hp]
  rw [discardLate, hnone, hall]
  rfl

end Buffer

end HybridAccess.Reorder
