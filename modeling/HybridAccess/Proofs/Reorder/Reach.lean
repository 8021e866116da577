/-
  HybridAccess — how far a retrieval reaches.

  Behind a first release the packets that wait carry different numbers within
  half of the circle ahead of the last one (`Follows`). A retrieval reaches up
  to one distance (`Reaches`): to the farthest packet that is overdue, and from
  there on as long as no number is missing. All packets up to this distance
  leave in order, and the other ones stay as they are (`retrieve_reaches`).
  The expected packet is always the first to leave, but a full buffer has no
  room for it (`expected_leaves_first`).
-/
import Mathlib.Data.Nat.SuccPred
import HybridAccess.Proofs.Reorder.Discard

namespace HybridAccess.Reorder.Buffer

variable {α : Type} {b b' : Buffer α} {l : UInt32} {now timeout : Duration} {p : Packet α}

/-- `l` was the last number, and the packets that wait carry different numbers after it. -/
structure Follows (l : UInt32) (b : Buffer α) : Prop where
  last : b.last = some l
  distinct : (b.waiting.map (·.sequence)).Nodup
  window : ∀ p ∈ b.waiting, 1 ≤ ahead l p.sequence ∧ ahead l p.sequence < halfCircle

/-- How far ahead of `l` the packets lie that have waited for the whole timeout, and zero. -/
def overdueDistances (b : Buffer α) (l : UInt32) (now timeout : Duration) : Set Nat :=
  {d | d = 0 ∨ ∃ p ∈ b.waiting, ahead l p.sequence = d ∧ timeout ≤ p.age now}

/-- The distances from `m` on with a packet at each distance behind `m` that they include. -/
def unbroken (b : Buffer α) (l : UInt32) (m : Nat) : Set Nat :=
  {e | m ≤ e ∧ ∀ d, m < d → d ≤ e → ∃ p ∈ b.waiting, ahead l p.sequence = d}

/-- The packets `ps` have left, up to the distance `e` and no farther, and `rest` is behind them. -/
structure Reaches (l : UInt32) (e : Nat) (ps : List (Packet α)) (rest : Buffer α) : Prop where
  last : rest.last = some (l + UInt32.ofNat e)
  near : e < halfCircle
  left : ∀ p ∈ ps, ahead l p.sequence ≤ e
  stays : ∀ p ∈ rest.waiting, e < ahead l p.sequence
  attained : e = 0 ∨ ∃ p ∈ ps, ahead l p.sequence = e

/-! ## The moves of a retrieval -/

theorem WellFormed.follows (h : b.WellFormed) (hl : b.last = some l) : b.Follows l :=
  ⟨hl, h.distinct, h.window l hl⟩

theorem Follows.offset_add_one (h : b.Follows l) (hp : p ∈ b.waiting) :
    b.offset p + 1 = ahead l p.sequence :=
  Buffer.offset_add_one h.last (h.window p hp).1

section
variable {steps : List (Step α)} (hd : Drains now timeout b steps b')
include hd

theorem Follows.exists_reaches (h : b.Follows l) :
    ∃ e, Reaches l e (steps.filterMap Step.packet?) b' := by
  have hr := hd.drained h.distinct
  have hperm := hd.perm
  have hlast := hd.last
  generalize steps.filterMap Step.packet? = ps at hr hperm hlast ⊢
  have hps : ∀ p ∈ ps, p ∈ b.waiting := fun p hp => hperm.mem_iff.2 (List.mem_append_left _ hp)
  have hrest : ∀ p ∈ b'.waiting, p ∈ b.waiting := fun p hp =>
    hperm.mem_iff.2 (List.mem_append_right _ hp)
  rcases List.eq_nil_or_concat ps with rfl | ⟨ps, p, rfl⟩
  · refine ⟨0, ?_, by decide, by simp, fun q hq => (h.window q (hrest q hq)).1, Or.inl rfl⟩
    have hkeep : b'.last = b.last := hlast
    rw [hkeep, h.last]
    exact congrArg some (UInt32.add_zero l).symm
  · rw [List.concat_eq_append] at *
    have hp : p ∈ ps ++ [p] := by simp
    have heq : ∀ q ∈ b.waiting, b.offset q + 1 = ahead l q.sequence := fun q => h.offset_add_one
    refine ⟨ahead l p.sequence, ?_, (h.window p (hps p hp)).2, fun q hq => ?_, fun q hq => ?_,
      Or.inr ⟨p, hp, rfl⟩⟩
    · rw [add_ahead]; simpa using hlast
    · rw [← heq p (hps p hp), ← heq q (hps q hq)]
      rcases List.mem_append.1 hq with hq | hq
      · have := (List.pairwise_append.1 hr.sorted).2.2 q hq p List.mem_cons_self
        omega
      · rw [List.mem_singleton.1 hq]
    · rw [← heq p (hps p hp), ← heq q (hrest q hq)]
      have := hr.before p hp q hq
      omega

/-- A gap is only skipped for an overdue packet behind it. -/
theorem Drains.exists_overdue_of_skipped (hb : b.Distinct) {expected lowest : UInt32}
    (hs : .skipped expected lowest ∈ steps) :
    ∃ q ∈ b.waiting, q.sequence = lowest ∧
      ∃ r ∈ b.waiting, b.offset q ≤ b.offset r ∧ timeout ≤ r.age now := by
  induction hd with
  | stop => cases hs
  | @move b b₁ b' p steps hl _ ih =>
    rcases List.mem_append.1 hs with hs | hs
    · unfold stepsTo at hs
      split at hs
      · simp at hs
      · next hne =>
        have hlow : lowest = p.sequence := by simp at hs; exact hs.2
        obtain ⟨r, hr, ho⟩ := hl.due.resolve_left hne
        exact ⟨p, hl.mem, hlow.symm, r, hr, hl.least r hr, ho⟩
    · obtain ⟨q, hq, hlow, r, hr, hle, ho⟩ := ih (hl.distinct hb) hs
      have hpq := hl.offset_lt hb hq
      have hpr := hl.offset_lt hb hr
      rw [hl.offset_eq hb hq, hl.offset_eq hb hr] at hle
      exact ⟨q, hl.mem_of_mem hq, hlow, r, hl.mem_of_mem hr, by omega, ho⟩

end

/-! ## What leaves and what stays -/

namespace Reaches
variable {e : Nat} {ps : List (Packet α)} (hr : Reaches l e ps b')
  (hperm : b.waiting.Perm (ps ++ b'.waiting))
include hr hperm

theorem perm_filter : ps.Perm (b.waiting.filter fun p => ahead l p.sequence ≤ e) := by
  have hfilter := hperm.filter fun p => decide (ahead l p.sequence ≤ e)
  have hleft : ps.filter (fun p => ahead l p.sequence ≤ e) = ps :=
    List.filter_eq_self.2 fun p hp => decide_eq_true (hr.left p hp)
  have hnone : b'.waiting.filter (fun p => ahead l p.sequence ≤ e) = [] :=
    List.filter_eq_nil_iff.2 fun p hp => by
      have := hr.stays p hp
      rw [decide_eq_true_iff]; omega
  rw [List.filter_append, hleft, hnone, List.append_nil] at hfilter
  exact hfilter.symm

theorem waiting_eq (horder : b'.waiting.Sublist b.waiting) :
    b'.waiting = b.waiting.filter fun p => e < ahead l p.sequence := by
  have hfilter := hperm.filter fun p => decide (e < ahead l p.sequence)
  have hnone : ps.filter (fun p => e < ahead l p.sequence) = [] :=
    List.filter_eq_nil_iff.2 fun p hp => by
      have := hr.left p hp
      rw [decide_eq_true_iff]; omega
  have hstays : b'.waiting.filter (fun p => e < ahead l p.sequence) = b'.waiting :=
    List.filter_eq_self.2 fun p hp => decide_eq_true (hr.stays p hp)
  rw [List.filter_append, hnone, List.nil_append, hstays] at hfilter
  have hsub := horder.filter fun p => decide (e < ahead l p.sequence)
  rw [hstays] at hsub
  exact hsub.eq_of_length hfilter.length_eq.symm

/-- Every overdue packet has left. -/
theorem overdueDistances_le (hset : b'.Settled now timeout) {d : Nat}
    (hd : d ∈ b.overdueDistances l now timeout) : d ≤ e := by
  rcases hd with rfl | ⟨p, hp, rfl, ho⟩
  · exact Nat.zero_le e
  · refine hr.left p ((List.mem_append.1 (hperm.mem_iff.1 hp)).resolve_right fun hp => ?_)
    exact hset.young p hp ho

/-- Behind the overdue packets no number is missing up to the last one that leaves. -/
theorem exists_of_le (h : b.Follows l) (hdue : Drained now timeout b ps b') {m : Nat}
    (hm : IsGreatest (b.overdueDistances l now timeout) m) {d : Nat} (hlow : m < d)
    (hle : d ≤ e) : ∃ p ∈ ps, ahead l p.sequence = d := by
  have hps : ∀ p ∈ ps, b.offset p + 1 = ahead l p.sequence := fun p hp =>
    h.offset_add_one (hperm.mem_iff.2 (List.mem_append_left _ hp))
  -- from the last packet that leaves down, each one stands behind the one at the next distance
  induction hle using Nat.decreasingInduction with
  | self => exact hr.attained.resolve_left (by omega)
  | of_succ d hlt ih =>
    obtain ⟨p, hp, hpd⟩ := ih (by omega)
    have hpe := hps p hp
    rcases hdue.due p hp with h₀ | ⟨q, hq, hpq⟩ | ⟨r, hrw, hpr, ho⟩
    · omega
    · exact ⟨q, hq, by rw [← hps q hq]; omega⟩
    · have hrm := hm.2 (Or.inr ⟨r, hrw, rfl, ho⟩)
      rw [← h.offset_add_one hrw] at hrm
      omega

/-- **The distance that is reached is the last one in the unbroken row behind the overdue
packets.** -/
theorem isGreatest_unbroken (h : b.Follows l) (hdue : Drained now timeout b ps b')
    (hset : b'.Settled now timeout) {m : Nat}
    (hm : IsGreatest (b.overdueDistances l now timeout) m) : IsGreatest (b.unbroken l m) e := by
  have hps : ∀ p ∈ ps, p ∈ b.waiting := fun p hp => hperm.mem_iff.2 (List.mem_append_left _ hp)
  refine ⟨⟨hr.overdueDistances_le hperm hset hm.1, fun d hlow hle => ?_⟩, fun e' he' => ?_⟩
  · obtain ⟨p, hp, hpd⟩ := hr.exists_of_le hperm h hdue hm hlow hle
    exact ⟨p, hps p hp, hpd⟩
  · by_contra hgt
    -- the packet right behind the last one would still be waiting and be expected
    have hme := hr.overdueDistances_le hperm hset hm.1
    obtain ⟨p, hp, hpe⟩ := he'.2 (e + 1) (by omega) (by omega)
    have hstay : p ∈ b'.waiting := (List.mem_append.1 (hperm.mem_iff.1 hp)).resolve_left fun hp => by
      have := hr.left p hp
      omega
    refine hset.next p hstay ?_
    have hnext : b'.next = l + UInt32.ofNat (e + 1) := by
      simp [next, hr.last, UInt32.ofNat_add, UInt32.add_assoc]
    rw [hnext, ← hpe, add_ahead]

omit hperm in
/-- Nothing that stays is late. -/
theorem isLate_eq_false (hwindow : ∀ p ∈ b'.waiting, ahead l p.sequence < halfCircle)
    (hp : p ∈ b'.waiting) : b'.isLate p.sequence = false := by
  have hnear := hr.near
  have hfar := hr.stays p hp
  have hlt := hwindow p hp
  have hlast : ahead l (l + UInt32.ofNat e) = e := ahead_add_ofNat (by omega)
  refine Buffer.isLate_eq_false.2 fun l' hl' => ?_
  obtain rfl : l + UInt32.ofNat e = l' := Option.some.inj (hr.last.symm.trans hl')
  rw [after_iff_of_lt (a := l) (by omega), hlast]
  omega

end Reaches

/-! ## Retrieving -/

/-- Nothing is late when the packets have left, and nothing is dropped. -/
theorem Follows.discardLate_run (h : b.Follows l) (now timeout : Duration) :
    (b.run now timeout).2.discardLate = ([], (b.run now timeout).2) := by
  have hd := drains_run b now timeout
  obtain ⟨e, hr⟩ := h.exists_reaches hd
  exact discardLate_of_forall fun p => hr.isLate_eq_false fun q hq =>
    (h.window q (hd.order.subset hq)).2

theorem Follows.steps_retrieve (h : b.Follows l) (now timeout : Duration) :
    (b.retrieve now timeout).steps = (b.run now timeout).1 := by
  simp [retrieve, h.discardLate_run]

theorem Follows.not_discarded (h : b.Follows l) (now timeout : Duration) (s : UInt32) :
    .discarded s ∉ (b.retrieve now timeout).steps := by
  intro hs
  rw [h.steps_retrieve] at hs
  have hmem : s ∈ (b.run now timeout).1.filterMap Step.dropped? :=
    List.mem_filterMap.2 ⟨_, hs, rfl⟩
  rw [(drains_run b now timeout).dropped] at hmem
  cases hmem

theorem Follows.exists_overdue_of_skipped (h : b.Follows l) {expected lowest : UInt32}
    (hs : .skipped expected lowest ∈ (b.retrieve now timeout).steps) :
    ∃ p ∈ b.waiting, ahead l lowest ≤ ahead l p.sequence ∧ timeout ≤ p.age now := by
  rw [h.steps_retrieve] at hs
  obtain ⟨q, hq, rfl, r, hr, hle, ho⟩ :=
    (drains_run b now timeout).exists_overdue_of_skipped h.distinct hs
  refine ⟨r, hr, ?_, ho⟩
  rw [← h.offset_add_one hq, ← h.offset_add_one hr]
  omega

/-- **How far a retrieval reaches.** Let `m` be the distance of the farthest overdue packet, zero if
there is none, and `e` the last distance in the unbroken row behind it. Exactly the packets up to
`e` leave, in order; the other ones stay as they are, none is dropped, and the number at the
distance `e` is the last one from now on. A gap is only skipped for an overdue packet behind it. -/
theorem retrieve_reaches (h : b.Follows l) (now timeout : Duration) :
    ∃ m e, IsGreatest (b.overdueDistances l now timeout) m ∧ IsGreatest (b.unbroken l m) e ∧
      let r := b.retrieve now timeout
      r.released.Perm (b.waiting.filter fun p => ahead l p.sequence ≤ e) ∧
      r.released.Pairwise (fun p q => ahead l p.sequence < ahead l q.sequence) ∧
      r.buffer = { b with
        last := some (l + UInt32.ofNat e)
        waiting := b.waiting.filter fun p => e < ahead l p.sequence } ∧
      (∀ s, .discarded s ∉ r.steps) ∧
      ∀ expected lowest, .skipped expected lowest ∈ r.steps →
        ∃ p ∈ b.waiting, ahead l lowest ≤ ahead l p.sequence ∧ timeout ≤ p.age now := by
  have hd := drains_run b now timeout
  have hdue := hd.drained h.distinct
  have hperm := hd.perm
  obtain ⟨e, hr⟩ := h.exists_reaches hd
  obtain ⟨m, hm⟩ : ∃ m, IsGreatest (b.overdueDistances l now timeout) m :=
    BddAbove.exists_isGreatest_of_nonempty
      ⟨e, fun _ => hr.overdueDistances_le hperm hd.settled⟩ ⟨0, Or.inl rfl⟩
  refine ⟨m, e, hm, hr.isGreatest_unbroken hperm h hdue hd.settled hm, ?_, ?_, ?_,
    h.not_discarded now timeout, fun _ _ => h.exists_overdue_of_skipped⟩
  · rw [released_retrieve]; exact hr.perm_filter hperm
  · rw [released_retrieve]
    refine hdue.sorted.imp_of_mem fun {p q} hp hq hpq => ?_
    have hmem : ∀ p ∈ (b.run now timeout).1.filterMap Step.packet?, p ∈ b.waiting := fun p hp =>
      hperm.mem_iff.2 (List.mem_append_left _ hp)
    rw [← h.offset_add_one (hmem p hp), ← h.offset_add_one (hmem q hq)]
    omega
  · rw [buffer_retrieve, h.discardLate_run, ← hr.waiting_eq hperm hd.order, ← hr.last,
      ← hd.capacity]

/-- Behind a gap across the point where the numbers wrap, a young packet stands before an overdue
one, a young one right behind it, and one behind another gap. -/
theorem retrieve_reaches_around_the_wrap :
    let b : Buffer Nat := (Buffer.empty 8).performAll
      [.insert 4294967293 1 ⟨0⟩, .retrieve ⟨0⟩ ⟨0⟩, .insert 2 20 ⟨0⟩, .insert 5 50 ⟨5⟩,
        .insert 3 30 ⟨5⟩, .insert 0 10 ⟨5⟩]
    let r := b.retrieve ⟨10⟩ ⟨10⟩
    b.Follows 4294967293 ∧ r.released.map Packet.content = [(0, 10), (2, 20), (3, 30)] ∧
    r.buffer = ⟨8, some 3, [⟨5, 50, ⟨5⟩⟩]⟩ ∧
    ∃ m e, IsGreatest (b.overdueDistances 4294967293 ⟨10⟩ ⟨10⟩) m ∧
      IsGreatest (b.unbroken 4294967293 m) e ∧
      r.released.Perm (b.waiting.filter fun p => ahead 4294967293 p.sequence ≤ e) ∧
      r.buffer.last = some (4294967293 + UInt32.ofNat e) := by
  intro b r
  have h : b.Follows 4294967293 :=
    ((WellFormed.empty 8).performAll _).follows (by decide +kernel)
  obtain ⟨m, e, hm, he, hperm, -, hbuffer, -, -⟩ := retrieve_reaches h ⟨10⟩ ⟨10⟩
  exact ⟨h, by decide +kernel, by decide +kernel, m, e, hm, he, hperm,
    congrArg Buffer.last hbuffer⟩

/-! ## The expected packet -/

/-- The expected number is never late. -/
theorem isLate_next (b : Buffer α) : b.isLate b.next = false := by
  refine isLate_eq_false.2 fun l hl => ?_
  have hnext : b.next = l + 1 := by simp [next, hl]
  rw [hnext, after_iff, ahead_add_one]
  decide

/-- The expected packet leaves at once, and before all others. -/
theorem released_push_next (hnext : ∀ p ∈ b.waiting, p.sequence ≠ b.next) (hp : p.sequence = b.next)
    (now timeout : Duration) : ∃ ps, ((b.push p).retrieve now timeout).released = p :: ps := by
  have hnone : b.waiting.find? (·.sequence == b.next) = none :=
    List.find?_eq_none.2 fun q hq => by simpa using hnext q hq
  have htake : ∃ b', (b.push p).take? (b.push p).next = some (p, b') := by
    have hsame : (b.push p).next = b.next := rfl
    rw [hsame, take?, push, List.find?_append, hnone, List.find?_singleton]
    simp [hp]
  obtain ⟨b', htake⟩ := htake
  have hmove : (b.push p).advance? now timeout = some ([.released p], b') := by
    simp only [advance?, htake]
  rw [released_retrieve, run_of_some hmove]
  exact ⟨_, rfl⟩

/-- **The expected packet is taken in if there is room, and is the first to leave.** A full buffer
refuses it like any other packet, and stays as it is. -/
theorem expected_leaves_first (hnext : ∀ p ∈ b.waiting, p.sequence ≠ b.next) (x : α)
    (now : Duration) :
    (b.waiting.length < b.capacity →
      b.answer (.insert b.next x now) = .accepted ∧
      ∀ later timeout, ∃ rest, (b.perform (.insert b.next x now)).answer (.retrieve later timeout) =
        .released ((b.next, x) :: rest)) ∧
    (b.capacity ≤ b.waiting.length →
      b.answer (.insert b.next x now) = .refused .full ∧
      b.perform (.insert b.next x now) = b) := by
  refine ⟨fun hroom => ?_, fun hfull => ?_⟩
  · have hi := insert_of_room b.isLate_next hnext hroom x now
    refine ⟨by simp only [answer, hi], fun later timeout => ?_⟩
    obtain ⟨ps, hps⟩ := released_push_next (p := ⟨b.next, x, now⟩) hnext rfl later timeout
    rw [perform_insert_of_ok hi, answer, hps]
    exact ⟨ps.map Packet.content, rfl⟩
  · have hi := insert_of_full b.isLate_next hnext hfull x now
    exact ⟨by simp only [answer, hi], perform_insert_of_error hi⟩

/-- The number behind the last one before the numbers wrap, behind which another packet waits. -/
theorem expected_leaves_first_around_the_wrap :
    let b : Buffer Nat := (Buffer.empty 2).performAll
      [.insert 4294967295 7 .zero, .retrieve .zero .zero, .insert 1 9 .zero]
    (∀ p ∈ b.waiting, p.sequence ≠ b.next) ∧ b.next = 0 ∧ b.waiting.length < b.capacity ∧
    b.answer (.insert b.next 8 .zero) = .accepted ∧
    ∃ rest, (b.perform (.insert b.next 8 .zero)).answer (.retrieve .zero ⟨1⟩) =
      .released ((b.next, 8) :: rest) := by
  intro b
  have hnext : ∀ p ∈ b.waiting, p.sequence ≠ b.next := by decide +kernel
  have hroom : b.waiting.length < b.capacity := by decide +kernel
  obtain ⟨haccepted, hfirst⟩ := (expected_leaves_first hnext 8 .zero).1 hroom
  exact ⟨hnext, by decide +kernel, hroom, haccepted, hfirst .zero ⟨1⟩⟩

/-- A buffer for one packet holds one that waits for the expected packet. The expected one is
refused, and nothing leaves. -/
theorem expected_refused_when_full :
    let b : Buffer Nat := (Buffer.empty 1).performAll [.insert 2 7 .zero]
    1 ≤ b.capacity ∧ (∀ p ∈ b.waiting, p.sequence ≠ b.next) ∧
    b.answer (.insert b.next 8 .zero) ≠ .accepted ∧
    b.answer (.insert b.next 8 .zero) = .refused .full ∧
    (b.perform (.insert b.next 8 .zero)).answer (.retrieve .zero ⟨1⟩) = .released [] := by
  decide +kernel

end HybridAccess.Reorder.Buffer
