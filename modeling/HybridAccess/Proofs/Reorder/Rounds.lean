/-
  HybridAccess — the rounds of a retrieval.

  A retrieval is a loop. In each `Round` the packets that are in order leave
  (`flush`), and if some packet is overdue then, the gap before the lowest one
  is given up (`skip?`), which is all that leads to another round. A retrieval
  does not count its rounds; `loop` does, and has no result if a limit does not
  suffice. `loop_ends` says that one round more than packets wait always
  suffices: whatever waits and whatever number was the last one, the packet
  behind a gap leaves in the next round.
-/
import Mathlib.Data.List.Chain
import HybridAccess.Proofs.Reorder.Drain

namespace HybridAccess.Reorder

variable {α : Type}

/-- One time around the loop. -/
structure Round (α : Type) where
  /-- The packets that leave in order. -/
  released : List (Packet α)
  /-- The number expected behind them and the lowest waiting one, if the gap is given up. -/
  gap : Option (UInt32 × UInt32)
deriving DecidableEq, Repr

namespace Round

/-- What happens in a round. -/
def steps (r : Round α) : List (Step α) :=
  r.released.map .released ++ r.gap.toList.map fun g => .skipped g.1 g.2

/-- The packet behind the gap of a round is the first one to leave in the next round. -/
def Opens (r s : Round α) : Prop :=
  ∃ expected p ps, r.gap = some (expected, p.sequence) ∧ s.released = p :: ps

@[simp] theorem filterMap_packet?_steps (r : Round α) :
    r.steps.filterMap Step.packet? = r.released := by
  have hreleased : r.released.filterMap (Step.packet? ∘ .released) = r.released :=
    List.filterMap_some
  simp [steps, hreleased, Step.packet?]

/-- Behind the first round there are no more rounds than packets that leave in them. -/
theorem length_le_of_isChain {r : Round α} {rounds : List (Round α)}
    (h : (r :: rounds).IsChain Opens) :
    rounds.length ≤ (rounds.flatMap Round.released).length := by
  induction rounds generalizing r with
  | nil => exact Nat.le_refl 0
  | cons s rounds ih =>
    obtain ⟨⟨-, p, ps, -, hs⟩, hrest⟩ := List.isChain_cons_cons.1 h
    have hle := ih hrest
    rw [List.flatMap_cons, hs, List.length_append, List.length_cons, List.length_cons]
    omega

end Round

namespace Buffer

variable {b b' : Buffer α} {now timeout : Duration} {p : Packet α}

/-! ## The loop -/

/-- Packets leave as long as the expected one waits. -/
def flush (b : Buffer α) : List (Packet α) × Buffer α :=
  match _h : b.take? b.next with
  | none => ([], b)
  | some (p, b') =>
    let (ps, b'') := b'.flush
    (p :: ps, b'')
termination_by b.waiting.length
decreasing_by exact length_lt_of_take? _h

/-- If some packet is overdue, the numbers before the lowest waiting one are given up. -/
def skip? (b : Buffer α) (now timeout : Duration) : Option (UInt32 × Buffer α) :=
  if b.overdue now timeout then
    b.lowest?.map fun lowest => (lowest, { b with last := some (lowest - 1) })
  else none

/-- Round after round until no gap is given up, none if that takes more rounds than `limit`. -/
def loop (b : Buffer α) (now timeout : Duration) (limit : Nat) :
    Option (List (Round α) × Buffer α) :=
  match limit with
  | 0 => none
  | limit + 1 =>
    match b.flush.2.skip? now timeout with
    | none => some ([⟨b.flush.1, none⟩], b.flush.2)
    | some (lowest, b') => do
      let (rounds, b'') ← b'.loop now timeout limit
      some (⟨b.flush.1, some (b.flush.2.next, lowest)⟩ :: rounds, b'')

/-! ## Packets in order -/

theorem flush_of_some (h : b.take? b.next = some (p, b')) :
    b.flush = (p :: b'.flush.1, b'.flush.2) := by
  rw [flush]
  split
  · next h' => rw [h] at h'; cases h'
  · next h' => rw [h] at h'; cases h'; rfl

/-- Behind the packets in order the expected one is missing. -/
theorem take?_flush (b : Buffer α) : b.flush.2.take? b.flush.2.next = none := by
  fun_induction flush b with
  | case1 b h => exact h
  | case2 b p b' h ps b'' hf ih => rwa [hf] at ih

theorem perm_flush (b : Buffer α) : b.waiting.Perm (b.flush.1 ++ b.flush.2.waiting) := by
  fun_induction flush b with
  | case1 b h => exact .refl _
  | case2 b p b' h ps b'' hf ih =>
    rw [hf] at ih
    exact (take?_eq_some h).2.1.trans (ih.cons p)

/-- The moves of a buffer begin with the packets in order. -/
theorem run_flush (b : Buffer α) (now timeout : Duration) :
    b.run now timeout =
      (b.flush.1.map .released ++ (b.flush.2.run now timeout).1,
        (b.flush.2.run now timeout).2) := by
  fun_induction flush b with
  | case1 b h => rfl
  | case2 b p b' h ps b'' hf ih =>
    have hmove : b.advance? now timeout = some ([.released p], b') := by simp only [advance?, h]
    rw [hf] at ih
    rw [run_of_some hmove, ih]
    rfl

/-! ## Gaps -/

theorem skip?_eq_none (h : b.skip? now timeout = none) :
    b.overdue now timeout = false ∨ b.lowest? = none := by
  unfold skip? at h
  split at h
  · exact Or.inr (Option.map_eq_none_iff.1 h)
  · next ho => exact Or.inl (Bool.eq_false_iff.2 ho)

section
variable {s : UInt32} (h : b.skip? now timeout = some (s, b'))
include h

theorem skip?_eq_some :
    b.overdue now timeout = true ∧ b.lowest? = some s ∧ b' = { b with last := some (s - 1) } := by
  unfold skip? at h
  split at h
  · next ho =>
    obtain ⟨s', hs, he⟩ := Option.map_eq_some_iff.1 h
    obtain ⟨rfl, rfl⟩ := Prod.mk.inj he
    exact ⟨ho, hs, rfl⟩
  · cases h

/-- The number behind the gap is expected then, also around the point where the numbers wrap. -/
theorem next_of_skip? : b'.next = s := by
  obtain ⟨-, -, rfl⟩ := skip?_eq_some h
  exact UInt32.sub_add_cancel s 1

/-- **Behind a gap the expected packet waits,** and taking it is the same as skipping the gap and
taking it in one. -/
theorem exists_take?_of_skip? :
    ∃ p b'', p.sequence = s ∧ b'.take? b'.next = some (p, b'') ∧ b.take? s = some (p, b'') := by
  obtain ⟨-, hlow, hb'⟩ := skip?_eq_some h
  obtain ⟨⟨q, hq, hqs⟩, -⟩ := lowest?_eq_some hlow
  have hwaits : b.take? s ≠ none := fun hn => take?_eq_none.1 hn q hq hqs
  obtain ⟨⟨p, b''⟩, ht⟩ := Option.ne_none_iff_exists'.1 hwaits
  have hsame : b'.take? s = b.take? s := by rw [hb']; rfl
  exact ⟨p, b'', (take?_eq_some ht).1, by rw [next_of_skip? h, hsame, ht], ht⟩

/-- The first packet to leave behind a gap. -/
theorem flush_of_skip? : ∃ p ps, p.sequence = s ∧ b'.flush.1 = p :: ps := by
  obtain ⟨p, b'', hp, ht, -⟩ := exists_take?_of_skip? h
  exact ⟨p, b''.flush.1, hp, by rw [flush_of_some ht]⟩

/-- With every gap the packets that are not in order become fewer. -/
theorem length_lt_of_skip? : b'.flush.2.waiting.length < b.waiting.length := by
  obtain ⟨p, ps, -, hf⟩ := flush_of_skip? h
  obtain ⟨-, -, hb'⟩ := skip?_eq_some h
  have hperm := b'.perm_flush.length_eq
  have hsame : b'.waiting = b.waiting := by rw [hb']
  rw [hf, hsame, List.length_append, List.length_cons] at hperm
  omega

theorem run_of_skip? (hnext : b.take? b.next = none) :
    b.run now timeout = (.skipped b.next s :: (b'.run now timeout).1, (b'.run now timeout).2) := by
  obtain ⟨ho, hlow, -⟩ := skip?_eq_some h
  obtain ⟨p, b'', -, ht', ht⟩ := exists_take?_of_skip? h
  have hmove : b.advance? now timeout = some ([.skipped b.next s, .released p], b'') := by
    simp [advance?, hnext, ho, hlow, ht]
  have hmove' : b'.advance? now timeout = some ([.released p], b'') := by
    simp only [advance?, ht']
  rw [run_of_some hmove, run_of_some hmove']
  rfl

end

theorem run_of_not_skip? (hnext : b.take? b.next = none) (h : b.skip? now timeout = none) :
    b.run now timeout = ([], b) := by
  refine run_of_none ?_
  rcases skip?_eq_none h with ho | hlow
  · simp [advance?, hnext, ho]
  · simp [advance?, hnext, hlow]

/-! ## Rounds -/

/-- The rounds of a buffer, up to one that gives up no gap. -/
inductive Rounds (now timeout : Duration) : Buffer α → List (Round α) → Buffer α → Prop
  | last {b : Buffer α} : b.flush.2.skip? now timeout = none →
      Rounds now timeout b [⟨b.flush.1, none⟩] b.flush.2
  | more {b b₁ b' : Buffer α} {s : UInt32} {rounds : List (Round α)} :
      b.flush.2.skip? now timeout = some (s, b₁) → Rounds now timeout b₁ rounds b' →
      Rounds now timeout b (⟨b.flush.1, some (b.flush.2.next, s)⟩ :: rounds) b'

theorem exists_rounds (b : Buffer α) (now timeout : Duration) :
    ∃ rounds b', Rounds now timeout b rounds b' := by
  -- the packets that are not in order become fewer from gap to gap
  induction hn : b.flush.2.waiting.length using Nat.strong_induction_on generalizing b with
  | _ n ih =>
    cases hs : b.flush.2.skip? now timeout with
    | none => exact ⟨_, _, .last hs⟩
    | some r =>
      obtain ⟨s, b₁⟩ := r
      have hlt : b₁.flush.2.waiting.length < n := hn ▸ length_lt_of_skip? hs
      obtain ⟨rounds, b', h⟩ := ih _ hlt b₁ rfl
      exact ⟨_, _, .more hs h⟩

namespace Rounds
variable {rounds : List (Round α)} (h : Rounds now timeout b rounds b')
include h

/-- A limit below the number of rounds does not suffice, and a higher one changes nothing. -/
theorem loop_eq (limit : Nat) :
    b.loop now timeout limit = if rounds.length ≤ limit then some (rounds, b') else none := by
  induction h generalizing limit with
  | last hs =>
    cases limit with
    | zero => rfl
    | succ limit => simp [loop, hs]
  | more hs _ ih =>
    cases limit with
    | zero => rfl
    | succ limit =>
      rw [loop, hs, List.length_cons]
      simp only [ih limit, Nat.add_le_add_iff_right]
      split <;> rfl

/-- The rounds are the moves of the buffer. -/
theorem run_eq : b.run now timeout = (rounds.flatMap Round.steps, b') := by
  induction h with
  | @last b hs =>
    rw [run_flush, run_of_not_skip? b.take?_flush hs]
    simp [Round.steps]
  | @more b b₁ b' s rounds hs _ ih =>
    rw [run_flush, run_of_skip? hs b.take?_flush, ih]
    simp [Round.steps]

theorem exists_cons : ∃ gap rest, rounds = ⟨b.flush.1, gap⟩ :: rest := by
  cases h with
  | last => exact ⟨_, _, rfl⟩
  | more => exact ⟨_, _, rfl⟩

/-- **Behind every gap a packet leaves.** -/
theorem isChain : rounds.IsChain Round.Opens := by
  induction h with
  | last => exact .singleton _
  | @more b b₁ b' s rounds hs hr ih =>
    obtain ⟨gap, rest, rfl⟩ := hr.exists_cons
    obtain ⟨p, ps, rfl, hf⟩ := flush_of_skip? hs
    exact ih.cons_cons ⟨_, p, ps, rfl, hf⟩

theorem gap_getLast? : rounds.getLast?.map Round.gap = some none := by
  induction h with
  | last => rfl
  | @more b b₁ b' s rounds hs hr ih =>
    obtain ⟨gap, rest, rfl⟩ := hr.exists_cons
    rwa [List.getLast?_cons_cons]

theorem released_eq :
    (b.retrieve now timeout).released = rounds.flatMap Round.released := by
  rw [released_retrieve, h.run_eq]
  simp [List.filterMap_flatMap]

theorem perm : b.waiting.Perm ((b.retrieve now timeout).released ++ b'.waiting) := by
  have hd := (drains_run b now timeout).perm
  rwa [← released_retrieve, h.run_eq] at hd

theorem length_le : rounds.length ≤ b.waiting.length + 1 := by
  obtain ⟨gap, rest, rfl⟩ := h.exists_cons
  have hrest := Round.length_le_of_isChain h.isChain
  have hperm := h.perm.length_eq
  rw [h.released_eq, List.flatMap_cons, List.length_append, List.length_append] at hperm
  rw [List.length_cons]
  omega

end Rounds

/-- **Every retrieval ends.** Whatever the last number is and whatever waits, repeated numbers and
late ones included, the loop ends after at most one round more than packets wait. Each round but the
last one gives up a gap, and the packet behind the gap leaves first in the next round. A retrieval
is these rounds and then drops what is late. The packets that leave and those that are still there
behind the last round are the packets that waited, each of them once. -/
theorem loop_ends (b : Buffer α) (now timeout : Duration) :
    ∃ rounds b',
      (∀ limit, b.loop now timeout limit =
        if rounds.length ≤ limit then some (rounds, b') else none) ∧
      rounds.length ≤ b.waiting.length + 1 ∧
      rounds.IsChain Round.Opens ∧ rounds.getLast?.map Round.gap = some none ∧
      let r := b.retrieve now timeout
      r = ⟨b'.discardLate.2, rounds.flatMap Round.steps ++ b'.discardLate.1⟩ ∧
      b.waiting.Perm (r.released ++ b'.waiting) := by
  obtain ⟨rounds, b', h⟩ := b.exists_rounds now timeout
  refine ⟨rounds, b', h.loop_eq, h.length_le, h.isChain, h.gap_getLast?, ?_, h.perm⟩
  rw [retrieve, h.run_eq]

/-- No lower limit suffices where two packets bear the last number and one lies across the circle
from it: each of the three leaves behind a gap of its own. -/
example :
    let across : Packet Nat := ⟨2147483653, 7, .zero⟩
    let b : Buffer Nat := ⟨8, some 5, [⟨5, 8, .zero⟩, across, ⟨5, 9, .zero⟩]⟩
    b.loop .zero .zero b.waiting.length = none ∧ (b.retrieve .zero .zero).steps =
      [.skipped 6 2147483653, .released across, .skipped 2147483654 5, .released ⟨5, 8, .zero⟩,
        .skipped 6 5, .released ⟨5, 9, .zero⟩] := by
  decide +kernel

end Buffer

end HybridAccess.Reorder
