/-
  HybridAccess — packets leave in order.

  The numbers behind the last one, up to the `n`-th, arrive in any order and any
  number of times, and no packet waits for a whole timeout. `Filled` is the
  invariant: on the line that stands for the buffer, everything up to the last
  index has left in order, everything else that has arrived waits, and every
  packet carries the payload that arrived first with its number.
-/
import Mathlib.Data.List.Induction
import Mathlib.Data.List.Perm.Subperm
import Mathlib.Order.Bounds.Defs
import HybridAccess.Proofs.Reorder.Invariant
import HybridAccess.Proofs.Reorder.Wrap

namespace HybridAccess.Reorder

variable {α : Type}

/-- The payload of a number in a call. -/
def Call.payload? (s : UInt32) : Call α → Option α
  | insert t x _ => if t = s then some x else none
  | _ => none

/-- The payload that arrived first with a number. -/
def firstPayload? (s : UInt32) (calls : List (Call α)) : Option α :=
  calls.findSome? (Call.payload? s)

/-- Packets with the numbers behind `k`, up to the `n`-th, arrive, and nothing is forgotten. -/
def Within (k : UInt32) (n : Nat) (calls : List (Call α)) : Prop :=
  ∀ c ∈ calls, match c with
    | .insert s _ _ => ∃ i, 1 ≤ i ∧ i ≤ n ∧ s = number k i
    | .retrieve _ _ => True
    | .reset => False

/-- Nothing waits, and `k` was the last number, zero before the first. -/
structure Buffer.Idle (k : UInt32) (b : Buffer α) : Prop where
  waiting : b.waiting = []
  last : Line.Starts k b.last

/-- Whenever packets may leave, none has waited for the whole timeout. -/
def Buffer.Punctual (b : Buffer α) (calls : List (Call α)) : Prop :=
  ∀ pre now timeout, pre ++ [.retrieve now timeout] <+: calls →
    ∀ p ∈ (b.performAll pre).waiting, p.age now < timeout

section
variable {s t : UInt32} {x : α} {now timeout : Duration} {done : List (Call α)}

theorem firstPayload?_insert : firstPayload? s (done ++ [.insert t x now]) =
    (firstPayload? s done).or (if t = s then some x else none) := by
  simp [firstPayload?, Call.payload?]

@[simp] theorem firstPayload?_retrieve :
    firstPayload? s (done ++ [.retrieve now timeout]) = firstPayload? s done := by
  simp [firstPayload?, Call.payload?]

theorem firstPayload?_insert_again (h : firstPayload? t done ≠ none) :
    firstPayload? s (done ++ [.insert t x now]) = firstPayload? s done := by
  rw [firstPayload?_insert]
  split
  · next he =>
    obtain ⟨y, hy⟩ := Option.ne_none_iff_exists'.1 h
    rw [← he, hy, Option.some_or]
  · exact Option.or_none

theorem firstPayload?_insert_of_ne (h : t ≠ s) :
    firstPayload? s (done ++ [.insert t x now]) = firstPayload? s done := by
  rw [firstPayload?_insert, if_neg h, Option.or_none]

theorem firstPayload?_insert_self (h : firstPayload? t done = none) :
    firstPayload? t (done ++ [.insert t x now]) = some x := by
  rw [firstPayload?_insert, h, if_pos rfl, Option.none_or]

end

/-- The invariant of a run in order: `m` stands for the buffer behind the calls `done`, in which
the packets `out` have left. -/
structure Filled (k : UInt32) (n : Nat) (done : List (Call α)) (out : List (Packet α))
    (m : Line α) : Prop where
  wellFormed : m.WellFormed
  last : m.last ≤ n
  within : ∀ it ∈ m.waiting, it.index ≤ n
  waits : ∀ it ∈ m.waiting, firstPayload? (number k it.index) done = some it.payload
  out : out.map (fun p => (p.sequence, some p.payload)) =
    (List.range' 1 m.last).map fun i => (number k i, firstPayload? (number k i) done)
  kept : ∀ s, firstPayload? s done ≠ none →
    ∃ i, 1 ≤ i ∧ i ≤ n ∧ s = number k i ∧ (i ≤ m.last ∨ ∃ it ∈ m.waiting, it.index = i)

namespace Filled

variable {k : UInt32} {n i : Nat} {done : List (Call α)} {out : List (Packet α)} {m m' : Line α}
  {now timeout : Duration} {it : Item α} {x : α}

theorem empty (k : UInt32) (n capacity : Nat) :
    Filled k n ([] : List (Call α)) [] (Line.empty capacity) := by
  refine ⟨Line.WellFormed.empty capacity, Nat.zero_le n, ?_, ?_, rfl, fun s h => absurd rfl h⟩
  · exact fun _ h => absurd h List.not_mem_nil
  · exact fun _ h => absurd h List.not_mem_nil

variable (h : Filled k n done out m)
include h

theorem arrived (hi : 1 ≤ i) (hl : i ≤ m.last) : firstPayload? (number k i) done ≠ none := by
  have hmem : (number k i, firstPayload? (number k i) done) ∈
      out.map fun p => (p.sequence, some p.payload) := by
    rw [h.out]
    exact List.mem_map.2 ⟨i, List.mem_range'_1.2 ⟨hi, by omega⟩, rfl⟩
  obtain ⟨p, -, hp⟩ := List.mem_map.1 hmem
  rw [← (Prod.mk.inj hp).2]
  exact Option.some_ne_none _

theorem left_or_waits (hn : n < halfCircle) (hi : 1 ≤ i) (hin : i ≤ n)
    (ha : firstPayload? (number k i) done ≠ none) :
    i ≤ m.last ∨ ∃ it ∈ m.waiting, it.index = i := by
  obtain ⟨j, hj, hjn, he, hk⟩ := h.kept _ ha
  obtain rfl := (number_inj (by omega) (by omega)).1 he
  exact hk

/-- There is room for what has not arrived. -/
theorem room (hi : m.last < i) (hin : i ≤ n) (hd : ∀ it ∈ m.waiting, it.index ≠ i) :
    m.waiting.length < n := by
  have hnd : (i :: m.waiting.map (·.index)).Nodup := by
    refine List.nodup_cons.2 ⟨fun hm => ?_, h.wellFormed.distinct⟩
    obtain ⟨it, hit, he⟩ := List.mem_map.1 hm
    exact hd it hit he
  have hsub : i :: m.waiting.map (·.index) ⊆ List.range' 1 n := by
    intro j hj
    rw [List.mem_range'_1]
    rcases List.mem_cons.1 hj with rfl | hj
    · omega
    · obtain ⟨it, hit, rfl⟩ := List.mem_map.1 hj
      have h₁ := h.wellFormed.ahead it hit
      have h₂ := h.within it hit
      omega
  have := (List.subperm_of_subset hnd hsub).length_le
  rw [List.length_cons, List.length_map, List.length_range'] at this
  omega

/-! ## Taking a packet in -/

theorem near (hn : n < halfCircle) (hi : 1 ≤ i) (hin : i ≤ n) (x : α) (now : Duration) :
    (Line.Call.insert i x now).Near m := by
  have := h.last
  exact ⟨hi, by omega, by omega⟩

theorem ahead_of_new (hi : 1 ≤ i) (ha : firstPayload? (number k i) done = none) :
    m.last < i ∧ ∀ it ∈ m.waiting, it.index ≠ i := by
  refine ⟨Nat.lt_of_not_le fun hl => h.arrived hi hl ha, fun it hit he => ?_⟩
  rw [← he, h.waits it hit] at ha
  cases ha

/-- The first packet with an index is taken in. -/
theorem insert_of_new (hcap : n ≤ m.capacity) (hi : 1 ≤ i) (hin : i ≤ n)
    (ha : firstPayload? (number k i) done = none) (x : α) (now : Duration) :
    m.insert i x now = .ok { m with waiting := m.waiting ++ [⟨i, x, now⟩] } := by
  obtain ⟨hlast, hd⟩ := h.ahead_of_new hi ha
  have hroom := h.room hlast hin hd
  rcases m.insert_cases i x now with
    ⟨hl, -⟩ | ⟨-, ⟨it, hit, he⟩, -⟩ | ⟨-, -, hc, -⟩ | ⟨-, -, -, hok⟩
  · omega
  · exact absurd he (hd it hit)
  · omega
  · exact hok

/-- A repeated packet is refused. -/
theorem insert_of_again (hn : n < halfCircle) (hi : 1 ≤ i) (hin : i ≤ n)
    (ha : firstPayload? (number k i) done ≠ none) (x : α) (now : Duration) :
    m.insert i x now = .error (.late i m.last) ∨ m.insert i x now = .error (.duplicate i) := by
  rcases m.insert_cases i x now with ⟨-, he⟩ | ⟨-, -, he⟩ | ⟨hl, hd, -⟩ | ⟨hl, hd, -⟩
  · exact Or.inl he
  · exact Or.inr he
  all_goals
    rcases h.left_or_waits hn hi hin ha with hle | ⟨it, hit, he⟩
    · omega
    · exact absurd he (hd it hit)

theorem push (hw : ({ m with waiting := m.waiting ++ [⟨i, x, now⟩] } : Line α).WellFormed)
    (hn : n < halfCircle) (hi : 1 ≤ i) (hin : i ≤ n)
    (ha : firstPayload? (number k i) done = none) :
    Filled k n (done ++ [.insert (number k i) x now]) out
      { m with waiting := m.waiting ++ [⟨i, x, now⟩] } := by
  obtain ⟨hlast, hd⟩ := h.ahead_of_new hi ha
  have hn' := h.last
  have hne : ∀ j, j ≤ n → j ≠ i → number k i ≠ number k j := fun j hj hji he =>
    hji ((number_inj (by omega) (by omega)).1 he.symm)
  refine ⟨hw, h.last, fun it hit => ?_, fun it hit => ?_, ?_, fun s hs => ?_⟩
  · rcases List.mem_append.1 hit with hit | hit
    · exact h.within it hit
    · rw [List.mem_singleton.1 hit]; exact hin
  · rcases List.mem_append.1 hit with hit | hit
    · rw [firstPayload?_insert_of_ne (hne _ (h.within it hit) (hd it hit))]
      exact h.waits it hit
    · rw [List.mem_singleton.1 hit]
      exact firstPayload?_insert_self ha
  · rw [h.out]
    refine List.map_congr_left fun j hj => ?_
    have hj := List.mem_range'_1.1 hj
    rw [firstPayload?_insert_of_ne (hne j (by omega) (by omega))]
  · by_cases hs' : number k i = s
    · exact ⟨i, hi, hin, hs'.symm, Or.inr ⟨_, List.mem_append_right _ List.mem_cons_self, rfl⟩⟩
    · rw [firstPayload?_insert_of_ne hs'] at hs
      obtain ⟨j, hj, hjn, he, hk⟩ := h.kept s hs
      refine ⟨j, hj, hjn, he, hk.imp_right ?_⟩
      rintro ⟨it, hit, hij⟩
      exact ⟨it, List.mem_append_left _ hit, hij⟩

theorem congr_calls {done' : List (Call α)}
    (hs : ∀ s, firstPayload? s done' = firstPayload? s done) : Filled k n done' out m := by
  refine ⟨h.wellFormed, h.last, h.within, fun it hit => ?_, ?_, fun s hne => ?_⟩
  · rw [hs]; exact h.waits it hit
  · simp only [hs]; exact h.out
  · rw [hs] at hne; exact h.kept s hne

theorem insert (hcap : n ≤ m.capacity) (hn : n < halfCircle) (hi : 1 ≤ i) (hin : i ≤ n) (x : α)
    (now : Duration) :
    Filled k n (done ++ [.insert (number k i) x now]) out (m.perform (.insert i x now)) := by
  have hw := h.wellFormed.perform (h.near hn hi hin x now)
  by_cases ha : firstPayload? (number k i) done = none
  · simp only [Line.perform, h.insert_of_new hcap hi hin ha] at hw ⊢
    exact h.push hw hn hi hin ha
  · have hsame : Filled k n (done ++ [.insert (number k i) x now]) out m :=
      h.congr_calls fun s => firstPayload?_insert_again ha
    rcases h.insert_of_again hn hi hin ha x now with he | he
    · simpa only [Line.perform, he] using hsame
    · simpa only [Line.perform, he] using hsame

/-! ## Letting packets leave -/

/-- If nobody is overdue, the packet behind the last one leaves. -/
theorem leaves (hy : m.overdue now timeout = false) (hl : Line.Leaves now timeout m it m') :
    Filled k n done (out ++ [it.onCircle k]) m' := by
  have hidx : it.index = m.last + 1 := hl.due.resolve_right fun ho => by rw [hy] at ho; cases ho
  have hlast : m'.last = m.last + 1 := hl.last.trans hidx
  have hit : it ∈ m.waiting := hl.perm.mem_iff.2 List.mem_cons_self
  have hmem : ∀ jt ∈ m'.waiting, jt ∈ m.waiting := fun jt hj =>
    hl.perm.mem_iff.2 (List.mem_cons_of_mem _ hj)
  refine ⟨hl.wellFormed h.wellFormed, ?_, fun jt hj => h.within jt (hmem jt hj),
    fun jt hj => h.waits jt (hmem jt hj), ?_, fun s hs => ?_⟩
  · rw [hl.last]; exact h.within it hit
  · have hp := h.waits it hit
    rw [hidx] at hp
    rw [hlast, List.range'_concat, List.map_append, List.map_append, h.out]
    simp only [List.map_cons, List.map_nil, Nat.one_mul, Nat.add_comm 1, hp, Item.onCircle, hidx]
  · obtain ⟨i, hi, hin, he, hk⟩ := h.kept s hs
    refine ⟨i, hi, hin, he, ?_⟩
    rcases hk with hle | ⟨jt, hj, rfl⟩
    · exact Or.inl (by omega)
    · rcases List.mem_cons.1 (hl.perm.mem_iff.1 hj) with rfl | hj
      · exact Or.inl (by omega)
      · exact Or.inr ⟨jt, hj, rfl⟩

omit h in
theorem overdue_of_leaves (hy : m.overdue now timeout = false)
    (hl : Line.Leaves now timeout m it m') : m'.overdue now timeout = false := by
  simp only [Line.overdue, List.any_eq_false] at hy ⊢
  exact fun jt hj => hy jt (hl.perm.mem_iff.2 (List.mem_cons_of_mem _ hj))

/-- Behind the last packet that leaves there is a gap. -/
theorem run (hy : m.overdue now timeout = false) :
    Filled k n done (out ++ (m.run now timeout).1.map (Item.onCircle k)) (m.run now timeout).2 ∧
      ∀ it ∈ (m.run now timeout).2.waiting, it.index ≠ (m.run now timeout).2.last + 1 := by
  fun_induction Line.run m now timeout generalizing out with
  | case1 m hn =>
    refine ⟨by simpa using h, fun it hit he => ?_⟩
    have ht : m.take? (m.last + 1) = none := by
      cases ht : m.take? (m.last + 1) with
      | none => rfl
      | some r => simp [Line.advance?, ht] at hn
    simp only [Line.take?, Option.map_eq_none_iff, List.find?_eq_none, beq_iff_eq] at ht
    exact ht it hit he
  | case2 m it m' ha rest m'' hr ih =>
    have hl := h.wellFormed.leaves ha
    have := ih (h.leaves hy hl) (overdue_of_leaves hy hl)
    rw [hr] at this
    rwa [List.append_assoc] at this

theorem retrieve_onCircle {start : Option UInt32} (hs : Line.Starts k start)
    (hy : ∀ p ∈ (m.onCircle k start).waiting, p.age now < timeout) :
    ∃ m' : Line α, ((m.onCircle k start).retrieve now timeout).buffer = m'.onCircle k start ∧
      Filled k n done (out ++ ((m.onCircle k start).retrieve now timeout).released) m' ∧
      ∀ it ∈ m'.waiting, it.index ≠ m'.last + 1 := by
  have hy' : (m.onCircle k start).overdue now timeout = false := by
    rw [Buffer.overdue, List.any_eq_false]
    intro p hp ho
    exact Nat.not_le.2 (hy p hp) (of_decide_eq_true ho)
  rw [Line.overdue_onCircle] at hy'
  obtain ⟨hrel, hbuf⟩ := Line.retrieve_onCircle hs h.wellFormed now timeout
  rw [h.wellFormed.retrieve] at hrel hbuf
  rw [hrel]
  exact ⟨_, hbuf, h.run hy'⟩

/-- The last index is the greatest one up to which all have arrived. -/
theorem isGreatest (hn : n < halfCircle) (hgap : ∀ it ∈ m.waiting, it.index ≠ m.last + 1) :
    IsGreatest {j | ∀ i, 1 ≤ i → i ≤ j → firstPayload? (number k i) done ≠ none} m.last := by
  refine ⟨fun i hi hl => h.arrived hi hl, fun j hj => Nat.le_of_not_lt fun hlt => ?_⟩
  have hlast := h.last
  obtain ⟨i, hi, hin, he, hk⟩ := h.kept _ (hj (m.last + 1) (by omega) hlt)
  obtain rfl := (number_inj (by omega) (by omega)).1 he
  rcases hk with hle | ⟨it, hit, hidx⟩
  · omega
  · exact hgap it hit hidx

/-- Exactly what has arrived and has not left waits. -/
theorem waiting_iff (hn : n < halfCircle) (start : Option UInt32) (s : UInt32) (x : α) :
    (∃ p ∈ (m.onCircle k start).waiting, p.content = (s, x)) ↔
      firstPayload? s done = some x ∧ ∀ i, 1 ≤ i → i ≤ m.last → s ≠ number k i := by
  constructor
  · rintro ⟨p, hp, hpc⟩
    obtain ⟨it, hit, rfl⟩ := List.mem_map.1 hp
    obtain ⟨rfl, rfl⟩ := Prod.mk.inj hpc
    refine ⟨h.waits it hit, fun i hi hl he => ?_⟩
    have h₁ := h.wellFormed.ahead it hit
    have h₂ := h.within it hit
    have := (number_inj (by omega) (by omega)).1 he
    omega
  · rintro ⟨hx, hleft⟩
    obtain ⟨i, hi, hin, rfl, hl | ⟨it, hit, rfl⟩⟩ := h.kept s fun hnone => by
      rw [hx] at hnone; cases hnone
    · exact absurd rfl (hleft i hi hl)
    · refine ⟨_, List.mem_map.2 ⟨it, hit, rfl⟩, ?_⟩
      rw [h.waits it hit] at hx
      cases hx; rfl

end Filled

/-! ## Runs -/

namespace Buffer

variable {b : Buffer α} {k : UInt32} {n : Nat}

theorem Punctual.of_prefix {calls calls' : List (Call α)} (hp : b.Punctual calls)
    (h : calls' <+: calls) : b.Punctual calls' :=
  fun pre now timeout hpre => hp pre now timeout (hpre.trans h)

theorem Idle.eq_onCircle (hb : b.Idle k) : b = (Line.empty b.capacity).onCircle k b.last := by
  obtain ⟨capacity, last, waiting⟩ := b
  obtain rfl : waiting = [] := hb.waiting
  rfl

theorem capacity_eq_of_onCircle {calls : List (Call α)} {start : Option UInt32} {m : Line α}
    (hm : b.performAll calls = m.onCircle k start) : b.capacity = m.capacity := by
  rw [← b.capacity_performAll calls, hm]; rfl

theorem Idle.filled (hb : b.Idle k) (hcap : n ≤ b.capacity) (hn : n < halfCircle)
    {calls : List (Call α)} (hw : Within k n calls) (hp : b.Punctual calls) :
    ∃ m : Line α, b.performAll calls = m.onCircle k b.last ∧
      Filled k n calls (b.released calls) m := by
  induction calls using List.reverseRecOn with
  | nil => exact ⟨_, hb.eq_onCircle, Filled.empty k n b.capacity⟩
  | append_singleton cs c ih =>
    obtain ⟨m, hm, hf⟩ := ih (fun d hd => hw d (List.mem_append_left _ hd))
      (hp.of_prefix (List.prefix_append _ _))
    have hcap' : n ≤ m.capacity := capacity_eq_of_onCircle hm ▸ hcap
    rw [performAll_append, performAll_singleton, released_concat, hm]
    have hc := hw c (List.mem_append_right _ List.mem_cons_self)
    cases c with
    | insert s x now =>
      obtain ⟨i, hi, hin, rfl⟩ := hc
      refine ⟨m.perform (.insert i x now), ?_, ?_⟩
      · exact (Line.perform_onCircle hb.last hf.wellFormed (hf.near hn hi hin x now)).1
      · simpa [stepsOf] using hf.insert hcap' hn hi hin x now
    | retrieve now timeout =>
      have hy := hp cs now timeout List.prefix_rfl
      rw [hm] at hy
      obtain ⟨m', hm', hf', -⟩ := hf.retrieve_onCircle hb.last hy
      exact ⟨m', hm', hf'.congr_calls fun s => firstPayload?_retrieve⟩
    | reset => exact hc.elim

/-- The first packet with a number is taken in, and every repeated one is refused. -/
theorem Idle.answer_insert (hb : b.Idle k) (hcap : n ≤ b.capacity) (hn : n < halfCircle)
    {pre : List (Call α)} {s : UInt32} {x : α} {now : Duration}
    (hw : Within k n (pre ++ [.insert s x now])) (hp : b.Punctual pre) :
    (firstPayload? s pre = none → (b.performAll pre).answer (.insert s x now) = .accepted) ∧
    (firstPayload? s pre ≠ none →
      (b.performAll pre).answer (.insert s x now) = .refused (.duplicate s) ∨
      ∃ l, (b.performAll pre).answer (.insert s x now) = .refused (.late s l)) := by
  obtain ⟨m, hm, hf⟩ := hb.filled hcap hn (fun d hd => hw d (List.mem_append_left _ hd)) hp
  have hcap' : n ≤ m.capacity := capacity_eq_of_onCircle hm ▸ hcap
  obtain ⟨i, hi, hin, rfl⟩ := hw _ (List.mem_append_right _ List.mem_cons_self)
  have ha := (Line.perform_onCircle hb.last hf.wellFormed (hf.near hn hi hin x now)).2
  rw [← hm] at ha
  refine ⟨fun hnew => ?_, fun hagain => ?_⟩
  · refine ha.trans ?_
    rw [Line.answer, hf.insert_of_new hcap' hi hin hnew]; rfl
  · rcases hf.insert_of_again hn hi hin hagain x now with he | he
    · refine Or.inr ⟨number k m.last, ha.trans ?_⟩
      rw [Line.answer, he]; rfl
    · refine Or.inl (ha.trans ?_)
      rw [Line.answer, he]; rfl

/-- **In order.** Nothing waits, `k` was the last number, and packets with the numbers behind `k`
up to the `n`-th arrive in any order, any number of times, while packets may leave at any moment at
which none has waited for the whole timeout. The first packet with a number is taken in and the
others are refused. Behind every retrieval there is a greatest `j` so that all numbers up to the
`j`-th have arrived: exactly these have left, in order, each with the payload that arrived first,
and exactly the other ones that have arrived wait. -/
theorem released_in_order (b : Buffer α) (k : UInt32) (n : Nat) (calls : List (Call α))
    (hb : b.Idle k) (hcap : n ≤ b.capacity) (hn : n < halfCircle) (hw : Within k n calls)
    (hp : b.Punctual calls) :
    (∀ pre s x now, pre ++ [.insert s x now] <+: calls →
      (firstPayload? s pre = none → (b.performAll pre).answer (.insert s x now) = .accepted) ∧
      (firstPayload? s pre ≠ none →
        (b.performAll pre).answer (.insert s x now) = .refused (.duplicate s) ∨
        ∃ l, (b.performAll pre).answer (.insert s x now) = .refused (.late s l))) ∧
    ∀ pre now timeout, pre ++ [.retrieve now timeout] <+: calls →
      ∃ j, IsGreatest {j | ∀ i, 1 ≤ i → i ≤ j → firstPayload? (number k i) pre ≠ none} j ∧
        (b.released (pre ++ [.retrieve now timeout])).map (fun p => (p.sequence, some p.payload)) =
          (List.range' 1 j).map (fun i => (number k i, firstPayload? (number k i) pre)) ∧
        ∀ s x, (∃ p ∈ (b.performAll (pre ++ [.retrieve now timeout])).waiting,
            p.content = (s, x)) ↔
          firstPayload? s pre = some x ∧ ∀ i, 1 ≤ i → i ≤ j → s ≠ number k i := by
  refine ⟨fun pre s x now hpre => ?_, fun pre now timeout hpre => ?_⟩
  · exact hb.answer_insert hcap hn (fun c hc => hw c (hpre.mem hc))
      (hp.of_prefix ((List.prefix_append _ _).trans hpre))
  · obtain ⟨m, hm, hf⟩ := hb.filled hcap hn
      (fun c hc => hw c (hpre.mem (List.mem_append_left _ hc)))
      (hp.of_prefix ((List.prefix_append _ _).trans hpre))
    have hy := hp pre now timeout hpre
    rw [hm] at hy
    obtain ⟨m', hm', hf', hgap⟩ := hf.retrieve_onCircle hb.last hy
    have hbuf : b.performAll (pre ++ [.retrieve now timeout]) = m'.onCircle k b.last := by
      rw [performAll_append, hm]; exact hm'
    have hrel : b.released (pre ++ [.retrieve now timeout]) =
        b.released pre ++ ((m.onCircle k b.last).retrieve now timeout).released := by
      rw [released_concat, hm]; rfl
    rw [hbuf, hrel]
    exact ⟨m'.last, hf'.isGreatest hn hgap, hf'.out, hf'.waiting_iff hn b.last⟩

/-- Three packets around the point where the numbers wrap: the second one arrives first, and once
more with another payload. -/
theorem released_in_order_around_the_wrap :
    let b : Buffer Nat := ⟨3, some 4294967294, []⟩
    let pre : List (Call Nat) := [.insert 0 8 .zero, .retrieve .zero ⟨1⟩,
      .insert 4294967295 7 .zero, .insert 0 9 .zero, .insert 1 5 .zero]
    let calls := pre ++ [.retrieve .zero ⟨1⟩]
    b.Idle 4294967294 ∧ 3 ≤ b.capacity ∧ 3 < halfCircle ∧ Within 4294967294 3 calls ∧
    b.Punctual calls ∧ (b.released calls).map Packet.content = [(4294967295, 7), (0, 8), (1, 5)] ∧
    ∃ j, IsGreatest
        {j | ∀ i, 1 ≤ i → i ≤ j → firstPayload? (number 4294967294 i) pre ≠ none} j ∧
      (b.released calls).map (fun p => (p.sequence, some p.payload)) =
        (List.range' 1 j).map fun i =>
          (number 4294967294 i, firstPayload? (number 4294967294 i) pre) := by
  intro b pre calls
  have hb : b.Idle 4294967294 := ⟨rfl, Or.inr rfl⟩
  have hw : Within 4294967294 3 calls := by
    intro c hc
    simp only [calls, pre, List.cons_append, List.nil_append, List.mem_cons, List.not_mem_nil,
      or_false] at hc
    rcases hc with rfl | rfl | rfl | rfl | rfl | rfl
    · exact ⟨2, by decide⟩
    · trivial
    · exact ⟨1, by decide⟩
    · exact ⟨2, by decide⟩
    · exact ⟨3, by decide⟩
    · trivial
  -- at the time zero nobody has waited
  have hp : b.Punctual calls := by
    intro done now timeout hdone p _
    have hc := hdone.mem (List.mem_append_right _ List.mem_cons_self)
    have : now = .zero ∧ timeout = ⟨1⟩ := by simpa [calls, pre] using hc
    obtain ⟨rfl, rfl⟩ := this
    exact Nat.lt_of_le_of_lt (Nat.sub_le _ _) Nat.zero_lt_one
  obtain ⟨j, hj, hout, -⟩ := (released_in_order b 4294967294 3 calls hb (by decide) (by decide)
    hw hp).2 pre .zero ⟨1⟩ List.prefix_rfl
  exact ⟨hb, by decide, by decide, hw, hp, by decide +kernel, j, hj, hout⟩

end Buffer

end HybridAccess.Reorder
