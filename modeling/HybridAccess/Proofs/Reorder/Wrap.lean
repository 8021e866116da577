/-
  HybridAccess — wrapping is invisible.

  As long as every index stays within half of the circle of the last one, the
  buffer on the circle does what the line does (`Line.perform_onCircle`,
  `Line.answer_onCircle`): the numbers of the waiting indices are distinct, lie
  ahead of the last number as far as the indices do, and are compared alike.
  This carries over to whole runs, however often the numbers wrap.
-/
import Mathlib.Data.List.Find
import HybridAccess.Proofs.Reorder.Line

namespace HybridAccess.Reorder

variable {α : Type} {k : UInt32} {i j : Nat}

/-! ## Numbers of indices -/

@[simp] theorem number_zero (k : UInt32) : number k 0 = k := by simp [number]

theorem number_succ (k : UInt32) (i : Nat) : number k (i + 1) = number k i + 1 := by
  rw [number, number, UInt32.ofNat_add, ← UInt32.add_assoc]; rfl

theorem number_add (k : UInt32) (i d : Nat) :
    number k (i + d) = number k i + UInt32.ofNat d := by
  rw [number, number, UInt32.ofNat_add, UInt32.add_assoc]

/-- The number of an index counted from zero is its remainder. -/
theorem toNat_number_zero (i : Nat) : (number 0 i).toNat = i % UInt32.size := by
  simp [number]

theorem ahead_number (h : i ≤ j) (h' : j < i + 2 * halfCircle) :
    ahead (number k i) (number k j) = j - i := by
  obtain ⟨d, rfl⟩ := Nat.exists_eq_add_of_le h
  rw [number_add, ahead_add_ofNat (by omega)]; omega

theorem number_inj (h : i < j + halfCircle) (h' : j < i + halfCircle) :
    number k i = number k j ↔ i = j := by
  refine ⟨fun he => ?_, fun he => he ▸ rfl⟩
  rcases Nat.le_total i j with hle | hle
  · have := ahead_number (k := k) hle (by omega)
    rw [he, ahead_self] at this; omega
  · have := ahead_number (k := k) hle (by omega)
    rw [he, ahead_self] at this; omega

theorem after_number (h : i < j + halfCircle) (h' : j < i + halfCircle) :
    after (number k i) (number k j) = decide (j < i) := by
  by_cases hlt : j < i
  · rw [decide_eq_true hlt, after_iff, ahead_number (Nat.le_of_lt hlt) (by omega)]
    omega
  · rw [decide_eq_false hlt]
    refine not_after_of_ahead_lt ?_
    rw [ahead_number (by omega) (by omega)]; omega

namespace Line

variable {start : Option UInt32} {m m' : Line α} {now timeout : Duration}

theorem last_onCircle_of_eq (h : m.last = 0) : (m.onCircle k start).last = start := if_pos h

theorem last_onCircle_of_ne (h : m.last ≠ 0) :
    (m.onCircle k start).last = some (number k m.last) := if_neg h

/-! ## One move -/

section
variable (hs : Starts k start)
include hs

theorem next_onCircle (m : Line α) : (m.onCircle k start).next = number k (m.last + 1) := by
  by_cases hl : m.last = 0
  · rw [Buffer.next, last_onCircle_of_eq hl, hl, number_succ, number_zero]
    rcases hs with ⟨rfl, rfl⟩ | rfl <;> rfl
  · rw [Buffer.next, last_onCircle_of_ne hl, number_succ]

/-- An index within half of the circle is late on the circle if it is late on the line. -/
theorem isLate_onCircle (m : Line α) (h : 1 ≤ i) (h₁ : i < m.last + halfCircle)
    (h₂ : m.last < i + halfCircle) :
    (m.onCircle k start).isLate (number k i) = decide (i ≤ m.last) := by
  have hc : (! after (number k i) (number k m.last)) = decide (i ≤ m.last) := by
    rw [after_number h₁ h₂, ← decide_not]
    exact decide_eq_decide.2 Nat.not_lt
  by_cases hl : m.last = 0
  · rw [Buffer.isLate, last_onCircle_of_eq hl]
    rcases hs with ⟨rfl, rfl⟩ | rfl
    · exact (decide_eq_false (by omega)).symm
    · rw [hl, number_zero] at hc
      rw [hl]; exact hc
  · rw [Buffer.isLate, last_onCircle_of_ne hl]; exact hc

end

theorem WellFormed.sequence_eq_iff (hw : m.WellFormed) (h : m.last < i)
    (h' : i < m.last + halfCircle) {it : Item α} (hit : it ∈ m.waiting) :
    (it.onCircle k).sequence = number k i ↔ it.index = i := by
  have h₁ := hw.ahead it hit
  have h₂ := hw.near it hit
  exact number_inj (by omega) (by omega)

theorem eraseP_congr {β : Type} {f g : β → Bool} :
    ∀ {l : List β}, (∀ x ∈ l, f x = g x) → l.eraseP f = l.eraseP g
  | [], _ => rfl
  | x :: l, h => by
    rw [List.eraseP_cons, List.eraseP_cons, h x List.mem_cons_self,
      eraseP_congr fun y hy => h y (List.mem_cons_of_mem x hy)]

theorem take?_onCircle (hw : m.WellFormed) (h : m.last < i) (h' : i < m.last + halfCircle) :
    (m.onCircle k start).take? (number k i) =
      (m.take? i).map fun r => (r.1.onCircle k, r.2.onCircle k start) := by
  have hb : ∀ it ∈ m.waiting, ((it.onCircle k).sequence == number k i) = (it.index == i) :=
    fun it hit => by
      rw [Bool.eq_iff_iff, beq_iff_eq, beq_iff_eq]; exact hw.sequence_eq_iff h h' hit
  have hf : (m.onCircle k start).waiting.find? (·.sequence == number k i) =
      (m.waiting.find? (·.index == i)).map (Item.onCircle k) := by
    rw [onCircle, List.find?_map]; exact congrArg _ (List.find?_congr hb)
  have he : (m.onCircle k start).waiting.eraseP (·.sequence == number k i) =
      (m.waiting.eraseP (·.index == i)).map (Item.onCircle k) := by
    rw [onCircle, List.eraseP_map]; exact congrArg _ (eraseP_congr hb)
  have hne : i ≠ 0 := by omega
  rw [Buffer.take?, hf, he, take?, Option.map_map, Option.map_map]
  congr 1
  funext it
  simp [onCircle, hne]

theorem overdue_onCircle (m : Line α) (now timeout : Duration) :
    (m.onCircle k start).overdue now timeout = m.overdue now timeout := by
  simp only [Buffer.overdue, onCircle, List.any_map]; rfl

theorem lowest?_onCircle (hs : Starts k start) (hw : m.WellFormed) :
    (m.onCircle k start).lowest? = (m.waiting.map (·.index)).min?.map (number k) := by
  have hd : (m.onCircle k start).waiting.map (fun p => ahead (number k (m.last + 1)) p.sequence) =
      (m.waiting.map (·.index)).map (· - (m.last + 1)) := by
    rw [onCircle, List.map_map, List.map_map]
    refine List.map_congr_left fun it hit => ?_
    have h₁ := hw.ahead it hit
    have h₂ := hw.near it hit
    exact ahead_number (by omega) (by omega)
  rw [Buffer.lowest?, next_onCircle hs, hd]
  cases hmin : (m.waiting.map (·.index)).min? with
  | none => rw [List.min?_eq_none_iff.1 hmin]; rfl
  | some i =>
    obtain ⟨hi, hle⟩ := List.min?_eq_some_iff.1 hmin
    have hmin' : ((m.waiting.map (·.index)).map (· - (m.last + 1))).min? =
        some (i - (m.last + 1)) := by
      refine List.min?_eq_some_iff.2 ⟨List.mem_map.2 ⟨i, hi, rfl⟩, fun d hd => ?_⟩
      obtain ⟨j, hj, rfl⟩ := List.mem_map.1 hd
      exact Nat.sub_le_sub_right (hle j hj) _
    obtain ⟨it, hit, rfl⟩ := List.mem_map.1 hi
    have := hw.ahead it hit
    rw [hmin', Option.map_some, Option.map_some, ← number_add]
    congr 2; omega

/-- A move on the circle is a move on the line. -/
theorem advance?_onCircle (hs : Starts k start) (hw : m.WellFormed)
    (now timeout : Duration) :
    (m.onCircle k start).advance? now timeout = (m.advance? now timeout).map fun r =>
      ((m.onCircle k start).stepsTo (r.1.onCircle k), r.2.onCircle k start) := by
  have hh : 1 < halfCircle := by decide
  have hstep : ∀ {i : Nat} {r : Item α × Line α}, m.take? i = some r →
      (r.1.onCircle k).sequence = number k i := fun ht => by
    rw [Item.onCircle, (take?_eq_some ht).1]
  rw [Buffer.advance?, advance?, next_onCircle hs, take?_onCircle hw (by omega) (by omega),
    overdue_onCircle, lowest?_onCircle hs hw]
  cases ht : m.take? (m.last + 1) with
  | some r => simp [Buffer.stepsTo, next_onCircle hs, hstep ht]
  | none =>
    cases ho : m.overdue now timeout with
    | false => rfl
    | true =>
      cases hmin : (m.waiting.map (·.index)).min? with
      | none => rfl
      | some i =>
        obtain ⟨it, hit, rfl⟩ := List.mem_map.1 (List.min?_eq_some_iff.1 hmin).1
        have h₁ := hw.ahead it hit
        have h₂ := hw.near it hit
        -- the expected index does not wait, so that the lowest number is another one
        have hne : number k it.index ≠ number k (m.last + 1) := fun he => by
          have hi := (number_inj (by omega) (by omega)).1 he
          simp [take?] at ht
          exact ht it hit hi
        simp only [Option.map_none, Option.map_some, if_true, Option.bind_eq_bind,
          Option.bind_some, take?_onCircle hw h₁ h₂]
        cases hti : m.take? it.index with
        | none => rfl
        | some r => simp [Buffer.stepsTo, next_onCircle hs, hstep hti, hne]

theorem run_onCircle (hs : Starts k start) (hw : m.WellFormed)
    (now timeout : Duration) :
    ((m.onCircle k start).run now timeout).1.filterMap Step.packet? =
      (m.run now timeout).1.map (Item.onCircle k) ∧
    ((m.onCircle k start).run now timeout).2 = (m.run now timeout).2.onCircle k start := by
  fun_induction Line.run m now timeout with
  | case1 m h =>
    have ha := advance?_onCircle (k := k) hs hw now timeout
    rw [h] at ha
    rw [Buffer.run_of_none ha]
    exact ⟨rfl, rfl⟩
  | case2 m it m' h rest m'' hr ih =>
    have ha := advance?_onCircle (k := k) hs hw now timeout
    rw [h] at ha
    have ih := ih ((hw.leaves h).wellFormed hw)
    rw [hr] at ih
    rw [Buffer.run_of_some ha, List.filterMap_append, Buffer.filterMap_packet?_stepsTo, ih.1]
    exact ⟨rfl, ih.2⟩

theorem discardLate_onCircle (hs : Starts k start) (hw : m.WellFormed) :
    (m.onCircle k start).discardLate.2 = m.onCircle k start := by
  rw [Buffer.discardLate_of_forall]
  intro p hp
  obtain ⟨it, hit, rfl⟩ := List.mem_map.1 hp
  have h₁ := hw.ahead it hit
  have h₂ := hw.near it hit
  rw [Item.onCircle, isLate_onCircle hs m (by omega) h₂ (by omega), decide_eq_false_iff_not]
  omega

theorem retrieve_onCircle (hs : Starts k start) (hw : m.WellFormed)
    (now timeout : Duration) :
    ((m.onCircle k start).retrieve now timeout).released =
      (m.retrieve now timeout).1.map (Item.onCircle k) ∧
    ((m.onCircle k start).retrieve now timeout).buffer =
      (m.retrieve now timeout).2.onCircle k start := by
  obtain ⟨h₁, h₂⟩ := run_onCircle (k := k) hs hw now timeout
  rw [Buffer.released_retrieve, Buffer.buffer_retrieve, hw.retrieve, h₂,
    discardLate_onCircle hs (hw.run now timeout)]
  exact ⟨h₁, rfl⟩

theorem insert_onCircle (hs : Starts k start) (hw : m.WellFormed)
    (h : 1 ≤ i) (h₁ : i < m.last + halfCircle) (h₂ : m.last < i + halfCircle) (x : α)
    (now : Duration) :
    (m.onCircle k start).insert (number k i) x now = match m.insert i x now with
      | .ok m' => .ok (m'.onCircle k start)
      | .error r => .error (r.onCircle k) := by
  have hl := isLate_onCircle hs m h h₁ h₂
  have hlen : (m.onCircle k start).waiting.length = m.waiting.length := List.length_map _
  -- on the circle the same indices wait
  have hmem : m.last < i → ((∃ p ∈ (m.onCircle k start).waiting, p.sequence = number k i) ↔
      ∃ it ∈ m.waiting, it.index = i) := fun hlt => by
    constructor
    · rintro ⟨p, hp, hps⟩
      obtain ⟨it, hit, rfl⟩ := List.mem_map.1 hp
      exact ⟨it, hit, (hw.sequence_eq_iff hlt h₁ hit).1 hps⟩
    · rintro ⟨it, hit, hi⟩
      exact ⟨_, List.mem_map.2 ⟨it, hit, rfl⟩, (hw.sequence_eq_iff hlt h₁ hit).2 hi⟩
  rcases m.insert_cases i x now with
    ⟨hle, hi⟩ | ⟨hlt, hd, hi⟩ | ⟨hlt, hd, hc, hi⟩ | ⟨hlt, hd, hc, hi⟩
  · rw [hi]
    exact Buffer.insert_of_late (last_onCircle_of_ne (by omega)) (by simp [hl, hle]) x now
  · rw [hi]
    exact Buffer.insert_of_waiting (by simp [hl, hlt]) ((hmem hlt).2 hd) x now
  · rw [hi]
    refine Buffer.insert_of_full (by simp [hl, hlt]) (fun p hp hps => ?_) (hlen ▸ hc) x now
    obtain ⟨it, hit, he⟩ := (hmem hlt).1 ⟨p, hp, hps⟩
    exact hd it hit he
  · rw [hi, Buffer.insert_of_room (by simp [hl, hlt]) (fun p hp hps => ?_) (hlen ▸ hc) x now]
    · simp [Buffer.push, onCircle, Item.onCircle]
    · obtain ⟨it, hit, he⟩ := (hmem hlt).1 ⟨p, hp, hps⟩
      exact hd it hit he

/-- A call in which an index stays within half of the circle. -/
theorem perform_onCircle (hs : Starts k start) (hw : m.WellFormed)
    {c : Call α} (hc : c.Near m) :
    (m.onCircle k start).perform (c.onCircle k) = (m.perform c).onCircle k start ∧
    (m.onCircle k start).answer (c.onCircle k) = (m.answer c).onCircle k := by
  cases c with
  | insert i x now =>
    obtain ⟨h, h₁, h₂⟩ := hc
    have hi := insert_onCircle hs hw h h₁ h₂ x now
    simp only [Call.onCircle, Buffer.perform, Buffer.answer, perform, answer, hi]
    cases m.insert i x now <;> exact ⟨rfl, rfl⟩
  | retrieve now timeout =>
    obtain ⟨h₁, h₂⟩ := retrieve_onCircle (k := k) hs hw now timeout
    refine ⟨h₂, ?_⟩
    simp only [Call.onCircle, Buffer.answer, answer, h₁, Answer.onCircle, List.map_map]
    rfl

/-! ## Runs -/

theorem performAll_onCircle (hs : Starts k start) (hw : m.WellFormed)
    {calls : List (Call α)} (hc : m.Stays calls) :
    (m.onCircle k start).performAll (calls.map (Call.onCircle k)) =
      (m.performAll calls).onCircle k start := by
  induction calls generalizing m with
  | nil => rfl
  | cons c cs ih =>
    have h := (perform_onCircle hs hw hc.1).1
    show ((m.onCircle k start).perform (c.onCircle k)).performAll (cs.map (Call.onCircle k)) = _
    rw [h]; exact ih (hw.perform hc.1) hc.2

/-- **Wrapping is invisible.** In a run in which every inserted index is positive and differs from
the last one by less than half of the circle, the buffer on the circle gives the answers of the
line, taken to the circle, and its last number is that of the last index, none before the first. -/
theorem answers_onCircle (capacity : Nat) (calls : List (Call α))
    (hc : (Line.empty capacity : Line α).Stays calls) :
    ∀ pre post, calls = pre ++ post →
      let m : Line α := (Line.empty capacity).performAll pre
      let b : Buffer α := (Buffer.empty capacity).performAll (pre.map (Call.onCircle 0))
      (b.last.map UInt32.toNat = if m.last = 0 then none else some (m.last % UInt32.size)) ∧
      ∀ c ∈ post.head?, b.answer (c.onCircle 0) = (m.answer c).onCircle 0 := by
  rintro pre post rfl m b
  obtain ⟨hpre, hpost⟩ := (stays_append _ _ _).1 hc
  have hs : Starts 0 none := Or.inl ⟨rfl, rfl⟩
  have hw : m.WellFormed := (WellFormed.empty capacity).performAll hpre
  have hb : b = m.onCircle 0 none := performAll_onCircle hs (WellFormed.empty capacity) hpre
  refine ⟨?_, fun c hcp => ?_⟩
  · rw [hb]
    by_cases hl : m.last = 0
    · rw [last_onCircle_of_eq hl, if_pos hl]; rfl
    · rw [last_onCircle_of_ne hl, if_neg hl, Option.map_some, toNat_number_zero]
  · cases post with
    | nil => cases hcp
    | cons c' post =>
      obtain rfl : c' = c := Option.mem_some_iff.1 hcp
      rw [hb]; exact (perform_onCircle hs hw hpost.1).2

/-- The last index before the numbers wrap and the first one behind arrive in the wrong order. -/
theorem answers_onCircle_around_the_wrap :
    let pre : List (Call Nat) :=
      [.insert 2147483647 7 .zero, .retrieve .zero .zero, .insert 4294967294 8 .zero,
        .retrieve .zero .zero, .insert 4294967296 9 .zero, .insert 4294967295 6 .zero]
    (Line.empty 4).Stays (pre ++ [.retrieve .zero .zero]) ∧
    ((Buffer.empty 4).performAll (pre.map (Call.onCircle 0))).answer (.retrieve .zero .zero) =
      .released [(4294967295, 6), (0, 9)] := by
  intro pre
  have hc : (Line.empty 4).Stays (pre ++ [.retrieve .zero .zero]) := by decide +kernel
  have h := (answers_onCircle 4 _ hc pre _ rfl).2 (.retrieve .zero .zero) rfl
  refine ⟨hc, h.trans ?_⟩
  decide +kernel

end Line

end HybridAccess.Reorder
