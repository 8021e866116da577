/-
  HybridAccess — reordering without wrapping.

  A `Line` orders packets like a `Buffer`, but by natural numbers that never
  wrap: an index is late up to the last one released, the index behind it is
  expected, and a gap is skipped up to the smallest waiting index. The start, at
  which nothing was released, is the last index zero. `Item.onCircle` and the
  like give each index its number on the circle, counted from some number `k`.
-/
import HybridAccess.Proofs.Reorder.Drain

namespace HybridAccess.Reorder

variable {α : Type}

/-- The number of an index on the circle, counted from `k`. -/
def number (k : UInt32) (i : Nat) : UInt32 := k + UInt32.ofNat i

/-- A packet that waits. -/
structure Item (α : Type) where
  index : Nat
  payload : α
  arrival : Duration
deriving DecidableEq, Repr

/-- How long a packet has waited. -/
def Item.age (it : Item α) (now : Duration) : Duration := now.since it.arrival

/-- The packet with the index on the circle. -/
def Item.onCircle (k : UInt32) (it : Item α) : Packet α :=
  ⟨number k it.index, it.payload, it.arrival⟩

/-- The packets of one receive direction. -/
structure Line (α : Type) where
  capacity : Nat
  /-- The last index that was released or given up, zero before the first. -/
  last : Nat
  waiting : List (Item α)
deriving DecidableEq, Repr

namespace Line

/-- Why a packet is not taken in. -/
inductive Refusal
  | duplicate (index : Nat)
  | late (index last : Nat)
  | full
deriving DecidableEq, Repr

/-- The refusal on the circle. -/
def Refusal.onCircle (k : UInt32) : Refusal → Reorder.Refusal
  | duplicate i => .duplicate (number k i)
  | late i l => .late (number k i) (number k l)
  | full => .full

/-- A call. -/
inductive Call (α : Type)
  | insert (index : Nat) (payload : α) (now : Duration)
  | retrieve (now timeout : Duration)
deriving DecidableEq, Repr

/-- The call on the circle. -/
def Call.onCircle (k : UInt32) : Call α → Reorder.Call α
  | insert i x now => .insert (number k i) x now
  | retrieve now timeout => .retrieve now timeout

/-- What the caller learns. -/
inductive Answer (α : Type)
  | accepted
  | refused (reason : Refusal)
  | released (packets : List (Nat × α))
deriving DecidableEq, Repr

/-- The answer on the circle. -/
def Answer.onCircle (k : UInt32) : Answer α → Reorder.Answer α
  | accepted => .accepted
  | refused r => .refused (r.onCircle k)
  | released ps => .released (ps.map fun p => (number k p.1, p.2))

/-- Nothing waits, and nothing was released. -/
def empty (capacity : Nat) : Line α := ⟨capacity, 0, []⟩

/-- Take a packet in. -/
def insert (m : Line α) (i : Nat) (x : α) (now : Duration) : Except Refusal (Line α) :=
  if i ≤ m.last then .error (.late i m.last)
  else if m.waiting.any (·.index == i) then .error (.duplicate i)
  else if m.capacity ≤ m.waiting.length then .error .full
  else .ok { m with waiting := m.waiting ++ [⟨i, x, now⟩] }

/-- Take the packet with an index out. -/
def take? (m : Line α) (i : Nat) : Option (Item α × Line α) :=
  (m.waiting.find? (·.index == i)).map fun it =>
    (it, { m with last := i, waiting := m.waiting.eraseP (·.index == i) })

/-- Whether some packet has waited for the whole timeout. -/
def overdue (m : Line α) (now timeout : Duration) : Bool :=
  m.waiting.any fun it => timeout ≤ it.age now

/-- One move: the expected packet leaves, or the one with the smallest index if some packet is
overdue. -/
def advance? (m : Line α) (now timeout : Duration) : Option (Item α × Line α) :=
  match m.take? (m.last + 1) with
  | some r => some r
  | none => if m.overdue now timeout then (m.waiting.map (·.index)).min?.bind m.take? else none

theorem take?_eq_some {m m' : Line α} {i : Nat} {it : Item α} (h : m.take? i = some (it, m')) :
    it.index = i ∧ m.waiting.Perm (it :: m'.waiting) ∧ m'.last = i ∧
      m'.capacity = m.capacity := by
  simp only [take?, Option.map_eq_some_iff, Prod.mk.injEq] at h
  obtain ⟨jt, hj, rfl, rfl⟩ := h
  exact ⟨by simpa using List.find?_some hj, perm_cons_eraseP_of_find? hj, rfl, rfl⟩

theorem take?_of_advance? {m m' : Line α} {now timeout : Duration} {it : Item α}
    (h : m.advance? now timeout = some (it, m')) : m.take? it.index = some (it, m') := by
  have hi : ∀ i, m.take? i = some (it, m') → m.take? it.index = some (it, m') := fun i h =>
    (take?_eq_some h).1 ▸ h
  unfold advance? at h
  split at h
  · next ht => exact hi _ (ht.trans h)
  · split at h
    · obtain ⟨i, -, ht⟩ := Option.bind_eq_some_iff.1 h
      exact hi i ht
    · cases h

theorem length_lt_of_advance? {m m' : Line α} {now timeout : Duration} {it : Item α}
    (h : m.advance? now timeout = some (it, m')) : m'.waiting.length < m.waiting.length := by
  rw [(take?_eq_some (take?_of_advance? h)).2.1.length_eq]
  exact Nat.lt_succ_self _

/-- Move as long as it goes. -/
def run (m : Line α) (now timeout : Duration) : List (Item α) × Line α :=
  match _h : m.advance? now timeout with
  | none => ([], m)
  | some (it, m') =>
    let (rest, m'') := m'.run now timeout
    (it :: rest, m'')
termination_by m.waiting.length
decreasing_by exact length_lt_of_advance? _h

/-- Drop the packets that have become late. -/
def discardLate (m : Line α) : Line α :=
  { m with waiting := m.waiting.filter fun it => ! decide (it.index ≤ m.last) }

/-- Release all packets that are in order or behind a gap that is given up. -/
def retrieve (m : Line α) (now timeout : Duration) : List (Item α) × Line α :=
  let (items, m) := m.run now timeout
  (items, m.discardLate)

/-- The line after a call. -/
def perform (m : Line α) : Call α → Line α
  | .insert i x now => match m.insert i x now with
    | .ok m' => m'
    | .error _ => m
  | .retrieve now timeout => (m.retrieve now timeout).2

/-- The answer to a call. -/
def answer (m : Line α) : Call α → Answer α
  | .insert i x now => match m.insert i x now with
    | .ok _ => .accepted
    | .error r => .refused r
  | .retrieve now timeout =>
    .released ((m.retrieve now timeout).1.map fun it => (it.index, it.payload))

/-- The line after a list of calls. -/
def performAll (m : Line α) (calls : List (Call α)) : Line α := calls.foldl perform m

/-- What stands for the last index zero: `k`, or nothing released yet if this is zero too. -/
def Starts (k : UInt32) (start : Option UInt32) : Prop := start = none ∧ k = 0 ∨ start = some k

/-- The buffer on the circle. -/
def onCircle (k : UInt32) (start : Option UInt32) (m : Line α) : Buffer α :=
  ⟨m.capacity, if m.last = 0 then start else some (number k m.last),
    m.waiting.map (Item.onCircle k)⟩

/-! ## The invariant -/

/-- What holds of a line while all indices stay within half of the circle. -/
structure WellFormed (m : Line α) : Prop where
  distinct : (m.waiting.map (·.index)).Nodup
  ahead : ∀ it ∈ m.waiting, m.last < it.index
  near : ∀ it ∈ m.waiting, it.index < m.last + halfCircle

/-- An inserted index is positive and differs from the last one by less than half of the circle. -/
def Call.Near (m : Line α) : Call α → Prop
  | insert i _ _ => 1 ≤ i ∧ i < m.last + halfCircle ∧ m.last < i + halfCircle
  | retrieve _ _ => True

/-- In a run every inserted index is near the last one of its moment. -/
def Stays (m : Line α) : List (Call α) → Prop
  | [] => True
  | c :: cs => c.Near m ∧ (m.perform c).Stays cs

instance Call.decidableNear (m : Line α) : (c : Call α) → Decidable (c.Near m)
  | insert i _ _ => inferInstanceAs (Decidable (1 ≤ i ∧ _ ∧ _))
  | retrieve _ _ => inferInstanceAs (Decidable True)

instance decidableStays : (m : Line α) → (calls : List (Call α)) → Decidable (m.Stays calls)
  | _, [] => inferInstanceAs (Decidable True)
  | m, c :: cs => @instDecidableAnd _ _ (c.decidableNear m) (decidableStays (m.perform c) cs)

theorem stays_append (m : Line α) (cs ds : List (Call α)) :
    m.Stays (cs ++ ds) ↔ m.Stays cs ∧ (m.performAll cs).Stays ds := by
  induction cs generalizing m with
  | nil => exact (iff_of_eq (true_and _)).symm
  | cons c cs ih =>
    rw [List.cons_append, Stays, Stays, ih, and_assoc]; rfl

/-- A packet leaves: it has the smallest index, and it is expected or some packet is overdue. -/
structure Leaves (now timeout : Duration) (m : Line α) (it : Item α) (m' : Line α) : Prop where
  least : ∀ jt ∈ m.waiting, it.index ≤ jt.index
  due : it.index = m.last + 1 ∨ m.overdue now timeout = true
  perm : m.waiting.Perm (it :: m'.waiting)
  last : m'.last = it.index
  capacity : m'.capacity = m.capacity

variable {m m' : Line α} {now timeout : Duration} {it : Item α}

theorem WellFormed.empty (capacity : Nat) : (Line.empty capacity : Line α).WellFormed :=
  ⟨List.nodup_nil, fun _ h => absurd h List.not_mem_nil, fun _ h => absurd h List.not_mem_nil⟩

theorem WellFormed.leaves (hw : m.WellFormed) (h : m.advance? now timeout = some (it, m')) :
    Leaves now timeout m it m' := by
  obtain ⟨-, hperm, hlast, hcap⟩ := take?_eq_some (take?_of_advance? h)
  unfold advance? at h
  split at h
  · next r ht =>
    cases h
    have hi := (take?_eq_some ht).1
    exact ⟨fun jt hj => hi ▸ hw.ahead jt hj, Or.inl hi, hperm, hlast, hcap⟩
  · split at h
    · next ho =>
      obtain ⟨i, hmin, ht⟩ := Option.bind_eq_some_iff.1 h
      obtain ⟨-, hle⟩ := List.min?_eq_some_iff.1 hmin
      refine ⟨fun jt hj => ?_, Or.inr ho, hperm, hlast, hcap⟩
      rw [(take?_eq_some ht).1]
      exact hle _ (List.mem_map.2 ⟨jt, hj, rfl⟩)
    · cases h

theorem Leaves.wellFormed (hl : Leaves now timeout m it m') (hw : m.WellFormed) :
    m'.WellFormed := by
  have hnd : (it.index :: m'.waiting.map (·.index)).Nodup :=
    (hl.perm.map (fun jt : Item α => jt.index)).nodup_iff.1 hw.distinct
  have hmem : ∀ jt ∈ m'.waiting, jt ∈ m.waiting := fun jt hj =>
    hl.perm.mem_iff.2 (List.mem_cons_of_mem _ hj)
  have hit : m.last < it.index := hw.ahead it (hl.perm.mem_iff.2 List.mem_cons_self)
  refine ⟨(List.nodup_cons.1 hnd).2, fun jt hj => ?_, fun jt hj => ?_⟩
  · rw [hl.last]
    refine Nat.lt_of_le_of_ne (hl.least jt (hmem jt hj)) fun he => ?_
    exact (List.nodup_cons.1 hnd).1 (List.mem_map.2 ⟨jt, hj, he.symm⟩)
  · have := hw.near jt (hmem jt hj)
    rw [hl.last]; omega

theorem WellFormed.run (hw : m.WellFormed) (now timeout : Duration) :
    (m.run now timeout).2.WellFormed := by
  fun_induction Line.run m now timeout with
  | case1 m h => exact hw
  | case2 m it m' h rest m'' hr ih =>
    rw [hr] at ih
    exact ih ((hw.leaves h).wellFormed hw)

theorem WellFormed.discardLate (hw : m.WellFormed) : m.discardLate = m := by
  have : m.waiting.filter (fun it => ! decide (it.index ≤ m.last)) = m.waiting :=
    List.filter_eq_self.2 fun it hit => by
      have := hw.ahead it hit
      simp only [Bool.not_eq_true', decide_eq_false_iff_not]; omega
  rw [Line.discardLate, this]

theorem WellFormed.retrieve (hw : m.WellFormed) (now timeout : Duration) :
    m.retrieve now timeout = m.run now timeout := by
  show ((m.run now timeout).1, (m.run now timeout).2.discardLate) = m.run now timeout
  rw [(hw.run now timeout).discardLate]

/-- The four ways in which a packet is met. -/
theorem insert_cases (m : Line α) (i : Nat) (x : α) (now : Duration) :
    (i ≤ m.last ∧ m.insert i x now = .error (.late i m.last)) ∨
    (m.last < i ∧ (∃ it ∈ m.waiting, it.index = i) ∧
      m.insert i x now = .error (.duplicate i)) ∨
    (m.last < i ∧ (∀ it ∈ m.waiting, it.index ≠ i) ∧ m.capacity ≤ m.waiting.length ∧
      m.insert i x now = .error .full) ∨
    (m.last < i ∧ (∀ it ∈ m.waiting, it.index ≠ i) ∧ m.waiting.length < m.capacity ∧
      m.insert i x now = .ok { m with waiting := m.waiting ++ [⟨i, x, now⟩] }) := by
  by_cases hl : i ≤ m.last
  · exact Or.inl ⟨hl, by simp [insert, hl]⟩
  have hl' : m.last < i := by omega
  by_cases hd : ∃ it ∈ m.waiting, it.index = i
  · exact Or.inr (Or.inl ⟨hl', hd, by simp [insert, hl, hd]⟩)
  have hd' : ∀ it ∈ m.waiting, it.index ≠ i := fun it hit he => hd ⟨it, hit, he⟩
  by_cases hc : m.capacity ≤ m.waiting.length
  · exact Or.inr (Or.inr (Or.inl ⟨hl', hd', hc, by simp [insert, hl, hd, hc]⟩))
  · exact Or.inr (Or.inr (Or.inr ⟨hl', hd', by omega, by simp [insert, hl, hd, hc]⟩))

theorem WellFormed.perform (hw : m.WellFormed) {c : Call α} (hc : c.Near m) :
    (m.perform c).WellFormed := by
  cases c with
  | insert i x now =>
    obtain ⟨-, hnear, -⟩ := hc
    rcases m.insert_cases i x now with ⟨-, h⟩ | ⟨-, -, h⟩ | ⟨-, -, -, h⟩ | ⟨hl, hd, -, h⟩
    · simpa only [Line.perform, h] using hw
    · simpa only [Line.perform, h] using hw
    · simpa only [Line.perform, h] using hw
    · simp only [Line.perform, h]
      refine ⟨nodup_map_concat hw.distinct hd, fun it hit => ?_, fun it hit => ?_⟩
      · rcases List.mem_append.1 hit with hit | hit
        · exact hw.ahead it hit
        · rw [List.mem_singleton.1 hit]; exact hl
      · rcases List.mem_append.1 hit with hit | hit
        · exact hw.near it hit
        · rw [List.mem_singleton.1 hit]; exact hnear
  | retrieve now timeout =>
    show (m.retrieve now timeout).2.WellFormed
    rw [hw.retrieve]; exact hw.run now timeout

theorem WellFormed.performAll {calls : List (Call α)} (hw : m.WellFormed)
    (hc : m.Stays calls) : (m.performAll calls).WellFormed := by
  induction calls generalizing m with
  | nil => exact hw
  | cons c cs ih => exact ih (hw.perform hc.1) hc.2

end Line

end HybridAccess.Reorder
