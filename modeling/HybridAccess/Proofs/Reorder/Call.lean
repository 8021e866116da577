/-
  HybridAccess — sequences of calls of a reorder buffer.

  A `Call` takes a packet in, lets packets leave or forgets everything, each at
  any time and with any timeout. `Buffer.perform` is the buffer behind a call and
  `Buffer.answer` what the caller learns; `performAll` and `steps` follow a list
  of calls. A refused packet leaves no trace in the buffer.
-/
import HybridAccess.Reorder.Buffer

namespace HybridAccess.Reorder

variable {α : Type}

/-- A call of the buffer. -/
inductive Call (α : Type)
  /-- A packet arrives. -/
  | insert (sequence : UInt32) (payload : α) (now : Duration)
  /-- Packets may leave. -/
  | retrieve (now timeout : Duration)
  /-- Everything is forgotten. -/
  | reset
deriving DecidableEq, Repr

/-- What the caller learns. -/
inductive Answer (α : Type)
  | accepted
  | refused (reason : Refusal)
  | released (packets : List (UInt32 × α))
  | forgotten
deriving DecidableEq, Repr

/-- What the receiver gets of a packet. -/
def Packet.content (p : Packet α) : UInt32 × α := (p.sequence, p.payload)

/-- The number up to which everything is released or given up by a step. -/
def Step.reached? : Step α → Option UInt32
  | skipped _ lowest => some (lowest - 1)
  | released p => some p.sequence
  | discarded _ => none

namespace Buffer

/-- The buffer after a call. -/
def perform (b : Buffer α) : Call α → Buffer α
  | .insert s x now => match b.insert s x now with
    | .ok b' => b'
    | .error _ => b
  | .retrieve now timeout => (b.retrieve now timeout).buffer
  | .reset => b.reset

/-- The answer to a call. -/
def answer (b : Buffer α) : Call α → Answer α
  | .insert s x now => match b.insert s x now with
    | .ok _ => .accepted
    | .error r => .refused r
  | .retrieve now timeout => .released ((b.retrieve now timeout).released.map Packet.content)
  | .reset => .forgotten

/-- What happens to packets and gaps in a call. -/
def stepsOf (b : Buffer α) : Call α → List (Step α)
  | .retrieve now timeout => (b.retrieve now timeout).steps
  | _ => []

/-- The buffer after a list of calls. -/
def performAll (b : Buffer α) (calls : List (Call α)) : Buffer α := calls.foldl perform b

/-- All steps of a list of calls. -/
def steps (b : Buffer α) : List (Call α) → List (Step α)
  | [] => []
  | c :: cs => b.stepsOf c ++ (b.perform c).steps cs

/-- All packets that leave in a list of calls. -/
def released (b : Buffer α) (calls : List (Call α)) : List (Packet α) :=
  (b.steps calls).filterMap Step.packet?

@[simp] theorem performAll_append (b : Buffer α) (cs ds : List (Call α)) :
    b.performAll (cs ++ ds) = (b.performAll cs).performAll ds := List.foldl_append

@[simp] theorem performAll_singleton (b : Buffer α) (c : Call α) :
    b.performAll [c] = b.perform c := rfl

@[simp] theorem steps_append (b : Buffer α) (cs ds : List (Call α)) :
    b.steps (cs ++ ds) = b.steps cs ++ (b.performAll cs).steps ds := by
  induction cs generalizing b with
  | nil => rfl
  | cons c cs ih => simp only [List.cons_append, steps, ih, List.append_assoc]; rfl

@[simp] theorem steps_singleton (b : Buffer α) (c : Call α) : b.steps [c] = b.stepsOf c := by
  simp [steps]

theorem released_concat (b : Buffer α) (cs : List (Call α)) (c : Call α) :
    b.released (cs ++ [c]) =
      b.released cs ++ ((b.performAll cs).stepsOf c).filterMap Step.packet? := by
  simp [released]

/-! ## Taking a packet in -/

/-- The buffer with one more packet. -/
def push (b : Buffer α) (p : Packet α) : Buffer α := { b with waiting := b.waiting ++ [p] }

theorem isLate_eq_true {b : Buffer α} {s : UInt32} :
    b.isLate s = true ↔ ∃ l, b.last = some l ∧ after s l = false := by
  unfold isLate
  cases b.last <;> simp

theorem isLate_eq_false {b : Buffer α} {s : UInt32} :
    b.isLate s = false ↔ ∀ l, b.last = some l → after s l = true := by
  unfold isLate
  cases b.last <;> simp

section
variable {b : Buffer α} {s : UInt32}

theorem insert_of_late {l : UInt32} (hlast : b.last = some l) (h : b.isLate s = true) (x : α)
    (now : Duration) : b.insert s x now = .error (.late s l) := by
  simp [insert, h, hlast]

theorem insert_of_waiting (hl : b.isLate s = false) (h : ∃ p ∈ b.waiting, p.sequence = s) (x : α)
    (now : Duration) : b.insert s x now = .error (.duplicate s) := by
  simp [insert, hl, h]

theorem insert_of_full (hl : b.isLate s = false) (hd : ∀ p ∈ b.waiting, p.sequence ≠ s)
    (hc : b.capacity ≤ b.waiting.length) (x : α) (now : Duration) :
    b.insert s x now = .error .full := by
  have hd' : ¬ ∃ p ∈ b.waiting, p.sequence = s := fun ⟨p, hp, he⟩ => hd p hp he
  simp [insert, hl, hc, hd']

theorem insert_of_room (hl : b.isLate s = false) (hd : ∀ p ∈ b.waiting, p.sequence ≠ s)
    (hc : b.waiting.length < b.capacity) (x : α) (now : Duration) :
    b.insert s x now = .ok (b.push ⟨s, x, now⟩) := by
  have hd' : ¬ ∃ p ∈ b.waiting, p.sequence = s := fun ⟨p, hp, he⟩ => hd p hp he
  simp [insert, hl, hd', Nat.not_le.2 hc, push]

end

/-- The four ways in which a packet is met. -/
theorem insert_cases (b : Buffer α) (s : UInt32) (x : α) (now : Duration) :
    (∃ l, b.last = some l ∧ after s l = false ∧ b.insert s x now = .error (.late s l)) ∨
    (b.isLate s = false ∧ (∃ p ∈ b.waiting, p.sequence = s) ∧
      b.insert s x now = .error (.duplicate s)) ∨
    (b.isLate s = false ∧ (∀ p ∈ b.waiting, p.sequence ≠ s) ∧ b.capacity ≤ b.waiting.length ∧
      b.insert s x now = .error .full) ∨
    (b.isLate s = false ∧ (∀ p ∈ b.waiting, p.sequence ≠ s) ∧ b.waiting.length < b.capacity ∧
      b.insert s x now = .ok (b.push ⟨s, x, now⟩)) := by
  by_cases hl : b.isLate s = true
  · obtain ⟨l, hlast, ha⟩ := isLate_eq_true.1 hl
    exact Or.inl ⟨l, hlast, ha, insert_of_late hlast hl x now⟩
  rw [Bool.not_eq_true] at hl
  by_cases hd : ∃ p ∈ b.waiting, p.sequence = s
  · exact Or.inr (Or.inl ⟨hl, hd, insert_of_waiting hl hd x now⟩)
  have hd' : ∀ p ∈ b.waiting, p.sequence ≠ s := fun p hp he => hd ⟨p, hp, he⟩
  rcases Nat.lt_or_ge b.waiting.length b.capacity with hc | hc
  · exact Or.inr (Or.inr (Or.inr ⟨hl, hd', hc, insert_of_room hl hd' hc x now⟩))
  · exact Or.inr (Or.inr (Or.inl ⟨hl, hd', hc, insert_of_full hl hd' hc x now⟩))

/-- A packet is refused, or it is taken in. -/
theorem insert_refused_or_taken (b : Buffer α) (s : UInt32) (x : α) (now : Duration) :
    (∃ r, b.insert s x now = .error r) ∨
    (b.isLate s = false ∧ (∀ p ∈ b.waiting, p.sequence ≠ s) ∧ b.waiting.length < b.capacity ∧
      b.insert s x now = .ok (b.push ⟨s, x, now⟩)) := by
  rcases b.insert_cases s x now with ⟨l, -, -, hi⟩ | ⟨-, -, hi⟩ | ⟨-, -, -, hi⟩ | htaken
  · exact Or.inl ⟨_, hi⟩
  · exact Or.inl ⟨_, hi⟩
  · exact Or.inl ⟨_, hi⟩
  · exact Or.inr htaken

/-- A refused packet leaves the buffer as it was. -/
theorem perform_insert_of_error {b : Buffer α} {s : UInt32} {x : α} {now : Duration} {r : Refusal}
    (h : b.insert s x now = .error r) : b.perform (.insert s x now) = b := by
  simp only [perform, h]

theorem perform_insert_of_ok {b b' : Buffer α} {s : UInt32} {x : α} {now : Duration}
    (h : b.insert s x now = .ok b') : b.perform (.insert s x now) = b' := by
  simp only [perform, h]

/-- A packet is refused and nothing changes, or it waits from now on. -/
theorem perform_insert_cases (b : Buffer α) (s : UInt32) (x : α) (now : Duration) :
    ((∃ r, b.answer (.insert s x now) = .refused r) ∧ b.perform (.insert s x now) = b) ∨
    (b.isLate s = false ∧ (∀ p ∈ b.waiting, p.sequence ≠ s) ∧ b.waiting.length < b.capacity ∧
      b.answer (.insert s x now) = .accepted ∧
      b.perform (.insert s x now) = b.push ⟨s, x, now⟩) := by
  rcases b.insert_refused_or_taken s x now with ⟨r, hi⟩ | ⟨hl, hd, hc, hi⟩
  · exact Or.inl ⟨⟨r, by simp only [answer, hi]⟩, perform_insert_of_error hi⟩
  · exact Or.inr ⟨hl, hd, hc, by simp only [answer, hi], perform_insert_of_ok hi⟩

/-! ## The retrievals of a run -/

/-- What holds at each retrieval of a run holds at each one before the last call, and at the last
call if it is one. -/
theorem forall_retrieve_concat_iff {P : List (Call α) → Duration → Duration → Prop}
    {cs : List (Call α)} {c : Call α} :
    (∀ pre now timeout, pre ++ [.retrieve now timeout] <+: cs ++ [c] → P pre now timeout) ↔
      (∀ pre now timeout, pre ++ [.retrieve now timeout] <+: cs → P pre now timeout) ∧
      ∀ now timeout, c = .retrieve now timeout → P cs now timeout := by
  constructor
  · intro h
    refine ⟨fun pre now timeout hp => h pre now timeout (hp.trans (List.prefix_append _ _)), ?_⟩
    rintro now timeout rfl
    exact h cs now timeout List.prefix_rfl
  · rintro ⟨hcs, hc⟩ pre now timeout hp
    rcases List.prefix_concat_iff.1 hp with he | hp
    · obtain ⟨rfl, hcall⟩ := List.append_inj' he rfl
      exact hc now timeout (List.cons.inj hcall).1.symm
    · exact hcs pre now timeout hp

end Buffer

end HybridAccess.Reorder
