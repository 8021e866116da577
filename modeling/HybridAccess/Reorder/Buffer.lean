/-
  HybridAccess — the reorder buffer.

  Packets of the two links arrive interleaved. The buffer holds them until
  they can leave in the order of their sequence numbers, or until one of them
  has waited for the whole timeout; then the missing packets in front of the
  lowest waiting one are given up.

  * `insert` takes a packet in, or refuses it (`Refusal`);
  * `advance?` is one move: the packet that everybody waits for leaves, or a
    gap is skipped and the packet behind it leaves. `run` moves as long as it
    goes; every move makes the buffer smaller (`length_lt_of_advance?`);
  * `retrieve` runs and then drops the packets that have become late. It
    returns what happened as a list of steps, of which `Retrieval.released`
    is the part that matters to the receiver.
-/
import HybridAccess.Duration.Basic
import HybridAccess.Reorder.Serial

namespace HybridAccess.Reorder

variable {α : Type}

/-- A packet that waits. -/
structure Packet (α : Type) where
  sequence : UInt32
  payload : α
  arrival : Duration
deriving DecidableEq, Repr

/-- How long a packet has waited. -/
def Packet.age (p : Packet α) (now : Duration) : Duration := now.since p.arrival

/-- The packets of one receive direction. -/
structure Buffer (α : Type) where
  /-- How many packets may wait. -/
  capacity : Nat
  /-- The last sequence number that was released or given up, none before the first. -/
  last : Option UInt32
  /-- The waiting packets in the order of their arrival. -/
  waiting : List (Packet α)
deriving DecidableEq, Repr

/-- Why a packet is not taken in. -/
inductive Refusal
  /-- A packet with this number is waiting. -/
  | duplicate (sequence : UInt32)
  /-- The number was released or given up. -/
  | late (sequence last : UInt32)
  /-- No more packets may wait. -/
  | full
deriving DecidableEq, Repr

/-- The text of a refusal. -/
def Refusal.message : Refusal → String
  | duplicate sequence => s!"Duplicate packet detected: sequence {sequence}"
  | late sequence last => s!"Late packet: sequence {sequence}, already released up to {last}"
  | full => "Buffer full: cannot accept more packets"

/-- What happens to a packet, or to a gap, while packets are retrieved. -/
inductive Step (α : Type)
  /-- The numbers from `expected` up to `lowest` are given up. -/
  | skipped (expected lowest : UInt32)
  /-- A packet leaves in order. -/
  | released (packet : Packet α)
  /-- A packet that has become late is dropped. -/
  | discarded (sequence : UInt32)
deriving DecidableEq, Repr

/-- The packet that leaves in a step. -/
def Step.packet? : Step α → Option (Packet α)
  | released p => some p
  | _ => none

/-- The outcome of retrieving packets. -/
structure Retrieval (α : Type) where
  buffer : Buffer α
  steps : List (Step α)
deriving DecidableEq, Repr

/-- The packets that leave, in order. -/
def Retrieval.released (r : Retrieval α) : List (Packet α) :=
  r.steps.filterMap Step.packet?

/-- The number that is expected first. -/
def firstSequence : UInt32 := 1

/-- How many packets may wait unless another capacity is given. -/
def defaultCapacity : Nat := 1024

namespace Buffer

/-- A buffer with nothing in it. -/
def empty (capacity : Nat) : Buffer α := ⟨capacity, none, []⟩

/-- The number that would leave next without waiting. -/
def next (b : Buffer α) : UInt32 :=
  match b.last with
  | none => firstSequence
  | some l => l + 1

/-- Whether a number was released or given up. -/
def isLate (b : Buffer α) (sequence : UInt32) : Bool :=
  match b.last with
  | none => false
  | some l => ! after sequence l

/-- Take a packet in. A late packet is refused first, then a duplicate, then any packet if the
buffer is full. -/
def insert (b : Buffer α) (sequence : UInt32) (payload : α) (now : Duration) :
    Except Refusal (Buffer α) :=
  match b.last, b.isLate sequence with
  | some l, true => .error (.late sequence l)
  | _, _ =>
    if b.waiting.any (·.sequence == sequence) then .error (.duplicate sequence)
    else if b.capacity ≤ b.waiting.length then .error .full
    else .ok { b with waiting := b.waiting ++ [⟨sequence, payload, now⟩] }

/-- Take the packet with a number out, which then is the last one released. -/
def take? (b : Buffer α) (sequence : UInt32) : Option (Packet α × Buffer α) :=
  (b.waiting.find? (·.sequence == sequence)).map fun p =>
    (p, { b with last := some sequence, waiting := b.waiting.eraseP (·.sequence == sequence) })

/-- The waiting number that comes first, counted from the one expected next. -/
def lowest? (b : Buffer α) : Option UInt32 :=
  ((b.waiting.map fun p => ahead b.next p.sequence).min?).map fun d => b.next + UInt32.ofNat d

/-- Whether some packet has waited for the whole timeout. -/
def overdue (b : Buffer α) (now timeout : Duration) : Bool :=
  b.waiting.any fun p => timeout ≤ p.age now

/-- One move: the expected packet leaves; without it, if some packet is overdue, the gap before the
lowest packet is skipped and that packet leaves. -/
def advance? (b : Buffer α) (now timeout : Duration) : Option (List (Step α) × Buffer α) :=
  match b.take? b.next with
  | some (p, b') => some ([.released p], b')
  | none =>
    if b.overdue now timeout then do
      let lowest ← b.lowest?
      let (p, b') ← b.take? lowest
      some ([.skipped b.next lowest, .released p], b')
    else none

theorem length_lt_of_take? {b b' : Buffer α} {s : UInt32} {p : Packet α}
    (h : b.take? s = some (p, b')) : b'.waiting.length < b.waiting.length := by
  simp only [take?, Option.map_eq_some_iff, Prod.mk.injEq] at h
  obtain ⟨q, hq, rfl, rfl⟩ := h
  have hm := List.mem_of_find?_eq_some hq
  have hp := List.find?_some hq
  rw [List.length_eraseP_of_mem hm hp]
  have := List.length_pos_of_mem hm
  omega

theorem length_lt_of_advance? {b b' : Buffer α} {now timeout : Duration} {steps : List (Step α)}
    (h : b.advance? now timeout = some (steps, b')) : b'.waiting.length < b.waiting.length := by
  unfold advance? at h
  split at h
  · next p b₁ ht =>
    simp only [Option.some.injEq, Prod.mk.injEq] at h
    obtain ⟨-, rfl⟩ := h
    exact length_lt_of_take? ht
  · split at h
    · simp only [Option.bind_eq_bind, Option.bind_eq_some_iff] at h
      obtain ⟨s, -, ⟨p, b₁⟩, ht, h⟩ := h
      simp only [Option.some.injEq, Prod.mk.injEq] at h
      obtain ⟨-, rfl⟩ := h
      exact length_lt_of_take? ht
    · cases h

/-- Move as long as it goes. -/
def run (b : Buffer α) (now timeout : Duration) : List (Step α) × Buffer α :=
  match _h : b.advance? now timeout with
  | none => ([], b)
  | some (steps, b') =>
    let (rest, b'') := b'.run now timeout
    (steps ++ rest, b'')
termination_by b.waiting.length
decreasing_by exact length_lt_of_advance? _h

/-- Drop the packets that have become late. -/
def discardLate (b : Buffer α) : List (Step α) × Buffer α :=
  (((b.waiting.filter fun p => b.isLate p.sequence).map fun p => .discarded p.sequence),
    { b with waiting := b.waiting.filter fun p => ! b.isLate p.sequence })

/-- Release all packets that are in order or behind a gap that is given up. -/
def retrieve (b : Buffer α) (now timeout : Duration) : Retrieval α :=
  let (moves, b) := b.run now timeout
  let (drops, b) := b.discardLate
  ⟨b, moves ++ drops⟩

/-- Forget all packets and the last number released. -/
def reset (b : Buffer α) : Buffer α := { b with last := none, waiting := [] }

end Buffer

end HybridAccess.Reorder
