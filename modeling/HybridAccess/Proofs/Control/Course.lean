/-
  HybridAccess — courses of the controller.

  An `Input` is what the controller meets: a packet, a round with the answers of
  the outside, or the wish that the next round be the last. `run` follows a list
  of inputs and keeps the rounds; it fails only where a round does. Facts about
  a course are proved for one input and hold of every course by
  `follow_invariant`, or, with the existence of the course, by `exists_follow`.
-/
import HybridAccess.Control.Controller

namespace HybridAccess.Control.Controller

/-- What the controller meets. -/
inductive Input
  | packet (bytes : Bytes) (source : IPv6) (now : Duration)
  /-- A round, and what the outside answers in it. -/
  | round (answers : Answers) (now : Duration)
  /-- The next round is to be the last one. -/
  | stop

/-- Whether an input is a packet. -/
def Input.isPacket : Input → Bool
  | packet .. => true
  | round .. | stop => false

/-- The first uptime that is too long: its seconds need more than sixty-three bits. -/
def uptimeLimit : Duration := .ofSeconds (UInt64.size / 2)

/-- The uptime of an input is not too long. -/
def Input.Timely : Input → Prop
  | packet _ _ now | round _ now => now < uptimeLimit
  | stop => True

/-- The uptime of an input comes before a limit. -/
def Input.Before (limit : Duration) : Input → Prop
  | packet _ _ now | round _ now => now < limit
  | stop => True

/-- The events that are told in a round. -/
def Round.events (r : Round) : List (Event × Environment) := r.effects.filterMap Effect.event?

/-- The controller after some inputs, and the rounds there were. -/
structure Course where
  controller : Controller
  rounds : List Round

namespace Course

/-- The events that are told in all rounds. -/
def events (k : Course) : List (Event × Environment) := k.rounds.flatMap Round.events

/-- The course with one more input. -/
def next (k : Course) : Input → Except Halt Course
  | .packet bytes source now => .ok { k with controller := k.controller.handle bytes source now }
  | .round answers now =>
    (k.controller.tick answers now).map fun r => ⟨r.controller, k.rounds ++ [r]⟩
  | .stop => .ok { k with controller := k.controller.requestShutdown }

/-- The course with more inputs. -/
def follow (k : Course) (inputs : List Input) : Except Halt Course := inputs.foldlM next k

variable {k k' : Course} {i : Input} {inputs : List Input} {P : Course → Prop}

theorem follow_cons (k : Course) (i : Input) (is : List Input) :
    k.follow (i :: is) = k.next i >>= (·.follow is) := List.foldlM_cons

theorem follow_cons_eq_ok {is : List Input} :
    k.follow (i :: is) = .ok k' ↔ ∃ k₁, k.next i = .ok k₁ ∧ k₁.follow is = .ok k' := by
  rw [follow_cons]
  cases k.next i with
  | error e => simp [bind, Except.bind]
  | ok k₁ => simp [bind, Except.bind]

theorem follow_append_eq_ok {is js : List Input} :
    k.follow (is ++ js) = .ok k' ↔ ∃ k₁, k.follow is = .ok k₁ ∧ k₁.follow js = .ok k' := by
  rw [follow, List.foldlM_append, ← follow]
  cases k.follow is with
  | error e => simp [bind, Except.bind]
  | ok k₁ => simp [bind, Except.bind, follow]

theorem follow_concat_eq_ok {is : List Input} :
    k.follow (is ++ [i]) = .ok k' ↔ ∃ k₁, k.follow is = .ok k₁ ∧ k₁.next i = .ok k' := by
  rw [follow_append_eq_ok]
  refine exists_congr fun k₁ => and_congr_right fun _ => ?_
  rw [follow_cons_eq_ok]
  exact ⟨fun ⟨_, hi, hk⟩ => by cases hk; exact hi, fun hi => ⟨k', hi, rfl⟩⟩

theorem next_round_eq_ok {answers : Answers} {now : Duration} :
    k.next (.round answers now) = .ok k' ↔
      ∃ r, k.controller.tick answers now = .ok r ∧ ⟨r.controller, k.rounds ++ [r]⟩ = k' := by
  rw [next]
  cases k.controller.tick answers now with
  | error e => simp [Except.map]
  | ok r => simp [Except.map]

/-- What holds at first and is kept by every input holds of every course. -/
theorem follow_invariant (hnext : ∀ k, ∀ i ∈ inputs, ∀ k', P k → k.next i = .ok k' → P k')
    (hk : P k) (h : k.follow inputs = .ok k') : P k' := by
  induction inputs generalizing k with
  | nil => cases h; exact hk
  | cons i is ih =>
    obtain ⟨k₁, hi, h'⟩ := follow_cons_eq_ok.1 h
    exact ih (fun k j hj => hnext k j (List.mem_cons_of_mem i hj))
      (hnext k i List.mem_cons_self k₁ hk hi) h'

/-- Where every input can be met and keeps what holds, there is a course, and that holds of it. -/
theorem exists_follow (hnext : ∀ k, ∀ i ∈ inputs, P k → ∃ k', k.next i = .ok k' ∧ P k')
    (hk : P k) : ∃ k', k.follow inputs = .ok k' ∧ P k' := by
  induction inputs generalizing k with
  | nil => exact ⟨k, rfl, hk⟩
  | cons i is ih =>
    obtain ⟨k₁, hi, h₁⟩ := hnext k i List.mem_cons_self hk
    obtain ⟨k', hrun, h'⟩ := ih (fun k j hj => hnext k j (List.mem_cons_of_mem i hj)) h₁
    exact ⟨k', follow_cons_eq_ok.2 ⟨k₁, hi, hrun⟩, h'⟩

end Course

/-- The course of a controller that meets some inputs. -/
def run (c : Controller) (inputs : List Input) : Except Halt Course := Course.follow ⟨c, []⟩ inputs

/-! ## Something to meet -/

/-- An accept of the cellular link that brings the key 7. -/
def acceptance : Bytes := [0x20, 0, 1, 1, 0, 0, 0, 0, 0x20, 20, 0, 4, 0, 0, 0, 7]

/-- An outside that refuses nothing, and in which every program prints an IPv4 lease. -/
def willing : Answers where
  transmit := fun _ => none
  create := none
  destroy := none
  start := fun _ => none
  poll := fun _ => some (.ok "ip=10.0.0.2\nlease=60\n")

end HybridAccess.Control.Controller
