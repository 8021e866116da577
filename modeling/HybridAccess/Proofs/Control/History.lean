/-
  HybridAccess — what has happened so far.

  A `Step` is one thing that the controller has met, with the controller before
  it and, for a round, what the outside answered. A `History` lists the steps
  of a course in order (`exists_history_iff`), so that a statement can speak of
  what was done since something happened (`since`). What a step sets up lasts
  until a step that ends it (`History.lasts`).
-/
import Mathlib.Data.List.DropRight
import HybridAccess.Proofs.Control.Renewal

namespace HybridAccess.Control.Controller

open Message (Attribute Kind)

/-- Something that the controller has met, and the controller before it. -/
inductive Step
  | packet (before : Controller) (bytes : Bytes) (source : IPv6) (now : Duration)
  | round (before : Controller) (answers : Answers) (now : Duration) (r : Round)
    (possible : before.tick answers now = .ok r)
  | stop (before : Controller)

namespace Step

/-- The controller that a step starts from. -/
def before : Step → Controller
  | packet c .. | round c .. | stop c => c

/-- The controller that a step leaves behind. -/
def after : Step → Controller
  | packet c bytes source now => c.handle bytes source now
  | round _ _ _ r _ => r.controller
  | stop c => c.requestShutdown

/-- What is done to the outside in a step. -/
def effects : Step → List Effect
  | round _ _ _ r _ => r.effects
  | packet .. | stop _ => []

/-- What was met. -/
def input : Step → Input
  | packet _ bytes source now => .packet bytes source now
  | round _ answers now .. => .round answers now
  | stop _ => .stop

/-- The message that a step acts on. -/
def message? : Step → Option Message
  | packet c bytes source now =>
    (c.handled? bytes source now).bind fun _ => (Message.decode bytes).toOption
  | round .. | stop _ => none

/-- The attributes that a step acts on, if its message is of a kind. -/
def attributes (kind : Kind) (s : Step) : List Attribute :=
  (s.message?.filter (·.kind = kind)).elim [] (·.attributes)

/-- Whether a step starts the session over: a round that finds no link established behind the
talking. -/
def renews : Step → Bool
  | round c answers now .. => ! (c.talked answers now).state.anyUp
  | packet .. | stop _ => false

/-- A step is an input that is possible. -/
theorem next_input (s : Step) (rounds : List Round) :
    ∃ rounds', Course.next ⟨s.before, rounds⟩ s.input = .ok ⟨s.after, rounds'⟩ := by
  cases s with
  | packet c bytes source now => exact ⟨rounds, rfl⟩
  | round c answers now r possible => exact ⟨_, Course.next_round_eq_ok.2 ⟨r, possible, rfl⟩⟩
  | stop c => exact ⟨rounds, rfl⟩

theorem exists_of_next {k k' : Course} {i : Input} (h : k.next i = .ok k') :
    ∃ s : Step, s.before = k.controller ∧ s.input = i ∧ s.after = k'.controller := by
  cases i with
  | packet bytes source now => cases h; exact ⟨packet _ bytes source now, rfl, rfl, rfl⟩
  | stop => cases h; exact ⟨stop _, rfl, rfl, rfl⟩
  | round answers now =>
    obtain ⟨r, hr, rfl⟩ := Course.next_round_eq_ok.1 h
    exact ⟨round _ answers now r hr, rfl, rfl, rfl⟩

/-- A packet is ignored, or its message is acted on. -/
theorem packet_cases (c : Controller) (bytes : Bytes) (source : IPv6) (now : Duration) :
    (packet c bytes source now).message? = none ∧ (packet c bytes source now).after = c ∨
    ∃ m, (packet c bytes source now).message? = some m ∧
      (packet c bytes source now).after = c.withState (apply c.state m now) := by
  rcases c.handle_cases bytes source now with ⟨hnone, hc⟩ | ⟨m, -, hm, -, hsome, hc⟩
  · exact Or.inl ⟨by rw [message?, hnone]; rfl, hc⟩
  · exact Or.inr ⟨m, by rw [message?, hsome, hm]; rfl, hc⟩

theorem attributes_of_none {s : Step} (h : s.message? = none) (kind : Kind) :
    s.attributes kind = [] := by rw [attributes, h]; rfl

theorem attributes_of_some {s : Step} {m : Message} (h : s.message? = some m) (kind : Kind) :
    s.attributes kind = if m.kind = kind then m.attributes else [] := by
  rw [attributes, h]
  by_cases hk : m.kind = kind <;> simp [Option.filter, hk]

theorem renews_round {c : Controller} {answers : Answers} {now : Duration} {r : Round}
    (possible : c.tick answers now = .ok r) :
    (round c answers now r possible).renews = ! r.controller.state.anyUp := by
  rw [anyUp_tick possible]
  rfl

end Step

/-- The steps that lead from a controller to another one. -/
inductive History (c : Controller) : List Step → Controller → Prop
  | start : History c [] c
  | step {steps : List Step} (s : Step) (past : History c steps s.before) :
    History c (steps ++ [s]) s.after

/-- The steps after the last one with a property. -/
def since (p : Step → Bool) (steps : List Step) : List Step := steps.rtakeWhile fun s => ! p s

section
variable {c d : Controller} {p : Step → Bool} {steps : List Step}

theorem since_concat (p : Step → Bool) (steps : List Step) (s : Step) :
    since p (steps ++ [s]) = if p s then [] else since p steps ++ [s] := by
  rw [since, List.rtakeWhile_concat]
  cases p s <;> rfl

namespace History

theorem single (s : Step) : History s.before [s] s.after :=
  have h : History s.before ([] ++ [s]) s.after := .step s .start
  h

theorem trans_step {k k' : Course} {i : Input} (h : History c steps k.controller)
    (hk : k.next i = .ok k') :
    ∃ s : Step, s.input = i ∧ History c (steps ++ [s]) k'.controller := by
  obtain ⟨s, hbefore, hi, hafter⟩ := Step.exists_of_next hk
  exact ⟨s, hi, hafter ▸ .step s (hbefore.symm ▸ h)⟩

/-- What a step sets up holds until a step that ends it. -/
theorem lasts {P : Controller → Prop} {E : Step → Prop}
    (keeps : ∀ s : Step, P s.before → ¬ E s → P s.after) (h : History c steps d)
    {past later : List Step} {s : Step} (hsteps : steps = past ++ s :: later) (hs : P s.after)
    (hends : ∀ x ∈ later, ¬ E x) : P d := by
  induction h generalizing later with
  | start => exact absurd hsteps (by simp)
  | step x hpast ih =>
    -- the last step is the one that sets it up, or comes later
    rcases List.eq_nil_or_concat later with rfl | ⟨later, y, rfl⟩
    · obtain ⟨-, hx⟩ := List.append_inj' hsteps rfl
      obtain rfl := List.singleton_inj.1 hx
      exact hs
    · rw [List.concat_eq_append, ← List.cons_append, ← List.append_assoc] at hsteps
      obtain ⟨rfl, hx⟩ := List.append_inj' hsteps rfl
      obtain rfl := List.singleton_inj.1 hx
      have hbefore := ih rfl fun z hz => hends z (by simp [hz])
      exact keeps x hbefore (hends x (by simp))

end History

/-- **A history is a course with the controllers in between.** -/
theorem exists_history_iff {inputs : List Input} :
    (∃ steps, steps.map Step.input = inputs ∧ History c steps d) ↔
      ∃ rounds, c.run inputs = .ok ⟨d, rounds⟩ := by
  constructor
  · rintro ⟨steps, rfl, h⟩
    induction h with
    | start => exact ⟨[], rfl⟩
    | step s past ih =>
      obtain ⟨rounds, hk⟩ := ih
      obtain ⟨rounds', hs⟩ := s.next_input rounds
      exact ⟨rounds', by rw [List.map_append]; exact Course.follow_concat_eq_ok.2 ⟨_, hk, hs⟩⟩
  · rintro ⟨rounds, hk⟩
    induction inputs using List.reverseRecOn generalizing d rounds with
    | nil => cases hk; exact ⟨[], rfl, .start⟩
    | append_singleton inputs i ih =>
      obtain ⟨k, hk, hi⟩ := Course.follow_concat_eq_ok.1 hk
      obtain ⟨steps, rfl, h⟩ := ih k.rounds hk
      obtain ⟨s, rfl, hs⟩ := h.trans_step hi
      exact ⟨steps ++ [s], by simp, hs⟩

end

end HybridAccess.Control.Controller
