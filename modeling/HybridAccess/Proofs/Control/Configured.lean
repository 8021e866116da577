/-
  HybridAccess — the hello values of the operator and of the server.

  Behind any history the session is what the accepts since it was started over
  last make of a new one, except for what is known about filters
  (`session_of_history`). Hence a hello value that the operator configured
  holds in every session, and without one the first value of the server that
  is not zero (`configured_hello_values`).
-/
import HybridAccess.Proofs.Control.History

namespace HybridAccess.Control.Controller

open Message (Attribute Kind)

/-- Two sessions that differ at most in what is known about filters. -/
def SameButFilters (s s' : Session) : Prop :=
  ∃ count acked, s' = { s with filterCount := count, filterAcked := acked }

namespace SameButFilters

variable {s s' s'' : Session}

theorem of_eq (h : s' = s) : SameButFilters s s' := ⟨_, _, h⟩

theorem trans (h : SameButFilters s s') (h' : SameButFilters s' s'') : SameButFilters s s'' := by
  obtain ⟨_, _, rfl⟩ := h
  obtain ⟨_, _, rfl⟩ := h'
  exact ⟨_, _, rfl⟩

/-- Accepts know nothing of filters. -/
theorem accepts (h : SameButFilters s s') (as : List Attribute) :
    SameButFilters (as.foldl acceptAttribute s) (as.foldl acceptAttribute s') := by
  obtain ⟨_, _, rfl⟩ := h
  rw [foldl_acceptAttribute, foldl_acceptAttribute]
  exact ⟨_, _, rfl⟩

theorem reset (h : SameButFilters s s') : s'.reset = s.reset := by
  obtain ⟨_, _, rfl⟩ := h
  rfl

end SameButFilters

/-- The attributes of all accepts since the session was started over last. -/
def offered (steps : List Step) : List Attribute :=
  (since Step.renews steps).flatMap (Step.attributes .accept)

theorem offered_concat (steps : List Step) (s : Step) : offered (steps ++ [s]) =
    if s.renews then [] else offered steps ++ s.attributes .accept := by
  rw [offered, since_concat]
  split
  · rfl
  · rw [List.flatMap_append, List.flatMap_singleton, offered]

/-- A step that does not start the session over adds the attributes of its accept. -/
theorem Step.session (s : Step) (h : s.renews = false) : SameButFilters
    ((s.attributes .accept).foldl acceptAttribute s.before.state.session)
    s.after.state.session := by
  cases s with
  | packet c bytes source now =>
    rcases Step.packet_cases c bytes source now with ⟨hm, hc⟩ | ⟨m, hm, hc⟩
    · rw [Step.attributes_of_none hm, hc]
      exact .of_eq rfl
    · rw [Step.attributes_of_some hm, hc]
      split
      · next hk => exact .of_eq (session_apply_accept hk)
      · next hk => exact ⟨_, _, (changes_apply c.state m now).session hk⟩
  | stop c => exact .of_eq rfl
  | round c answers now r possible =>
    rw [Step.renews_round, Bool.not_eq_false'] at h
    have hs := session_tick possible
    rw [if_pos h] at hs
    exact ⟨_, _, hs⟩

/-- A step that starts the session over forgets all accepts. -/
theorem Step.session_of_renews (s : Step) (h : s.renews = true) :
    s.after.state.session = s.before.state.session.reset := by
  cases s with
  | packet | stop => cases h
  | round c answers now r possible =>
    rw [Step.renews_round, Bool.not_eq_true'] at h
    have hs := session_tick possible
    rw [h] at hs
    exact hs

section
variable {config : Config} {lte : IPv6} {dsl : Option IPv6} {helper4 helper6 : Bool}
  {steps : List Step} {c : Controller}

/-- **The session is what the accepts since it was started over last make of a new one.** -/
theorem session_of_history (h : History (initial config lte dsl helper4 helper6) steps c) :
    SameButFilters ((offered steps).foldl acceptAttribute
        (.startup config.anycast config.helloInterval config.helloRetries)) c.state.session := by
  induction h with
  | start => exact .of_eq rfl
  | step s past ih =>
    rw [offered_concat]
    split
    · next hs =>
      have hreset := ih.reset
      rw [foldl_acceptAttribute] at hreset
      exact .of_eq ((s.session_of_renews hs).trans hreset)
    · next hs =>
      rw [List.foldl_append]
      exact (ih.accepts _).trans (s.session (Bool.eq_false_iff.2 hs))

end

/-- **A hello value that is configured stays in every session. One that is not is the first value
that is not zero in the accepts since the session was started over last, or zero.** -/
theorem configured_hello_values (config : Config) (lte : IPv6) (dsl : Option IPv6)
    (helper4 helper6 : Bool) (steps : List Step) (c : Controller)
    (h : History (initial config lte dsl helper4 helper6) steps c) :
    let first (id : UInt8) : UInt32 :=
      ((brought id (·.asWord?) (offered steps)).find? (· ≠ 0)).getD 0
    c.state.session.helloInterval = (if config.helloInterval ≠ 0 then config.helloInterval
      else first Attribute.helloInterval) ∧
    c.state.session.helloRetries = (if config.helloRetries ≠ 0 then config.helloRetries
      else first Attribute.helloRetries) ∧
    .ofSeconds 1 ≤ c.state.session.helloPeriod ∧ 1 ≤ c.state.session.retryLimit := by
  obtain ⟨count, acked, hs⟩ := session_of_history h
  rw [foldl_acceptAttribute] at hs
  have hinterval : c.state.session.helloInterval = firstOr config.helloInterval
    (brought Attribute.helloInterval (·.asWord?) (offered steps)) := by rw [hs]; rfl
  have hretries : c.state.session.helloRetries = firstOr config.helloRetries
    (brought Attribute.helloRetries (·.asWord?) (offered steps)) := by rw [hs]; rfl
  refine ⟨?_, ?_, c.state.session.one_le_helloPeriod, c.state.session.retryLimit_pos⟩
  · rw [hinterval, firstOr, ite_not]
  · rw [hretries, firstOr, ite_not]

/-- An accept of the cellular link that brings the intervals 0, 7 and 9. -/
def offer : Bytes :=
  [0x20, 0, 1, 1, 0, 0, 0, 0, 0x20, 14, 0, 4, 0, 0, 0, 0, 14, 0, 4, 0, 0, 0, 7, 14, 0, 4, 0, 0, 0, 9]

/-- Nothing is configured, so that the first interval that is not zero holds. -/
theorem first_interval_holds : ∃ c,
    History (initial .default .unspecified none false false)
      [.packet (initial .default .unspecified none false false) offer Config.default.anycast .zero]
      c ∧
    c.state.session.helloInterval = 7 := by
  have h := History.step (c := initial .default .unspecified none false false)
    (.packet _ offer Config.default.anycast .zero) .start
  obtain ⟨hinterval, -⟩ := configured_hello_values _ _ _ _ _ _ _ h
  exact ⟨_, h, hinterval.trans (by decide +kernel)⟩

end HybridAccess.Control.Controller
