/-
  HybridAccess — what an accept makes of a session.

  An accept lists values of the session. `brought` are the values of one kind
  that can be read, in order. Address, number, key and report interval become
  the last value brought and stay if there is none (`lastOr`). A hello value is
  taken over only where none is set, so that the first one that is not zero
  stays (`firstOr`). `foldl_acceptAttribute` gives the session behind any list,
  and `accepted_eq_iff` says when two sessions end up as the same one.
-/
import Mathlib.Tactic.SplitIfs
import HybridAccess.Control.Inbound

namespace HybridAccess.Control

open Message (Attribute)

variable {β : Type}

/-- The value of an attribute, if it has the identifier and can be read. -/
def valueOf? (id : UInt8) (read : Attribute → Option β) (a : Attribute) : Option β :=
  if a.id = id then read a else none

/-- The values with an identifier that can be read, in order. -/
def brought (id : UInt8) (read : Attribute → Option β) (as : List Attribute) : List β :=
  as.filterMap (valueOf? id read)

theorem brought_cons (id : UInt8) (read : Attribute → Option β) (a : Attribute)
    (as : List Attribute) :
    brought id read (a :: as) = (valueOf? id read a).toList ++ brought id read as := by
  cases h : valueOf? id read a <;> simp [brought, h]

/-! ## Taking values over -/

/-- The last value, or the one that was there before. -/
def lastOr (old : β) (values : List β) : β := values.getLast?.getD old

/-- The value that was there before, or the first one that is not zero. -/
def firstOr (old : UInt32) (values : List UInt32) : UInt32 :=
  if old = 0 then (values.find? (· ≠ 0)).getD 0 else old

@[simp] theorem lastOr_nil (old : β) : lastOr old [] = old := rfl

@[simp] theorem lastOr_toList_append (old : β) (o : Option β) (values : List β) :
    lastOr old (o.toList ++ values) = lastOr (o.getD old) values := by
  cases o with
  | none => rfl
  | some b => simp [lastOr, List.getLast?_cons]

theorem lastOr_append (old : β) (xs ys : List β) :
    lastOr old (xs ++ ys) = lastOr (lastOr old xs) ys := by
  cases h : ys.getLast? <;> simp [lastOr, List.getLast?_append, h]

theorem lastOr_eq_iff {old old' : β} {values : List β} :
    lastOr old values = lastOr old' values ↔ old = old' ∨ values ≠ [] := by
  cases values with
  | nil => simp
  | cons b values => simp [lastOr, List.getLast?_cons]

@[simp] theorem firstOr_nil (old : UInt32) : firstOr old [] = old := by
  by_cases h : old = 0 <;> simp [firstOr, h]

@[simp] theorem firstOr_toList_append (old : UInt32) (o : Option UInt32) (values : List UInt32) :
    firstOr old (o.toList ++ values) = firstOr (if old = 0 then o.getD old else old) values := by
  by_cases h : old = 0
  · cases o with
    | none => simp [h]
    | some w => by_cases hw : w = 0 <;> simp [firstOr, h, hw]
  · simp [firstOr, h]

theorem firstOr_of_ne {old : UInt32} (h : old ≠ 0) (values : List UInt32) :
    firstOr old values = old := if_neg h

/-- Where a value that was set is the configured one, what was there before does not count if it is
the configured value, or the first value that is brought anyway. -/
theorem firstOr_eq_iff {old start : UInt32} {values : List UInt32} (h : start ≠ 0 → old = start) :
    firstOr old values = firstOr start values ↔
      old = start ∨ values.find? (· ≠ 0) = some old := by
  by_cases he : old = start
  · simp [he]
  -- nothing is configured, so that the old value came from the server
  have hs : start = 0 := Classical.byContradiction fun hs => he (h hs)
  subst hs
  rw [firstOr_of_ne he, firstOr, if_pos rfl]
  cases hf : values.find? (· ≠ 0) with
  | none => simp [he]
  | some w => simp [he, eq_comm]

/-! ## The session -/

/-- The session behind an accept with the given attributes. -/
def accepted (s : Session) (as : List Attribute) : Session :=
  { s with
    server := lastOr s.server (brought Attribute.serverAddress (·.asAddress?) as)
    id := lastOr s.id (brought Attribute.sessionId (·.asWord?) as)
    key := lastOr s.key (brought Attribute.bondingKey (·.asWord?) as)
    bypassInterval := lastOr s.bypassInterval (brought Attribute.bypassInterval (·.asWord?) as)
    helloInterval := firstOr s.helloInterval (brought Attribute.helloInterval (·.asWord?) as)
    helloRetries := firstOr s.helloRetries (brought Attribute.helloRetries (·.asWord?) as) }

/-- One attribute changes at most the field that its identifier names. -/
theorem acceptAttribute_eq (s : Session) (a : Attribute) : acceptAttribute s a =
    { s with
      server := (valueOf? Attribute.serverAddress (·.asAddress?) a).getD s.server
      id := (valueOf? Attribute.sessionId (·.asWord?) a).getD s.id
      key := (valueOf? Attribute.bondingKey (·.asWord?) a).getD s.key
      bypassInterval := (valueOf? Attribute.bypassInterval (·.asWord?) a).getD s.bypassInterval
      helloInterval := if s.helloInterval = 0 then
        (valueOf? Attribute.helloInterval (·.asWord?) a).getD s.helloInterval else s.helloInterval
      helloRetries := if s.helloRetries = 0 then
        (valueOf? Attribute.helloRetries (·.asWord?) a).getD s.helloRetries
        else s.helloRetries } := by
  cases s
  unfold acceptAttribute
  split_ifs <;> simp_all [valueOf?, Attribute.serverAddress, Attribute.sessionId,
    Attribute.bondingKey, Attribute.bypassInterval, Attribute.helloInterval, Attribute.helloRetries]

/-- **An accept takes over the last value of a kind, and the first hello values where none is
set.** -/
theorem foldl_acceptAttribute (s : Session) (as : List Attribute) :
    as.foldl acceptAttribute s = accepted s as := by
  induction as generalizing s with
  | nil => simp [accepted, brought]
  | cons a as ih =>
    rw [List.foldl_cons, ih, acceptAttribute_eq]
    simp only [accepted, brought_cons, lastOr_toList_append, firstOr_toList_append]

/-! ## What was there before -/

/-- The session goes back to `start`, and has not lost what the operator configured. -/
structure Began (start s : Session) : Prop where
  reset : s.reset = start
  helloInterval : start.helloInterval ≠ 0 → s.helloInterval = start.helloInterval
  helloRetries : start.helloRetries ≠ 0 → s.helloRetries = start.helloRetries

theorem Began.startup (anycast : IPv6) (interval retries : UInt32) :
    Began (.startup anycast interval retries) (.startup anycast interval retries) :=
  ⟨rfl, fun _ => rfl, fun _ => rfl⟩

theorem Began.accepted {start s : Session} (h : Began start s) (as : List Attribute) :
    Began start (accepted s as) := by
  refine ⟨h.reset, fun hi => ?_, fun hr => ?_⟩
  · have hs := h.helloInterval hi
    exact (firstOr_of_ne (hs ▸ hi) _).trans hs
  · have hs := h.helloRetries hr
    exact (firstOr_of_ne (hs ▸ hr) _).trans hs

/-- Where the session `s` differs from `start`, an accept with the given attributes brings the value
itself. Nothing it can bring touches the filters. -/
structure Forgets (as : List Attribute) (s start : Session) : Prop where
  server : s.server = start.server ∨ brought Attribute.serverAddress (·.asAddress?) as ≠ []
  id : s.id = start.id ∨ brought Attribute.sessionId (·.asWord?) as ≠ []
  key : s.key = start.key ∨ brought Attribute.bondingKey (·.asWord?) as ≠ []
  bypassInterval : s.bypassInterval = start.bypassInterval ∨
    brought Attribute.bypassInterval (·.asWord?) as ≠ []
  helloInterval : s.helloInterval = start.helloInterval ∨
    (brought Attribute.helloInterval (·.asWord?) as).find? (· ≠ 0) = some s.helloInterval
  helloRetries : s.helloRetries = start.helloRetries ∨
    (brought Attribute.helloRetries (·.asWord?) as).find? (· ≠ 0) = some s.helloRetries
  filterCount : s.filterCount = start.filterCount
  filterAcked : s.filterAcked = start.filterAcked

/-- **Two sessions that began alike become the same one just if the accept forgets the
difference.** -/
theorem accepted_eq_iff {start s : Session} (h : Began start s) {as : List Attribute} :
    accepted s as = accepted start as ↔ Forgets as s start := by
  obtain ⟨rfl, hi, hr⟩ := h
  simp only [accepted, Session.mk.injEq, lastOr_eq_iff, firstOr_eq_iff hi, firstOr_eq_iff hr]
  constructor
  · rintro ⟨-, h₁, h₂, h₃, h₄, h₅, h₆, h₇, h₈, -, -⟩
    exact ⟨h₁, h₂, h₃, h₆, h₄, h₅, h₇, h₈⟩
  · rintro ⟨h₁, h₂, h₃, h₆, h₄, h₅, h₇, h₈⟩
    exact ⟨rfl, h₁, h₂, h₃, h₄, h₅, h₆, h₇, h₈, rfl, rfl⟩

end HybridAccess.Control
