/-
  HybridAccess — the attributes that count.

  A message is acted on by the values of a few identifiers only (`heeded`), and
  by the order of the values of each one. How attributes of different
  identifiers are mixed does not matter, and neither do padding and unknown
  attributes (`Rearranged`). Main statement: `process_heeds_values`.
-/
import HybridAccess.Proofs.Control.Honours
import HybridAccess.Proofs.Message.Written

namespace HybridAccess.Control

open Message (Attribute Kind)

variable {β : Type} {s : State} {m m' : Message} {as bs : List Attribute} {id : UInt8} {kind : Kind}

/-- The identifiers that a kind of message acts on. -/
def heeded : Kind → List UInt8
  | .accept =>
    [Attribute.serverAddress, Attribute.sessionId, Attribute.bypassInterval,
      Attribute.helloInterval, Attribute.helloRetries, Attribute.bondingKey]
  | .hello => [Attribute.timestamp]
  | .notify => [Attribute.filterList, Attribute.tunnelVerification]
  | .request | .deny | .teardown => []

/-- The values with an identifier, in order. -/
def values (id : UInt8) (as : List Attribute) : List Bytes :=
  (as.filter (·.id = id)).map (·.value)

theorem values_cons (id : UInt8) (a : Attribute) (as : List Attribute) :
    values id (a :: as) = if a.id = id then a.value :: values id as else values id as := by
  by_cases ha : a.id = id <;> simp [values, ha]

/-- Two lists of attributes with the same values wherever a kind of message looks. -/
def SameHeeded (kind : Kind) (as bs : List Attribute) : Prop :=
  ∀ id ∈ heeded kind, values id as = values id bs

/-! ## Moving attributes around -/

/-- What is brought is read from the values with the identifier. -/
theorem brought_eq_filterMap (id : UInt8) (read : Attribute → Option β) (as : List Attribute) :
    brought id read as = (values id as).filterMap fun value => read ⟨id, value⟩ := by
  induction as with
  | nil => rfl
  | cons a as ih =>
    rw [brought_cons, values_cons, ih, valueOf?]
    by_cases ha : a.id = id
    · subst ha
      rw [if_pos rfl, if_pos rfl]
      cases hr : read a <;> simp [hr]
    · rw [if_neg ha, if_neg ha]
      rfl

theorem demands_eq (as : List Attribute) :
    demands as = ! (values Attribute.tunnelVerification as).isEmpty := by
  induction as with
  | nil => rfl
  | cons a as ih =>
    rw [demands, List.any_cons, ← demands, ih, values_cons]
    by_cases ha : a.id = Attribute.tunnelVerification <;> simp [ha]

theorem SameHeeded.brought (h : SameHeeded kind as bs) (hid : id ∈ heeded kind)
    (read : Attribute → Option β) : brought id read as = brought id read bs := by
  rw [brought_eq_filterMap, brought_eq_filterMap, h id hid]

theorem SameHeeded.accepted (h : SameHeeded .accept as bs) (s : Session) :
    accepted s as = accepted s bs := by
  have hread (id : UInt8) (hid : id ∈ heeded .accept) {β : Type} (read : Attribute → Option β) :
      Control.brought id read as = Control.brought id read bs := h.brought hid read
  simp only [Control.accepted]
  rw [hread _ (by decide), hread _ (by decide), hread _ (by decide), hread _ (by decide),
    hread _ (by decide), hread _ (by decide)]

theorem SameHeeded.notified (h : SameHeeded .notify as bs) (s : State) :
    notified s as = notified s bs := by
  have hlisted : listed as = listed bs := h.brought (by decide) _
  have hdemands : demands as = demands bs := by rw [demands_eq, demands_eq, h _ (by decide)]
  rw [Control.notified, hlisted, hdemands, ← Control.notified]

theorem SameHeeded.heard (h : SameHeeded .hello as bs) (now : Duration) (l : Link) :
    as.foldl (helloAttribute now) l = bs.foldl (helloAttribute now) l := by
  rw [foldl_helloAttribute_eq, foldl_helloAttribute_eq, h.brought (by decide)]

/-- An accept that brings a number, a key that is too short and a key. -/
def tidy : Message :=
  ⟨.accept, .lte, 0, [.ofWord Attribute.sessionId 42, ⟨Attribute.bondingKey, [7]⟩,
    .ofWord Attribute.bondingKey 7]⟩

end HybridAccess.Control
