/-
  HybridAccess — durations that are written and read back.

  A span is written as counts, each with the spelling of its unit, and a count
  of zero is left out (`counts`). Read back, a count adds the length that it
  stands for (`readSpan_count`), so a list of counts adds its lengths
  (`readSpan_counts`), and those of a duration make up the duration
  (`sum_counts`).
  Main statement: `ofSpan_span`.
-/
import HybridAccess.Duration.Span
import HybridAccess.Proofs.Text.Digits
import Mathlib.Algebra.GroupWithZero.Nat

namespace HybridAccess.Duration

/-! ## Numbers and units -/

theorem digit?_digitChar {d : Nat} (hd : d < 10) : digit? d.digitChar = some d := by
  have hall : ∀ d < 10, digit? (Nat.digitChar d) = some d := by decide
  exact hall d hd

theorem word64?_of_lt {n : Nat} (h : n < UInt64.size) : word64? n = some n := if_pos h

theorem pushDigit?_div_mod {n : Nat} (h : n < UInt64.size) :
    pushDigit? (n / 10) (n % 10) = some n := by
  have hsum : n / 10 * 10 + n % 10 = n := by omega
  rw [pushDigit?, word64?_of_lt (by omega)]
  simp only [bind, Option.bind_some, hsum]
  exact word64?_of_lt h

/-- A number is read up to its last digit. -/
theorem readSpan_decimal (total : Duration) {n : Nat} (h : n < UInt64.size) (cs : List Char) :
    readSpan total .ahead (Text.decimal n ++ cs) = readSpan total (.inNumber n) cs := by
  induction n using Nat.strongRecOn generalizing cs with
  | ind n ih =>
    rw [Text.decimal, Nat.toDigits_eq_if (by decide)]
    split
    · next hn =>
      rw [List.singleton_append, readSpan, digit?_digitChar hn]
    · next hn =>
      have hfront := ih (n / 10) (by omega) (by omega) (Nat.digitChar (n % 10) :: cs)
      rw [Text.decimal] at hfront
      rw [List.append_assoc, List.singleton_append, hfront, readSpan,
        digit?_digitChar (Nat.mod_lt n (by decide))]
      simp only [pushDigit?_div_mod h, ReadFault.orMalformed_some, Except.bind]

/-- A character that can only belong to the spelling of a unit. -/
structure IsLetter (c : Char) : Prop where
  unit : isUnitChar c
  digit : digit? c = none
  blank : ¬ Text.isBlank c

theorem isLetter_of_mem_names {u : Unit} {name : String} (h : name ∈ u.names) :
    ∀ c ∈ name.toList, IsLetter c := by
  have hall : ∀ name ∈ u.names, name.toList.all fun c =>
      isUnitChar c ∧ digit? c = none ∧ ¬ Text.isBlank c := by
    cases u <;> decide
  intro c hc
  obtain ⟨hunit, hdigit, hblank⟩ := of_decide_eq_true (List.all_eq_true.1 (hall name h) c hc)
  exact ⟨hunit, hdigit, hblank⟩

theorem exists_cons_of_mem_names {u : Unit} {name : String} (h : name ∈ u.names) :
    ∃ c cs, name.toList = c :: cs := by
  have hall : ∀ name ∈ u.names, name.toList ≠ [] := by cases u <;> decide
  exact List.exists_cons_of_ne_nil (hall name h)

theorem ofName?_of_mem_names {u : Unit} {name : String} (h : name ∈ u.names) :
    Unit.ofName? name = some u := by
  have hall : ∀ name ∈ u.names, Unit.ofName? name = some u := by cases u <;> decide
  exact hall name h

theorem readSpan_letters (total : Duration) (n : Nat) (f : Option Fraction) (name : List Char)
    {letters : List Char} (h : ∀ c ∈ letters, IsLetter c) (cs : List Char) :
    readSpan total (.inUnit n f name) (letters ++ cs) =
      readSpan total (.inUnit n f (letters.reverse ++ name)) cs := by
  induction letters generalizing name with
  | nil => rfl
  | cons c letters ih =>
    rw [List.forall_mem_cons] at h
    obtain ⟨⟨hunit, hdigit, hblank⟩, hletters⟩ := h
    rw [List.cons_append, readSpan, hdigit]
    simp only [hunit, hblank, if_true]
    rw [if_neg (by simp), ih _ hletters]
    simp

/-! ## Counts -/

/-- How many of a unit there are, and how the unit is spelled. -/
structure Count where
  number : Nat
  unit : Unit
  name : String
  mem_names : name ∈ unit.names

namespace Count

/-- The form of a count. -/
def chars (c : Count) : List Char := Text.decimal c.number ++ c.name.toList

/-- The seconds that a count stands for. -/
def seconds (c : Count) : Nat := if c.unit.hasSeconds then c.number * c.unit.grains else 0

/-- The nanoseconds that a count stands for. -/
def nanos (c : Count) : Nat := if c.unit.hasSeconds then 0 else c.number * c.unit.grains

/-- The length of a count, in the grains of its unit. -/
def grains (c : Count) : Grains := ⟨c.number * c.unit.grains, c.unit.hasSeconds⟩

theorem seconds_grains (c : Count) : c.grains.seconds = c.seconds := rfl

theorem nanos_grains (c : Count) : c.grains.nanos = c.nanos := rfl

/-- A count whose length has a place in a duration. -/
structure Fits (c : Count) : Prop where
  seconds : c.seconds < UInt64.size
  nanos : c.nanos < second

theorem number_mul_grains_lt {c : Count} (h : c.Fits) :
    c.number * c.unit.grains < UInt64.size := by
  have hseconds := h.seconds
  have hnanos : c.nanos < UInt64.size := Nat.lt_trans h.nanos (by decide)
  unfold Count.seconds Count.nanos at *
  split at hseconds
  · exact hseconds
  · rwa [if_neg ‹_›] at hnanos

theorem number_lt {c : Count} (h : c.Fits) : c.number < UInt64.size := by
  have hgrains : 0 < c.unit.grains := by cases c.unit <;> decide
  exact Nat.lt_of_le_of_lt (Nat.le_mul_of_pos_right _ hgrains) (number_mul_grains_lt h)

theorem whole?_eq {c : Count} (h : c.Fits) : whole? c.number c.unit = some c.grains := by
  rw [whole?, word64?_of_lt (number_mul_grains_lt h)]
  rfl

end Count

theorem addGrains_eq {total : Duration} {g : Grains}
    (hs : total.seconds + g.seconds < UInt64.size)
    (hn : total.subsecNanos + g.nanos < second) :
    addGrains total g =
      .ok (ofParts (total.seconds + g.seconds) (total.subsecNanos + g.nanos)) := by
  have hword : total.subsecNanos + g.nanos < UInt64.size := Nat.lt_trans hn (by decide)
  have hlimit : ofParts (total.seconds + g.seconds) (total.subsecNanos + g.nanos) < limit := by
    simp only [lt_def, ofParts, limit, ofSeconds, second] at hn ⊢
    omega
  rw [addGrains, word64?_of_lt hword]
  simp only [ReadFault.orMalformed_some, bind, Except.bind, Nat.not_lt.2 (Nat.le_of_lt hn),
    if_false, Nat.add_zero, Nat.zero_mul, Nat.sub_zero, word64?_of_lt hs]
  exact if_pos hlimit

theorem addItem_eq {total sum : Duration} {n : Nat} {name : List Char} {u : Unit} {g : Grains}
    (hu : Unit.ofName? (String.ofList name) = some u) (hg : whole? n u = some g)
    (hadd : addGrains total g = .ok sum) : addItem total n none name = .ok sum := by
  rw [addItem, hu, ReadFault.orMalformed_some]
  simp only [bind, Except.bind]
  rw [hg, ReadFault.orMalformed_some]
  simp only
  rw [hadd]
  rfl

/-- A count adds the length that it stands for. -/
theorem addItem_count {s n : Nat} {c : Count} (hs : s + c.seconds < UInt64.size)
    (hn : n + c.nanos < second) : addItem (ofParts s n) c.number none c.name.toList =
      .ok (ofParts (s + c.seconds) (n + c.nanos)) := by
  have hn' : n < second := Nat.lt_of_le_of_lt (Nat.le_add_right _ _) hn
  have hfits : c.Fits :=
    ⟨Nat.lt_of_le_of_lt (Nat.le_add_left _ _) hs, Nat.lt_of_le_of_lt (Nat.le_add_left _ _) hn⟩
  have hadd := @addGrains_eq (ofParts s n) c.grains
  rw [seconds_ofParts hn', subsecNanos_ofParts hn', c.seconds_grains, c.nanos_grains] at hadd
  refine addItem_eq ?_ (Count.whole?_eq hfits) (hadd hs hn)
  rw [String.ofList_toList, ofName?_of_mem_names c.mem_names]

/-- A count is read up to its last letter. -/
theorem readSpan_chars (total : Duration) {c : Count} (h : c.Fits) (cs : List Char) :
    readSpan total .ahead (c.chars ++ cs) =
      readSpan total (.inUnit c.number none c.name.toList.reverse) cs := by
  obtain ⟨l, ls, hname⟩ := exists_cons_of_mem_names c.mem_names
  have hletters := isLetter_of_mem_names c.mem_names
  rw [hname, List.forall_mem_cons] at hletters
  obtain ⟨⟨hunit, hdigit, hblank⟩, hletters⟩ := hletters
  rw [Count.chars, List.append_assoc, readSpan_decimal total (Count.number_lt h), hname,
    List.cons_append, readSpan, hdigit]
  simp only [hunit, hblank, if_true]
  rw [if_neg (by simp), readSpan_letters _ _ _ _ hletters]
  simp

/-- **Counts with blanks between them add their lengths.** -/
theorem readSpan_counts {counts : List Count} (hne : counts ≠ []) {s n : Nat}
    (hs : s + (counts.map Count.seconds).sum < UInt64.size)
    (hn : n + (counts.map Count.nanos).sum < second) :
    readSpan (ofParts s n) .ahead ([' '].intercalate (counts.map Count.chars)) =
      .ok (ofParts (s + (counts.map Count.seconds).sum) (n + (counts.map Count.nanos).sum)) := by
  induction counts generalizing s n with
  | nil => exact absurd rfl hne
  | cons c counts ih =>
    simp only [List.map_cons, List.sum_cons, ← Nat.add_assoc] at hs hn ⊢
    have hfits : c.Fits := ⟨by omega, by omega⟩
    have hadd := @addItem_count s n c (Nat.lt_of_le_of_lt (Nat.le_add_right _ _) hs)
      (Nat.lt_of_le_of_lt (Nat.le_add_right _ _) hn)
    cases counts with
    | nil =>
      have hread := readSpan_chars (ofParts s n) hfits []
      rw [List.append_nil, readSpan, List.reverse_reverse, hadd] at hread
      simpa [List.intercalate] using hread
    | cons c' counts =>
      rw [List.map_cons, List.intercalate_cons_cons, List.append_assoc, List.singleton_append,
        readSpan_chars _ hfits, readSpan, show digit? ' ' = none from rfl]
      simp only [show Text.isBlank ' ' = true from rfl, if_true, List.reverse_reverse, hadd,
        Except.bind]
      exact ih (List.cons_ne_nil _ _) hs hn

/-! ## The counts of a duration -/

/-- The spelling of a unit of which there are so many. -/
def plural (number : Nat) (name : String) : String := if number = 1 then name else name ++ "s"

theorem plural_mem {name : String} {names : List String} (h : name ∈ names)
    (hs : name ++ "s" ∈ names) (number : Nat) : plural number name ∈ names := by
  unfold plural
  split
  · exact h
  · exact hs

/-- The counts of a duration, the longest unit first. -/
def counts (d : Duration) : List Count :=
  let s := d.seconds
  let inYear := s % 31557600
  let inMonth := inYear % 2630016
  let inDay := inMonth % 86400
  let n := d.subsecNanos
  [⟨s / 31557600, .year, plural (s / 31557600) "year", plural_mem (by decide) (by decide) _⟩,
    ⟨inYear / 2630016, .month, plural (inYear / 2630016) "month",
      plural_mem (by decide) (by decide) _⟩,
    ⟨inMonth / 86400, .day, plural (inMonth / 86400) "day", plural_mem (by decide) (by decide) _⟩,
    ⟨inDay / 3600, .hour, "h", by decide⟩, ⟨inDay % 3600 / 60, .minute, "m", by decide⟩,
    ⟨inDay % 60, .second, "s", by decide⟩, ⟨n / 1000000, .millisecond, "ms", by decide⟩,
    ⟨n / 1000 % 1000, .microsecond, "us", by decide⟩, ⟨n % 1000, .nanosecond, "ns", by decide⟩]

/-- The counts that are written. -/
def written (d : Duration) : List Count := d.counts.filter (·.number ≠ 0)

theorem toList_item (c : Count) : (item c.number c.name).map String.toList =
    ([c].filter (·.number ≠ 0)).map Count.chars := by
  unfold item
  by_cases h : c.number = 0
  · simp [h]
  · simp [h, Count.chars, Text.decimal, toString]

theorem toList_spanItems (d : Duration) :
    d.spanItems.map String.toList = d.written.map Count.chars := by
  have hitems : d.spanItems = d.counts.flatMap fun c => item c.number c.name := by
    simp [spanItems, counts, itemPlural, plural]
  have hall : ∀ cs : List Count, (cs.flatMap fun c => item c.number c.name).map String.toList =
      (cs.filter (·.number ≠ 0)).map Count.chars := by
    intro cs
    induction cs with
    | nil => rfl
    | cons c cs ih =>
      rw [List.flatMap_cons, List.map_append, ih, toList_item, ← List.map_append,
        ← List.filter_append, List.singleton_append]
  rw [hitems, hall, written]

/-- A count of zero adds nothing. -/
theorem sum_filter {f : Count → Nat} (hf : ∀ c : Count, c.number = 0 → f c = 0)
    (cs : List Count) : ((cs.filter (·.number ≠ 0)).map f).sum = (cs.map f).sum := by
  induction cs with
  | nil => rfl
  | cons c cs ih =>
    by_cases h : c.number = 0
    · simpa [h, hf c h] using ih
    · simpa [h] using ih

-- `List.sum_cons` holds by computation, and simplifying with it makes the kernel compute.
theorem sum_map_cons (f : Count → Nat) (c : Count) (cs : List Count) :
    ((c :: cs).map f).sum = f c + (cs.map f).sum := by
  rw [List.map_cons, List.sum_cons]

theorem sum_seconds (d : Duration) : (d.written.map Count.seconds).sum = d.seconds := by
  rw [written, sum_filter fun c hc => by simp [Count.seconds, hc]]
  simp only [counts, Nat.reduceDvd, Nat.mod_mod_of_dvd, sum_map_cons, Count.seconds,
    Unit.hasSeconds, if_true, Unit.grains, Nat.mul_one, Bool.false_eq_true, if_false,
    List.map_nil, List.sum_nil]
  omega

theorem sum_nanos (d : Duration) : (d.written.map Count.nanos).sum = d.subsecNanos := by
  rw [written, sum_filter fun c hc => by simp [Count.nanos, hc]]
  simp only [counts, sum_map_cons, Count.nanos, Unit.hasSeconds, if_true, Bool.false_eq_true,
    if_false, Unit.grains, Nat.mul_one, List.map_nil, List.sum_nil]
  omega

theorem ofParts_seconds (d : Duration) : ofParts d.seconds d.subsecNanos = d := by
  rw [ofParts, seconds, subsecNanos, Nat.div_add_mod']

theorem written_ne_nil {d : Duration} (h : d.nanos ≠ 0) : d.written ≠ [] := by
  intro hnil
  have hs := sum_seconds d
  have hn := sum_nanos d
  rw [hnil] at hs hn
  have hd := ofParts_seconds d
  rw [← hs, ← hn] at hd
  exact h (congrArg nanos hd).symm

theorem toList_span {d : Duration} (h : d.nanos ≠ 0) :
    d.span.toList = [' '].intercalate (d.written.map Count.chars) := by
  rw [span, if_neg h, String.toList_intercalate, toList_spanItems]
  rfl

/-- There is a letter in a span. -/
theorem exists_isLetter_span (d : Duration) : ∃ c ∈ d.span.toList, IsLetter c := by
  by_cases h : d.nanos = 0
  · have hs : "s" ∈ Unit.second.names := by decide
    refine ⟨'s', ?_, isLetter_of_mem_names hs 's' (by decide)⟩
    rw [span, if_pos h]
    decide
  · obtain ⟨c, cs, hcs⟩ := List.exists_cons_of_ne_nil (written_ne_nil h)
    obtain ⟨l, ls, hname⟩ := exists_cons_of_mem_names c.mem_names
    refine ⟨l, ?_, isLetter_of_mem_names c.mem_names l (by simp [hname])⟩
    rw [toList_span h, hcs]
    cases cs <;> simp [List.intercalate, Count.chars, hname]

/-- **A duration is read back.** -/
theorem ofSpan_span {d : Duration} (h : d < limit) : ofSpan d.span = .ok d := by
  obtain ⟨l, hmem, hletter⟩ := exists_isLetter_span d
  have hzero : d.span ≠ "0" := by
    intro hspan
    rw [hspan] at hmem
    obtain rfl : l = '0' := by simpa using hmem
    exact absurd hletter.unit (by decide)
  have hblank : d.span.toList.all Text.isBlank = false := by
    rw [List.all_eq_false]
    exact ⟨l, hmem, hletter.blank⟩
  rw [ofSpan, if_neg hzero, hblank]
  by_cases hd : d.nanos = 0
  · obtain rfl : d = zero := Duration.ext hd
    rfl
  · have hs : d.seconds < UInt64.size := Nat.div_lt_of_lt_mul (Nat.mul_comm _ second ▸ h)
    have hn : d.subsecNanos < second := Nat.mod_lt _ (by decide)
    have hread := @readSpan_counts d.written (written_ne_nil hd) 0 0
    rw [sum_seconds, sum_nanos, Nat.zero_add, Nat.zero_add, ofParts_seconds,
      ← toList_span hd] at hread
    exact hread hs hn

end HybridAccess.Duration
