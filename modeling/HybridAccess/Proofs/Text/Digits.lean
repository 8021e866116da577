/-
  HybridAccess — numbers in texts, and texts in pieces.

  The digits of a number are read back in every base up to sixteen
  (`natural?_toDigits`), and so is a number with a limit (`unsigned?_decimal`).
  A separator divides the pieces of a text (`splitOn_append`), and pieces that
  do not hold it are found again (`splitOn_intercalate`). Blanks at the ends of
  a text are not seen behind `trim`.
-/
import HybridAccess.Text.Lines
import HybridAccess.Text.Number
import Mathlib.Data.List.TakeWhile

namespace HybridAccess.Text

/-! ## Digits -/

section
variable {base : Nat}

theorem digitValue?_digitChar (hb : base ≤ 16) {d : Nat} (hd : d < base) :
    digitValue? base d.digitChar = some d := by
  have hvalue : ∀ d < 16, Bytes.hexValue? (Nat.digitChar d) = some d := by decide
  rw [digitValue?, hvalue d (Nat.lt_of_lt_of_le hd hb)]
  exact if_pos (by simpa using hd)

theorem foldDigits?_append (acc : Nat) (ds rest : List Char) :
    foldDigits? base acc (ds ++ rest) =
      (foldDigits? base acc ds).bind fun n => foldDigits? base n rest := by
  induction ds generalizing acc with
  | nil => rfl
  | cons c ds ih =>
    simp only [List.cons_append, foldDigits?]
    cases digitValue? base c with
    | none => rfl
    | some d => exact ih _

/-- What holds of every digit holds of the characters of a number. -/
theorem forall_mem_toDigits {p : Char → Prop} (hb : 1 < base)
    (h : ∀ d < base, p d.digitChar) (n : Nat) : ∀ c ∈ Nat.toDigits base n, p c := by
  induction n using Nat.strongRecOn with
  | ind n ih =>
    rw [Nat.toDigits_eq_if hb]
    split
    · next hn => simpa using h n hn
    · next hn =>
      intro c hc
      rcases List.mem_append.1 hc with hc | hc
      · exact ih (n / base) (Nat.div_lt_self (by omega) hb) c hc
      · rw [List.mem_singleton.1 hc]
        exact h _ (Nat.mod_lt n (by omega))

theorem foldDigits?_toDigits (hb : 1 < base) (hb' : base ≤ 16) (n : Nat) :
    foldDigits? base 0 (Nat.toDigits base n) = some n := by
  induction n using Nat.strongRecOn with
  | ind n ih =>
    rw [Nat.toDigits_eq_if hb]
    split
    · next hn => simp [foldDigits?, digitValue?_digitChar hb' hn]
    · next hn =>
      have hmod : n % base < base := Nat.mod_lt n (by omega)
      rw [foldDigits?_append, ih (n / base) (Nat.div_lt_self (by omega) hb)]
      simp [foldDigits?, digitValue?_digitChar hb' hmod, Nat.div_add_mod']

theorem natural?_of_ne_nil {ds : List Char} (h : ds ≠ []) :
    natural? base ds = foldDigits? base 0 ds := by
  cases ds with
  | nil => exact absurd rfl h
  | cons c cs => rfl

/-- **The digits of a number are read back.** -/
theorem natural?_toDigits (hb : 1 < base) (hb' : base ≤ 16) (n : Nat) :
    natural? base (Nat.toDigits base n) = some n := by
  rw [natural?_of_ne_nil Nat.toDigits_ne_nil, foldDigits?_toDigits hb hb']

end

/-! ## Decimal numbers -/

theorem natural?_decimal (n : Nat) : natural? 10 (decimal n) = some n :=
  natural?_toDigits (by decide) (by decide) n

theorem decimal_ne_nil (n : Nat) : decimal n ≠ [] :=
  Nat.toDigits_ne_nil

theorem not_mem_decimal {c : Char} (h : ∀ d < 10, Nat.digitChar d ≠ c) (n : Nat) :
    c ∉ decimal n := by
  intro hc
  exact forall_mem_toDigits (p := (· ≠ c)) (by decide) h n c hc rfl

/-- A number begins with a zero just if it is one. -/
theorem head?_decimal_ne_zero {n : Nat} (hn : 0 < n) : (decimal n).head? ≠ some '0' := by
  induction n using Nat.strongRecOn with
  | ind n ih =>
    rw [decimal, Nat.toDigits_eq_if (by decide)]
    split
    · have hdigit : ∀ d < 10, 0 < d → Nat.digitChar d ≠ '0' := by decide
      simpa using hdigit n ‹_› hn
    · have hfront := ih (n / 10) (by omega) (by omega)
      unfold decimal at hfront
      rw [List.head?_append]
      cases hd : (Nat.toDigits 10 (n / 10)).head? with
      | none => exact absurd (List.head?_eq_none_iff.1 hd) Nat.toDigits_ne_nil
      | some c => rwa [hd] at hfront

theorem length_decimal_eq_one_or (n : Nat) :
    (decimal n).length = 1 ∨ (decimal n).head? ≠ some '0' := by
  rcases Nat.eq_zero_or_pos n with rfl | hn
  · exact .inl rfl
  · exact .inr (head?_decimal_ne_zero hn)

/-- **A number below the limit is read back.** -/
theorem unsigned?_decimal {n limit : Nat} (h : n < limit) :
    unsigned? 10 limit (decimal n) = some n := by
  have hplus := not_mem_decimal (c := '+') (by decide) n
  unfold unsigned?
  split
  · next rest heq => exact absurd (heq ▸ List.mem_cons_self) hplus
  · simp [natural?_decimal, h]

/-! ## Pieces -/

theorem splitOn_of_not_mem {sep : Char} {cs : List Char} (h : sep ∉ cs) :
    splitOn sep cs = [cs] := by
  induction cs with
  | nil => rfl
  | cons c cs ih =>
    rw [List.mem_cons, not_or] at h
    rw [splitOn_cons, if_neg (Ne.symm h.1), ih h.2]
    rfl

/-- A separator divides the pieces before it from those behind it. -/
theorem splitOn_append (sep : Char) (front back : List Char) :
    splitOn sep (front ++ sep :: back) = splitOn sep front ++ splitOn sep back := by
  induction front with
  | nil => simp [splitOn_cons]
  | cons c cs ih =>
    rw [List.cons_append, splitOn_cons, splitOn_cons, ih]
    split
    · rfl
    · obtain ⟨p, ps, hp⟩ := List.exists_cons_of_ne_nil (splitOn_ne_nil sep cs)
      rw [hp]
      rfl

/-- **Pieces that do not hold the separator are found again.** -/
theorem splitOn_intercalate {sep : Char} {pieces : List (List Char)} (hne : pieces ≠ [])
    (h : ∀ p ∈ pieces, sep ∉ p) : splitOn sep ([sep].intercalate pieces) = pieces := by
  induction pieces with
  | nil => exact absurd rfl hne
  | cons p ps ih =>
    rw [List.forall_mem_cons] at h
    cases ps with
    | nil => simpa [List.intercalate] using splitOn_of_not_mem h.1
    | cons q qs =>
      rw [List.intercalate_cons_cons, List.append_assoc, List.singleton_append, splitOn_append,
        splitOn_of_not_mem h.1, ih (List.cons_ne_nil q qs) h.2]
      rfl

/-- What holds of the separator and of all pieces holds of what they make. -/
theorem forall_mem_intercalate {p : Char → Prop} {sep : Char} (hs : p sep)
    {pieces : List (List Char)} (h : ∀ q ∈ pieces, ∀ c ∈ q, p c) :
    ∀ c ∈ [sep].intercalate pieces, p c := by
  induction pieces with
  | nil => simp [List.intercalate]
  | cons q qs ih =>
    rw [List.forall_mem_cons] at h
    cases qs with
    | nil => simpa [List.intercalate] using h.1
    | cons r rs =>
      intro c hc
      rw [List.intercalate_cons_cons, List.append_assoc, List.mem_append, List.mem_append,
        List.mem_singleton] at hc
      rcases hc with hc | rfl | hc
      · exact h.1 c hc
      · exact hs
      · exact ih h.2 c hc

theorem cut?_cons (sep c : Char) (cs : List Char) : cut? sep (c :: cs) =
    if c = sep then some ([], cs) else (cut? sep cs).map fun p => (c :: p.1, p.2) := by
  by_cases hc : c = sep
  · simp [cut?, hc]
  · simp only [cut?, List.dropWhile_cons, List.takeWhile_cons, ne_eq, hc, not_false_eq_true,
      decide_true, if_true, if_false]
    split <;> rfl

/-- The pieces that a text is cut into stood before and behind its first separator. -/
theorem cut?_eq_some_iff {sep : Char} {cs front back : List Char} :
    cut? sep cs = some (front, back) ↔ cs = front ++ sep :: back ∧ sep ∉ front := by
  induction cs generalizing front with
  | nil => simp [cut?]
  | cons c cs ih =>
    rw [cut?_cons]
    cases front with
    | nil =>
      by_cases hc : c = sep <;> simp [hc]
    | cons f fs =>
      by_cases hc : c = sep
      · subst hc
        constructor
        · intro h
          simp at h
        · rintro ⟨heq, hnot⟩
          rw [List.cons_append, List.cons.injEq] at heq
          exact absurd (heq.1 ▸ List.mem_cons_self) hnot
      · simp only [hc, if_false, Option.map_eq_some_iff, Prod.exists, Prod.mk.injEq,
          List.cons.injEq, List.cons_append, List.mem_cons, not_or]
        constructor
        · rintro ⟨_, _, hcut, ⟨rfl, rfl⟩, rfl⟩
          obtain ⟨rfl, hnot⟩ := ih.1 hcut
          exact ⟨⟨rfl, rfl⟩, Ne.symm hc, hnot⟩
        · rintro ⟨⟨rfl, rfl⟩, -, hnot⟩
          exact ⟨fs, back, ih.2 ⟨rfl, hnot⟩, ⟨rfl, rfl⟩, rfl⟩

/-! ## Blanks -/

section
variable {cs left right : List Char}

theorem trim_append_right (h : ∀ c ∈ right, isBlank c) : trim (cs ++ right) = trim cs := by
  unfold trim
  rw [List.dropWhile_append]
  split
  · next hempty =>
    rw [List.isEmpty_iff.1 hempty, List.dropWhile_eq_nil_iff.2 h]
  · rw [List.reverse_append, List.dropWhile_append_of_pos]
    simpa using h

theorem trim_append_left (h : ∀ c ∈ left, isBlank c) : trim (left ++ cs) = trim cs := by
  rw [trim, List.dropWhile_append_of_pos h, trim]

/-- A text without blanks is not changed. -/
theorem trim_of_not_blank (h : ∀ c ∈ cs, ¬ isBlank c) : trim cs = cs := by
  have hkeep : ∀ {ds : List Char}, (∀ c ∈ ds, ¬ isBlank c) → ds.dropWhile isBlank = ds := by
    intro ds hds
    exact List.dropWhile_eq_self_iff.2 fun hl => hds _ (List.getElem_mem hl)
  rw [trim, hkeep h, hkeep (by simpa using h), List.reverse_reverse]

theorem trim_dropReturn (line : List Char) : trim (dropReturn line) = trim line := by
  unfold dropReturn
  split
  · next hlast =>
    obtain ⟨init, rfl⟩ := List.getLast?_eq_some_iff.1 hlast
    rw [List.dropLast_concat, trim_append_right (List.forall_mem_singleton.2 (by decide))]
  · rfl

end

end HybridAccess.Text
