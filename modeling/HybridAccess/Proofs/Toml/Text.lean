/-
  HybridAccess — texts of TOML documents that are written and read back.

  Each of the five forms is read back up to its closing quotes. With escapes,
  a character is read back from its escape (`readBasic_escape`). Between triple
  quotes, a quote of the text is told from the closing ones by the length of
  the run in which it stands: the runs of a text that is written so are
  shorter than three, unless they go on to its end (`closing?_append`).
  Main statement: `read?_write`.
-/
import HybridAccess.Proofs.Text.Digits
import HybridAccess.Toml.Text

namespace HybridAccess.Toml.Text

/-! ## Double quotes -/

section
variable (multi : Bool)

theorem readBasic_plain (c : Char) (cs : List Char) : readBasic multi .plain (c :: cs) =
    if c = '"' then
      if multi then (closing? '"' (c :: cs)).or (push c (readBasic multi .plain cs))
      else some ([], cs)
    else if c = '\\' then readBasic multi .escape cs
    else if isPlain c ∨ (multi ∧ c = '\n') then push c (readBasic multi .plain cs)
    else none := by
  rw [readBasic] <;> simp

/-- A backslash and a character that stands for another one. -/
theorem readBasic_escaped {c e : Char} (he : escaped? c = some e) (cs : List Char) :
    readBasic multi .plain ('\\' :: c :: cs) = push e (readBasic multi .plain cs) := by
  have hnot : c ≠ 'u' ∧ c ≠ 'U' ∧ c ≠ '\n' ∧ ¬ isBlank c := by
    refine ⟨?_, ?_, ?_, ?_⟩
    · rintro rfl; cases he
    · rintro rfl; cases he
    · rintro rfl; cases he
    · intro hc
      simp only [isBlank, Bool.or_eq_true, decide_eq_true_eq] at hc
      rcases hc with rfl | rfl <;> cases he
  obtain ⟨hu, hU, hfeed, hblank⟩ := hnot
  rw [readBasic_plain, if_neg (by decide), if_pos rfl, readBasic]
  simp [hu, hU, hfeed, hblank, he]

theorem hexUpper_four : ∀ n < 0x80, (Text.hexUpper 4 n).toList =
    ['0', '0', (Nat.digitChar (n / 16)).toUpper, (Nat.digitChar (n % 16)).toUpper] := by
  decide +kernel

theorem toNat_lt_of_isControl {c : Char} (h : isControl c) : c.toNat < 0x80 := by
  simp only [isControl, Bool.or_eq_true, decide_eq_true_eq] at h
  omega

/-- The number of a control character. -/
theorem readBasic_code {n : Nat} (hn : n < 0x80) (cs : List Char) :
    readBasic multi .plain ('\\' :: 'u' :: ((Text.hexUpper 4 n).toList ++ cs)) =
      push (Char.ofNat n) (readBasic multi .plain cs) := by
  have hvalue : ∀ d < 16, Bytes.hexValue? (Nat.digitChar d).toUpper = some d := by decide
  have hhigh := hvalue (n / 16) (by omega)
  have hlow := hvalue (n % 16) (by omega)
  have hvalid : n.isValidChar := .inl (by omega)
  have hsum : 16 * (n / 16) + n % 16 = n := by omega
  have hzero : Bytes.hexValue? '0' = some 0 := rfl
  rw [readBasic_plain, if_neg (by decide), if_pos rfl, hexUpper_four n hn,
    readBasic]
  simp [readBasic, hzero, hhigh, hlow, hsum, char?, hvalid]

/-- **A character is read back from its escape.** -/
theorem readBasic_escape {c : Char} (hc : c ≠ '"') (cs : List Char) :
    readBasic multi .plain (escape multi c ++ cs) = push c (readBasic multi .plain cs) := by
  unfold escape
  split
  · exact readBasic_escaped multi rfl cs
  · exact readBasic_escaped multi rfl cs
  · cases multi with
    | true => exact readBasic_plain true '\n' cs
    | false => exact readBasic_escaped false rfl cs
  · exact readBasic_escaped multi rfl cs
  · exact readBasic_escaped multi rfl cs
  · exact readBasic_escaped multi rfl cs
  · next hbackslash =>
    split
    · next hcontrol =>
      have hcode := readBasic_code multi (toNat_lt_of_isControl hcontrol) cs
      rwa [Char.ofNat_toNat] at hcode
    · next hcontrol =>
      rw [List.singleton_append, readBasic_plain, if_neg hc, if_neg hbackslash,
        if_pos (.inl (by simp [isPlain, hcontrol]))]

theorem escapeAll_cons_of_ne {c : Char} (hc : c ≠ '"') (quotes : Nat) (cs : List Char) :
    escapeAll multi quotes (c :: cs) = escape multi c ++ escapeAll multi 0 cs := by
  rw [escapeAll, if_neg hc]

theorem escapeAll_cons_quote {quotes : Nat} (h : ¬ (multi ∧ quotes < 2)) (cs : List Char) :
    escapeAll multi quotes ('"' :: cs) = '\\' :: '"' :: escapeAll multi 0 cs := by
  rw [escapeAll, if_pos rfl, if_neg h]

end

/-- A text between double quotes is read back. -/
theorem readBasic_escapeAll (quotes : Nat) (cs rest : List Char) :
    readBasic false .plain (escapeAll false quotes cs ++ '"' :: rest) = some (cs, rest) := by
  induction cs generalizing quotes with
  | nil =>
    rw [escapeAll, List.nil_append, readBasic_plain, if_pos rfl]
    rfl
  | cons c cs ih =>
    by_cases hc : c = '"'
    · subst hc
      rw [escapeAll_cons_quote false (by simp), List.cons_append, List.cons_append,
        readBasic_escaped false rfl, ih]
      rfl
    · rw [escapeAll_cons_of_ne false hc, List.append_assoc, readBasic_escape false hc, ih]
      rfl

/-! ## Runs of quotes -/

/-- How many quotes stand at the front. -/
def quotesAhead (quote : Char) (cs : List Char) : Nat := (cs.takeWhile (· = quote)).length

section
variable {quote c : Char}

theorem quotesAhead_cons_self (cs : List Char) :
    quotesAhead quote (quote :: cs) = quotesAhead quote cs + 1 := by
  simp [quotesAhead]

theorem quotesAhead_of_ne (h : c ≠ quote) (cs : List Char) : quotesAhead quote (c :: cs) = 0 := by
  simp [quotesAhead, h]

theorem quotesAhead_replicate (n : Nat) {rest : List Char} (h : quotesAhead quote rest = 0) :
    quotesAhead quote (List.replicate n quote ++ rest) = n := by
  induction n with
  | zero => exact h
  | succ n ih => rw [List.replicate_succ, List.cons_append, quotesAhead_cons_self, ih]

theorem closing?_of_lt {cs : List Char} (h : quotesAhead quote cs < 3) :
    closing? quote cs = none := if_pos h

/-- Up to two quotes in front of the closing ones belong to the text. -/
theorem closing?_of_forall {body rest : List Char} (hall : ∀ c ∈ body, c = quote)
    (hle : quotesAhead quote body ≤ 2) (hrest : quotesAhead quote rest = 0) :
    closing? quote (body ++ (List.replicate 3 quote ++ rest)) = some (body, rest) := by
  obtain ⟨n, rfl⟩ : ∃ n, body = List.replicate n quote :=
    ⟨_, List.eq_replicate_iff.2 ⟨rfl, hall⟩⟩
  have hn := @quotesAhead_replicate quote n [] rfl
  rw [List.append_nil] at hn
  rw [hn] at hle
  have hrun : quotesAhead quote (List.replicate (n + 3) quote ++ rest) = n + 3 :=
    quotesAhead_replicate _ hrest
  have hkept : Nat.min (n + 3 - 3) 2 = n := Nat.min_eq_left hle
  have hread : Nat.min (n + 3) 5 = n + 3 := Nat.min_eq_left (by omega)
  rw [← List.append_assoc, List.replicate_append_replicate, closing?, ← quotesAhead, hrun]
  simp only [hkept, hread]
  rw [if_neg (by omega), List.drop_append_of_le_length (by simp)]
  simp

/-- The closing quotes alone. -/
theorem closing?_three {rest : List Char} (hrest : quotesAhead quote rest = 0) :
    closing? quote (List.replicate 3 quote ++ rest) = some ([], rest) :=
  closing?_of_forall (List.forall_mem_nil _) (Nat.zero_le 2) hrest

/-- Either a text consists of quotes, or its first run of quotes ends in it. -/
theorem forall_eq_or_quotesAhead_append (cs : List Char) : (∀ c ∈ cs, c = quote) ∨
    ∀ tail, quotesAhead quote (cs ++ tail) = quotesAhead quote cs := by
  induction cs with
  | nil => exact .inl (by simp)
  | cons c cs ih =>
    by_cases hc : c = quote
    · subst hc
      rcases ih with ih | ih
      · exact .inl (List.forall_mem_cons.2 ⟨rfl, ih⟩)
      · exact .inr fun tail => by
          rw [List.cons_append, quotesAhead_cons_self, quotesAhead_cons_self, ih]
    · exact .inr fun tail => by
        rw [List.cons_append, quotesAhead_of_ne hc, quotesAhead_of_ne hc]

/-- At a quote of the text, either all the rest of the text are quotes and the text ends, or the
quote is read as a character. -/
theorem closing?_or {body rest : List Char} (hle : quotesAhead quote body ≤ 2)
    (hrest : quotesAhead quote rest = 0) :
    ((∀ c ∈ body, c = quote) ∧
      closing? quote (body ++ (List.replicate 3 quote ++ rest)) = some (body, rest)) ∨
    closing? quote (body ++ (List.replicate 3 quote ++ rest)) = none := by
  rcases @forall_eq_or_quotesAhead_append quote body with hall | hrun
  · exact .inl ⟨hall, closing?_of_forall hall hle hrest⟩
  · exact .inr (closing?_of_lt (by rw [hrun]; omega))

end

/-! ## Triple double quotes -/

theorem exists_escape (multi : Bool) {c : Char} (hc : c ≠ '"') :
    ∃ x xs, escape multi c = x :: xs ∧ x ≠ '"' := by
  unfold escape
  split
  · exact ⟨_, _, rfl, by decide⟩
  · exact ⟨_, _, rfl, by decide⟩
  · cases multi <;> exact ⟨_, _, rfl, by decide⟩
  · exact ⟨_, _, rfl, by decide⟩
  · exact ⟨_, _, rfl, by decide⟩
  · exact ⟨_, _, rfl, by decide⟩
  · split
    · exact ⟨_, _, rfl, by decide⟩
    · exact ⟨_, _, rfl, hc⟩

/-- With the quotes before it, the first run of quotes is shorter than three. -/
theorem quotesAhead_escapeAll_le {quotes : Nat} (hq : quotes ≤ 2) (cs : List Char) :
    quotes + quotesAhead '"' (escapeAll true quotes cs) ≤ 2 := by
  induction cs generalizing quotes with
  | nil => simpa [escapeAll, quotesAhead] using hq
  | cons c cs ih =>
    by_cases hc : c = '"'
    · subst hc
      by_cases hlt : quotes < 2
      · rw [escapeAll, if_pos rfl, if_pos ⟨rfl, hlt⟩, quotesAhead_cons_self]
        have := @ih (quotes + 1) hlt
        omega
      · rw [escapeAll_cons_quote true (fun h => hlt h.2), quotesAhead_of_ne (by decide)]
        exact hq
    · obtain ⟨x, xs, hescape, hx⟩ := exists_escape true hc
      rw [escapeAll_cons_of_ne true hc, hescape, List.cons_append, quotesAhead_of_ne hx]
      exact hq

/-- What is written as quotes alone is written as it is. -/
theorem escapeAll_of_forall {quotes : Nat} {cs : List Char}
    (h : ∀ x ∈ escapeAll true quotes cs, x = '"') : escapeAll true quotes cs = cs := by
  induction cs generalizing quotes with
  | nil => rfl
  | cons c cs ih =>
    by_cases hc : c = '"'
    · subst hc
      by_cases hlt : quotes < 2
      · rw [escapeAll, if_pos rfl, if_pos ⟨rfl, hlt⟩] at h ⊢
        rw [ih (List.forall_mem_cons.1 h).2]
      · rw [escapeAll_cons_quote true (fun h => hlt h.2)] at h
        exact absurd (List.forall_mem_cons.1 h).1 (by decide)
    · obtain ⟨x, xs, hescape, hx⟩ := exists_escape true hc
      rw [escapeAll_cons_of_ne true hc, hescape, List.cons_append] at h
      exact absurd (List.forall_mem_cons.1 h).1 hx

/-- **A text between triple double quotes is read back.** -/
theorem readBasic_triple {quotes : Nat} (hq : quotes ≤ 2) (cs : List Char) {rest : List Char}
    (hrest : quotesAhead '"' rest = 0) :
    readBasic true .plain (escapeAll true quotes cs ++ (List.replicate 3 '"' ++ rest)) =
      some (cs, rest) := by
  induction cs generalizing quotes with
  | nil =>
    have hclosing := closing?_three hrest
    rw [escapeAll, List.nil_append, List.replicate_succ, List.cons_append] at *
    rw [readBasic_plain, if_pos rfl, if_pos rfl, hclosing]
    rfl
  | cons c cs ih =>
    by_cases hc : c = '"'
    · subst hc
      by_cases hlt : quotes < 2
      · have hle := quotesAhead_escapeAll_le hq ('"' :: cs)
        have hclosing := closing?_or (Nat.le_trans (Nat.le_add_left _ _) hle) hrest
        have hsame := @escapeAll_of_forall quotes ('"' :: cs)
        rw [escapeAll, if_pos rfl, if_pos ⟨rfl, hlt⟩] at hclosing hsame ⊢
        rw [List.cons_append] at hclosing ⊢
        rw [readBasic_plain, if_pos rfl, if_pos rfl, ih hlt]
        rcases hclosing with ⟨hall, hclosing⟩ | hclosing
        · rw [hclosing, hsame hall]
          rfl
        · rw [hclosing]
          rfl
      · rw [escapeAll_cons_quote true (fun h => hlt h.2), List.cons_append, List.cons_append,
          readBasic_escaped true rfl, ih (Nat.zero_le 2)]
        rfl
    · rw [escapeAll_cons_of_ne true hc, List.append_assoc, readBasic_escape true hc,
        ih (Nat.zero_le 2)]
      rfl

/-! ## Single quotes -/

/-- A text without single quotes is read back from between two of them. -/
theorem readLiteral_append {cs : List Char} (hplain : ∀ c ∈ cs, isPlain c) (hquote : '\'' ∉ cs)
    (rest : List Char) : readLiteral false (cs ++ '\'' :: rest) = some (cs, rest) := by
  induction cs with
  | nil => rfl
  | cons c cs ih =>
    rw [List.forall_mem_cons] at hplain
    rw [List.mem_cons, not_or] at hquote
    rw [List.cons_append, readLiteral, if_neg (Ne.symm hquote.1), if_pos (.inl hplain.1),
      ih hplain.2 hquote.2]
    rfl

/-- Count a character: the run that it may continue, and the longest run so far. -/
def countRun (quote : Char) (p : Nat × Nat) (c : Char) : Nat × Nat :=
  if c = quote then (p.1 + 1, Nat.max p.2 (p.1 + 1)) else (0, p.2)

section
variable {quote : Char}

theorem longestRun_eq (cs : List Char) :
    longestRun quote cs = (cs.foldl (countRun quote) (0, 0)).2 := rfl

theorem snd_le_foldl_countRun (cs : List Char) (p : Nat × Nat) :
    p.2 ≤ (cs.foldl (countRun quote) p).2 := by
  induction cs generalizing p with
  | nil => exact Nat.le_refl _
  | cons c cs ih =>
    refine Nat.le_trans ?_ (ih _)
    unfold countRun
    split
    · exact Nat.le_max_left _ _
    · exact Nat.le_refl _

theorem foldl_countRun_mono (cs : List Char) {p q : Nat × Nat} (h₁ : p.1 ≤ q.1)
    (h₂ : p.2 ≤ q.2) :
    (cs.foldl (countRun quote) p).2 ≤ (cs.foldl (countRun quote) q).2 := by
  induction cs generalizing p q with
  | nil => exact h₂
  | cons c cs ih =>
    rw [List.foldl_cons, List.foldl_cons]
    unfold countRun
    split
    · exact ih (Nat.succ_le_succ h₁) (Nat.max_le.2 ⟨Nat.le_trans h₂ (Nat.le_max_left _ _),
        Nat.le_trans (Nat.succ_le_succ h₁) (Nat.le_max_right _ _)⟩)
    · exact ih (Nat.le_refl 0) h₂

theorem quotesAhead_le_foldl_countRun (cs : List Char) {p : Nat × Nat} (h : p.1 ≤ p.2) :
    p.1 + quotesAhead quote cs ≤ (cs.foldl (countRun quote) p).2 := by
  induction cs generalizing p with
  | nil => exact h
  | cons c cs ih =>
    by_cases hc : c = quote
    · subst hc
      have hnext := @ih (p.1 + 1, Nat.max p.2 (p.1 + 1)) (Nat.le_max_right _ _)
      rw [quotesAhead_cons_self, List.foldl_cons, countRun, if_pos rfl]
      simp only at hnext ⊢
      omega
    · rw [quotesAhead_of_ne hc]
      exact Nat.le_trans h (snd_le_foldl_countRun (c :: cs) p)

/-- No run is longer than the longest one. -/
theorem quotesAhead_le_longestRun (cs : List Char) :
    quotesAhead quote cs ≤ longestRun quote cs := by
  have hle := @quotesAhead_le_foldl_countRun quote cs (0, 0) (Nat.le_refl 0)
  rwa [Nat.zero_add, ← longestRun_eq] at hle

theorem longestRun_le_cons (c : Char) (cs : List Char) :
    longestRun quote cs ≤ longestRun quote (c :: cs) := by
  rw [longestRun_eq, longestRun_eq, List.foldl_cons]
  exact foldl_countRun_mono cs (Nat.zero_le _) (Nat.zero_le _)

theorem not_mem_of_longestRun {cs : List Char} (h : longestRun quote cs = 0) : quote ∉ cs := by
  induction cs with
  | nil => simp
  | cons c cs ih =>
    have hle := @quotesAhead_le_longestRun quote (c :: cs)
    have htail := @longestRun_le_cons quote c cs
    rw [List.mem_cons, not_or]
    refine ⟨?_, ih (by omega)⟩
    rintro rfl
    rw [quotesAhead_cons_self] at hle
    omega

end

/-- **A text between triple single quotes is read back.** -/
theorem readLiteral_triple {cs : List Char} (hplain : ∀ c ∈ cs, isPlain c ∨ c = '\n')
    (hrun : longestRun '\'' cs ≤ 2) {rest : List Char} (hrest : quotesAhead '\'' rest = 0) :
    readLiteral true (cs ++ (List.replicate 3 '\'' ++ rest)) = some (cs, rest) := by
  induction cs with
  | nil =>
    have hclosing := closing?_three hrest
    rw [List.nil_append, List.replicate_succ, List.cons_append] at *
    rw [readLiteral, if_pos rfl, if_pos rfl, hclosing]
    rfl
  | cons c cs ih =>
    rw [List.forall_mem_cons] at hplain
    have htail := ih hplain.2 (Nat.le_trans (longestRun_le_cons c cs) hrun)
    by_cases hc : c = '\''
    · subst hc
      have hclosing := closing?_or (Nat.le_trans (quotesAhead_le_longestRun _) hrun) hrest
      rw [List.cons_append] at hclosing ⊢
      rw [readLiteral, if_pos rfl, if_pos rfl, htail]
      rcases hclosing with ⟨-, hclosing⟩ | hclosing <;> rw [hclosing] <;> rfl
    · rw [List.cons_append, readLiteral, if_neg hc, if_pos (hplain.1.imp_right fun h => ⟨rfl, h⟩),
        htail]
      rfl

/-! ## Written texts -/

/-- A text that does not begin with three quotes ends on its line. -/
theorem read?_of_ne {quote : Char} {cs : List Char} (h : ∀ rest, cs ≠ quote :: quote :: rest) :
    read? (quote :: cs) = readLine? (quote :: cs) := by
  unfold read?
  split
  · next heq =>
    obtain ⟨rfl, rfl⟩ := List.cons.inj heq
    exact absurd rfl (h _)
  · next heq =>
    obtain ⟨rfl, rfl⟩ := List.cons.inj heq
    exact absurd rfl (h _)
  · rfl

theorem dropLineFeed_of_not_mem {cs : List Char} (h : '\n' ∉ cs) (x : Char) (hx : x ≠ '\n')
    (rest : List Char) : dropLineFeed (cs ++ x :: rest) = cs ++ x :: rest := by
  unfold dropLineFeed
  split
  · next heq =>
    cases cs with
    | nil => exact absurd (List.cons.inj heq).1 hx
    | cons c cs => exact absurd ((List.cons.inj heq).1 ▸ List.mem_cons_self) h
  · rfl

theorem read?_basic (cs rest : List Char) :
    read? (basic cs ++ '\n' :: rest) = some (cs, '\n' :: rest) := by
  have hne : ∀ more, escapeAll false 0 cs ++ '"' :: '\n' :: rest ≠ '"' :: '"' :: more := by
    intro more heq
    cases cs with
    | nil => simp [escapeAll] at heq
    | cons c cs =>
      by_cases hc : c = '"'
      · subst hc
        rw [escapeAll_cons_quote false (by simp)] at heq
        simp at heq
      · obtain ⟨x, xs, hescape, hx⟩ := exists_escape false hc
        rw [escapeAll_cons_of_ne false hc, hescape] at heq
        exact hx (List.cons.inj heq).1
  have hread := readBasic_escapeAll 0 cs ('\n' :: rest)
  rw [basic, List.append_assoc, List.cons_append, List.singleton_append, read?_of_ne hne, readLine?,
    hread]

theorem read?_literal {cs : List Char} (hplain : ∀ c ∈ cs, isPlain c) (hquote : '\'' ∉ cs)
    (rest : List Char) : read? (literal cs ++ '\n' :: rest) = some (cs, '\n' :: rest) := by
  have hne : ∀ more, cs ++ '\'' :: '\n' :: rest ≠ '\'' :: '\'' :: more := by
    intro more heq
    cases cs with
    | nil => simp at heq
    | cons c cs => exact hquote ((List.cons.inj heq).1 ▸ List.mem_cons_self)
  rw [literal, List.append_assoc, List.cons_append, List.singleton_append, read?_of_ne hne,
    readLine?, readLiteral_append hplain hquote]

/-- Behind opening triple quotes the text begins, on that line or on the next one. -/
theorem exists_triple_append {quote : Char} (hq : quote ≠ '\n') {cs body : List Char}
    (hbody : '\n' ∈ body → '\n' ∈ cs) (rest : List Char) :
    ∃ more, triple quote cs body ++ rest = quote :: quote :: quote :: more ∧
      dropLineFeed more = body ++ (List.replicate 3 quote ++ rest) := by
  refine ⟨(if '\n' ∈ cs then ['\n'] else []) ++ (body ++ (List.replicate 3 quote ++ rest)), ?_, ?_⟩
  · simp [triple, List.replicate]
  · by_cases h : '\n' ∈ cs
    · rw [if_pos h]
      rfl
    · rw [if_neg h]
      exact dropLineFeed_of_not_mem (mt hbody h) quote hq _

/-- The only control character in an escape is a line feed that stands for itself. -/
theorem eq_of_mem_escape {multi : Bool} {c x : Char} (hx : x ∈ escape multi c)
    (hcontrol : isControl x) : x = '\n' ∧ c = '\n' := by
  have hpair : ∀ {y : Char}, ¬ isControl y → x ∉ ['\\', y] := by
    intro y hy hmem
    simp only [List.mem_cons, List.not_mem_nil, or_false] at hmem
    rcases hmem with rfl | rfl
    · exact absurd hcontrol (by decide)
    · exact hy hcontrol
  unfold escape at hx
  split at hx
  · exact absurd hx (hpair (by decide))
  · exact absurd hx (hpair (by decide))
  · split at hx
    · exact ⟨List.mem_singleton.1 hx, rfl⟩
    · exact absurd hx (hpair (by decide))
  · exact absurd hx (hpair (by decide))
  · exact absurd hx (hpair (by decide))
  · exact absurd hx (hpair (by decide))
  · split at hx
    · next hc =>
      have hdigit : ∀ d < 16, ¬ isControl (Nat.digitChar d).toUpper := by decide
      have hlt := toNat_lt_of_isControl hc
      rw [hexUpper_four _ hlt] at hx
      simp only [List.mem_cons, List.not_mem_nil, or_false] at hx
      rcases hx with rfl | rfl | rfl | rfl | rfl | rfl
      · exact absurd hcontrol (by decide)
      · exact absurd hcontrol (by decide)
      · exact absurd hcontrol (by decide)
      · exact absurd hcontrol (by decide)
      · exact absurd hcontrol (hdigit _ (by omega))
      · exact absurd hcontrol (hdigit _ (by omega))
    · next hc => exact absurd (List.mem_singleton.1 hx ▸ hcontrol) hc

theorem mem_of_mem_escapeAll {multi : Bool} {quotes : Nat} {cs : List Char} {x : Char}
    (hx : x ∈ escapeAll multi quotes cs) (hcontrol : isControl x) : x = '\n' ∧ x ∈ cs := by
  induction cs generalizing quotes with
  | nil => simp [escapeAll] at hx
  | cons c cs ih =>
    have hquote : x ≠ '"' := by
      rintro rfl
      exact absurd hcontrol (by decide)
    have hbackslash : x ≠ '\\' := by
      rintro rfl
      exact absurd hcontrol (by decide)
    have htail : ∀ {q}, x ∈ escapeAll multi q cs → x = '\n' ∧ x ∈ c :: cs := fun h =>
      ⟨(ih h).1, List.mem_cons_of_mem c (ih h).2⟩
    rw [escapeAll] at hx
    split at hx
    · split at hx <;> simp only [List.mem_cons, hquote, hbackslash, false_or] at hx <;>
        exact htail hx
    · rcases List.mem_append.1 hx with hx | hx
      · obtain ⟨rfl, rfl⟩ := eq_of_mem_escape hx hcontrol
        exact ⟨rfl, List.mem_cons_self⟩
      · exact htail hx

/-- What needs no escape may stand on several lines. -/
theorem isPlain_of_not_needsEscape {cs : List Char} (h : needsEscape cs = false) :
    ∀ c ∈ cs, isPlain c ∨ c = '\n' := by
  intro c hc
  have hall := List.any_eq_false.1 h c hc
  by_cases hcontrol : isControl c
  · by_cases htab : c = '\t'
    · exact .inl (by simp [isPlain, htab])
    · exact .inr (by simpa [hcontrol, htab] using hall)
  · exact .inl (by simp [isPlain, hcontrol])

theorem read?_triple_double (cs rest : List Char) :
    read? (triple '"' cs (escapeAll true 0 cs) ++ '\n' :: rest) = some (cs, '\n' :: rest) := by
  have hfeed : '\n' ∈ escapeAll true 0 cs → '\n' ∈ cs := fun h =>
    (mem_of_mem_escapeAll h (by decide)).2
  obtain ⟨more, htriple, hdrop⟩ :=
    @exists_triple_append '"' (by decide) _ _ hfeed ('\n' :: rest)
  rw [htriple, read?, hdrop]
  exact readBasic_triple (Nat.zero_le 2) cs rfl

theorem read?_triple_single {cs : List Char} (hplain : ∀ c ∈ cs, isPlain c ∨ c = '\n')
    (hrun : longestRun '\'' cs ≤ 2) (rest : List Char) :
    read? (triple '\'' cs cs ++ '\n' :: rest) = some (cs, '\n' :: rest) := by
  obtain ⟨more, htriple, hdrop⟩ :=
    @exists_triple_append '\'' (by decide) cs cs id ('\n' :: rest)
  rw [htriple, read?, hdrop]
  exact readLiteral_triple hplain hrun rfl

/-- **A text is read back at the end of its line**, whichever form it is written in. -/
theorem read?_write (cs rest : List Char) :
    read? (write cs ++ '\n' :: rest) = some (cs, '\n' :: rest) := by
  unfold write
  simp only
  split
  · exact read?_basic cs rest
  split
  · next h =>
    have hplain := isPlain_of_not_needsEscape (by simpa using h.1)
    have hfeed : '\n' ∉ cs := by simpa using h.2.2
    refine read?_literal (fun c hc => ?_) (not_mem_of_longestRun h.2.1) rest
    exact (hplain c hc).resolve_right fun heq => hfeed (heq ▸ hc)
  split
  · exact read?_triple_double cs rest
  split
  · next h =>
    exact read?_triple_single (isPlain_of_not_needsEscape (by simpa using h.1)) h.2 rest
  split
  · exact read?_triple_double cs rest
  · exact read?_basic cs rest

theorem return_not_mem_of_not_needsEscape {cs : List Char} (h : needsEscape cs = false) :
    '\r' ∉ cs := by
  intro hmem
  rcases isPlain_of_not_needsEscape h _ hmem with h | h
  · exact absurd h (by decide)
  · exact absurd h (by decide)

theorem return_not_mem_escapeAll (multi : Bool) (quotes : Nat) (cs : List Char) :
    '\r' ∉ escapeAll multi quotes cs := fun h =>
  absurd (mem_of_mem_escapeAll h (by decide)).1 (by decide)

/-- No carriage return is written. -/
theorem return_not_mem_write (cs : List Char) : '\r' ∉ write cs := by
  have hbasic : '\r' ∉ basic cs := by
    simp [basic, return_not_mem_escapeAll]
  have htriple : ∀ {quote : Char} {body : List Char}, quote ≠ '\r' → '\r' ∉ body →
      '\r' ∉ triple quote cs body := by
    intro quote body hquote hbody
    unfold triple
    split <;> simp [hbody, Ne.symm hquote]
  unfold write
  simp only
  split
  · exact hbasic
  split
  · next h => simp [literal, return_not_mem_of_not_needsEscape (by simpa using h.1)]
  split
  · exact htriple (by decide) (return_not_mem_escapeAll _ _ _)
  split
  · next h => exact htriple (by decide) (return_not_mem_of_not_needsEscape (by simpa using h.1))
  split
  · exact htriple (by decide) (return_not_mem_escapeAll _ _ _)
  · exact hbasic

/-- A text begins with a quote. -/
theorem exists_write (cs : List Char) : ∃ q body, write cs = q :: body ∧ (q = '"' ∨ q = '\'') := by
  unfold write
  simp only
  split_ifs <;> exact ⟨_, _, rfl, by decide⟩

end HybridAccess.Toml.Text
