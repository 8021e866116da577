/-
  HybridAccess — TOML documents that are read back.

  A document is read line by line. A line that gives a value to a name is read
  whatever stands behind it (`line?_pairLine`), and so is one that opens a
  table (`line?_table`); a text that is made of such lines says what they say
  (`readAll?_of_reads`). What they say makes a table whose last entries are
  tables, provided no name is given twice (`ofStatements?_eq`).
  Main statement: `read?_of_reads`.
-/
import HybridAccess.Config.Document
import HybridAccess.Proofs.Toml.Text

namespace HybridAccess.Toml

/-! ## Values -/

/-- A value is read back from the form at the end of its line. -/
structure IsForm (form : List Char) (v : Value) : Prop where
  read : ∀ limit rest, Statement.value? limit (Statement.nestingLimit - 1) (form ++ '\n' :: rest) =
    some (v, '\n' :: rest)
  /-- The form does not begin with a blank. -/
  skip : ∀ rest, Statement.skipBlanks (form ++ rest) = form ++ rest
  noReturn : '\r' ∉ form

namespace Statement

theorem skipBlanks_cons {c : Char} (h : ¬ Text.isBlank c) (cs : List Char) :
    skipBlanks (c :: cs) = c :: cs := by
  rw [skipBlanks, List.dropWhile_cons, if_neg h]

/-- A value that is neither a list nor an inline table. -/
theorem value?_of_ne {c : Char} (hlist : c ≠ '[') (htable : c ≠ '\x7b') (limit depth : Nat)
    (cs : List Char) : value? limit depth (c :: cs) = single? (c :: cs) := by
  unfold value?
  split
  · next heq => exact absurd (List.cons.inj heq).1 hlist
  · next heq => exact absurd (List.cons.inj heq).1 htable
  · rfl

end Statement

theorem isForm_ofText (s : String) : IsForm (ofText s) (.text s) := by
  obtain ⟨q, body, hwrite, hq⟩ := Text.exists_write s.toList
  have hform : ofText s = q :: body := hwrite
  refine ⟨fun limit rest => ?_, fun rest => ?_, Text.return_not_mem_write _⟩
  · have hread := Text.read?_write s.toList rest
    rw [hwrite] at hread
    rw [hform, List.cons_append, Statement.value?_of_ne, Statement.single?, ← List.cons_append,
      hread]
    · simp
    · rcases hq with rfl | rfl <;> decide
    · rcases hq with rfl | rfl <;> decide
  · rw [hform, List.cons_append, Statement.skipBlanks_cons]
    rcases hq with rfl | rfl <;> decide

theorem Text.readLine?_of_not_quote {c : Char} (hdouble : c ≠ '"') (hsingle : c ≠ '\'')
    (cs : List Char) : Text.readLine? (c :: cs) = none := by
  unfold Text.readLine?
  split
  · next heq => exact absurd (List.cons.inj heq).1 hdouble
  · next heq => exact absurd (List.cons.inj heq).1 hsingle
  · rfl

theorem Text.read?_of_not_quote {c : Char} (hdouble : c ≠ '"') (hsingle : c ≠ '\'')
    (cs : List Char) : Text.read? (c :: cs) = none := by
  unfold Text.read?
  split
  · next heq => exact absurd (List.cons.inj heq).1 hdouble
  · next heq => exact absurd (List.cons.inj heq).1 hsingle
  · exact Text.readLine?_of_not_quote hdouble hsingle cs

namespace Scalar

/-- A value without quotes and minus signs ends at the end of its line. -/
theorem read?_append {token : List Char} {v : Value} (htoken : ∀ c ∈ token, isTokenChar c)
    (hminus : '-' ∉ token) (h : ofToken? token = some v) (rest : List Char) :
    read? (token ++ '\n' :: rest) = some (v, '\n' :: rest) := by
  have hdate : isDate token = false := by
    rw [isDate, HybridAccess.Text.splitOn_of_not_mem hminus]
  have htake : (token ++ '\n' :: rest).takeWhile isTokenChar = token := by
    rw [List.takeWhile_append_of_pos htoken]
    simp [isTokenChar]
  have hdrop : (token ++ '\n' :: rest).dropWhile isTokenChar = '\n' :: rest := by
    rw [List.dropWhile_append_of_pos htoken]
    rfl
  rw [read?, htake, hdrop, h, hdate]
  rfl

end Scalar

/-- The form of a value without quotes. -/
theorem isForm_of_token {token : List Char} {v : Value} (hne : token ≠ [])
    (hall : token.all Scalar.isTokenChar) (hminus : '-' ∉ token)
    (h : Scalar.ofToken? token = some v) : IsForm token v := by
  have htoken : ∀ c ∈ token, Scalar.isTokenChar c := List.all_eq_true.1 hall
  obtain ⟨c, cs, rfl⟩ := List.exists_cons_of_ne_nil hne
  have hne : ∀ {d : Char}, ¬ Scalar.isTokenChar d → c ≠ d := by
    rintro d hd rfl
    exact hd (htoken _ List.mem_cons_self)
  have htext : ∀ rest, Text.read? (c :: rest) = none :=
    Text.read?_of_not_quote (hne (by decide)) (hne (by decide))
  refine ⟨fun limit rest => ?_, fun rest => ?_, ?_⟩
  · have hread := Scalar.read?_append htoken hminus h rest
    rw [List.cons_append] at hread ⊢
    rw [Statement.value?_of_ne (hne (by decide)) (hne (by decide)), Statement.single?, htext]
    exact hread
  · have hblank : ¬ Text.isBlank c := by
      simp [Text.isBlank, hne (d := ' ') (by decide), hne (d := '\t') (by decide)]
    exact Statement.skipBlanks_cons hblank _
  · exact fun hmem => absurd (htoken _ hmem) (by decide)

theorem isForm_ofBool (b : Bool) : IsForm (ofBool b) (.boolean b) := by
  cases b
  · exact isForm_of_token (List.cons_ne_nil _ _) rfl (by decide) rfl
  · exact isForm_of_token (List.cons_ne_nil _ _) rfl (by decide) rfl

/-- The decimal digits of a number are an integer. -/
theorem Scalar.integer?_decimal {n : Nat} (h : n < UInt64.size / 2) :
    integer? (Text.decimal n) = some (n : Int) := by
  have hnot : ∀ {c : Char}, (∀ d < 10, Nat.digitChar d ≠ c) → ∀ {front back : List Char},
      Text.decimal n ≠ front ++ c :: back := by
    intro c hc front back heq
    exact Text.not_mem_decimal hc n (heq ▸ List.mem_append_right _ List.mem_cons_self)
  have hsign : sign (Text.decimal n) = (false, Text.decimal n) := by
    unfold sign
    split
    · next cs heq => exact absurd heq (@hnot _ (by decide) [] _)
    · next cs heq => exact absurd heq (@hnot _ (by decide) [] _)
    · rfl
  have hdigits : digits? (Text.decimal n) = some (Text.decimal n) := by
    have hne : (Text.decimal n).isEmpty = false := by
      simpa using Text.decimal_ne_nil n
    rw [digits?, HybridAccess.Text.splitOn_of_not_mem (Text.not_mem_decimal (by decide) n)]
    simp [hne]
  have hdecimal : decimal? (Text.decimal n) = some n := by
    rw [decimal?, if_pos (Text.length_decimal_eq_one_or n), unsigned?, hdigits, Option.bind_some,
      Text.natural?_decimal]
  have hlimit : n ≤ magnitudeLimit false := by
    simp only [magnitudeLimit, Bool.false_eq_true, if_false]
    omega
  unfold integer?
  split
  · next cs heq => exact absurd heq (@hnot _ (by decide) ['0'] _)
  · next cs heq => exact absurd heq (@hnot _ (by decide) ['0'] _)
  · next cs heq => exact absurd heq (@hnot _ (by decide) ['0'] _)
  · rw [hsign]
    simp only [hdecimal, integer?.bounded]
    rw [Option.filter_some, if_pos (decide_eq_true hlimit)]
    rfl

theorem isForm_ofNat {n : Nat} (h : n < UInt64.size / 2) : IsForm (ofNat n) (.integer n) := by
  have hword : ∀ {word : List Char} {c : Char}, c ∈ word → (∀ d < 10, Nat.digitChar d ≠ c) →
      Text.decimal n ≠ word := by
    rintro word c hmem hc rfl
    exact Text.not_mem_decimal hc n hmem
  have hall : (Text.decimal n).all Scalar.isTokenChar :=
    List.all_eq_true.2 (Text.forall_mem_toDigits (by decide) (by decide) n)
  refine isForm_of_token (Text.decimal_ne_nil n) hall (Text.not_mem_decimal (by decide) n) ?_
  rw [ofNat, Scalar.ofToken?, if_neg (hword (c := 't') (by decide) (by decide)),
    if_neg (hword (c := 'f') (by decide) (by decide)), Scalar.integer?_decimal h]

/-! ## Lines -/

namespace Statement

/-- A name that is written without quotes. -/
def IsName (name : String) : Prop := name ≠ "" ∧ name.toList.all isNameChar

instance (name : String) : Decidable (IsName name) :=
  inferInstanceAs (Decidable (name ≠ "" ∧ name.toList.all isNameChar))

theorem IsName.forall_mem {name : String} (h : IsName name) : ∀ c ∈ name.toList, isNameChar c :=
  List.all_eq_true.1 h.2

theorem IsName.exists_cons {name : String} (h : IsName name) :
    ∃ c cs, name.toList = c :: cs ∧ isNameChar c := by
  obtain ⟨c, cs, hname⟩ := List.exists_cons_of_ne_nil (mt String.toList_eq_nil_iff.1 h.1)
  exact ⟨c, cs, hname, h.forall_mem c (hname ▸ List.mem_cons_self)⟩

theorem ne_of_isNameChar {c d : Char} (h : isNameChar c) (hd : ¬ isNameChar d) : c ≠ d := by
  rintro rfl
  exact hd h

theorem not_isBlank_of_isNameChar {c : Char} (h : isNameChar c) : ¬ Text.isBlank c := by
  simp [Text.isBlank, ne_of_isNameChar h (d := ' ') (by decide),
    ne_of_isNameChar h (d := '\t') (by decide)]

/-- A path of one name, in front of a character that may not stand in a name. -/
theorem path?_append {name : String} (h : IsName name) {c : Char} (hc : ¬ isNameChar c)
    {rest : List Char} (hpoint : ∀ cs, skipBlanks (c :: rest) ≠ '.' :: cs) :
    path? (name.toList ++ c :: rest) = some ([name], skipBlanks (c :: rest)) := by
  obtain ⟨d, ds, hname, hd⟩ := h.exists_cons
  have hskip : skipBlanks (name.toList ++ c :: rest) = name.toList ++ c :: rest := by
    rw [hname, List.cons_append, skipBlanks_cons (not_isBlank_of_isNameChar hd)]
  have hline : Text.readLine? (name.toList ++ c :: rest) = none := by
    rw [hname, List.cons_append]
    exact Text.readLine?_of_not_quote (ne_of_isNameChar hd (by decide))
      (ne_of_isNameChar hd (by decide)) _
  have htake : (name.toList ++ c :: rest).takeWhile isNameChar = name.toList := by
    rw [List.takeWhile_append_of_pos h.forall_mem]
    simp [hc]
  have hdrop : (name.toList ++ c :: rest).dropWhile isNameChar = c :: rest := by
    rw [List.dropWhile_append_of_pos h.forall_mem, List.dropWhile_cons, if_neg hc]
  have hread : name? (name.toList ++ c :: rest) = some (name, c :: rest) := by
    rw [name?, hline]
    simp only [htake, hdrop]
    rw [if_neg (by simp [h.1])]
    simp
  rw [path?, nestingLimit, names?, hskip, hread]
  simp only

/-- A line is not empty if it begins with a character of its own. -/
theorem endLine?_of_ne {c : Char} (hblank : ¬ Text.isBlank c) (hcomment : c ≠ '#')
    (hfeed : c ≠ '\n') (cs : List Char) : endLine? (c :: cs) = none := by
  have hskip : skipComment (c :: cs) = c :: cs := by
    unfold skipComment
    split
    · next heq => exact absurd (List.cons.inj heq).1 hcomment
    · rfl
  rw [endLine?, skipBlanks_cons hblank, hskip]
  split
  · next heq => cases heq
  · next heq => exact absurd (List.cons.inj heq).1 hfeed
  · rfl

theorem line?_feed (limit : Nat) (rest : List Char) :
    line? limit ('\n' :: rest) = some (none, rest) := rfl

theorem line?_of_isNameChar {c : Char} (hc : isNameChar c) (limit : Nat) (cs : List Char) :
    line? limit (c :: cs) = (pair? (value? limit (nestingLimit - 1)) (c :: cs)).bind
      fun r => (endLine? r.2).bind fun rest => some (some (.assign r.1.1 r.1.2), rest) := by
  have hblank := not_isBlank_of_isNameChar hc
  rw [line?, endLine?_of_ne hblank (ne_of_isNameChar hc (by decide))
    (ne_of_isNameChar hc (by decide)), skipBlanks_cons hblank]
  simp only
  split
  · next heq => exact absurd (List.cons.inj heq).1 (ne_of_isNameChar hc (by decide))
  · next heq => exact absurd (List.cons.inj heq).1 (ne_of_isNameChar hc (by decide))
  · rfl

/-- **A line that gives a value to a name.** -/
theorem line?_pairLine {name : String} {form : List Char} {v : Value} (hname : IsName name)
    (hform : IsForm form v) (limit : Nat) (rest : List Char) :
    line? limit (pairLine name form ++ rest) = some (some (.assign [name] v), rest) := by
  obtain ⟨c, cs, hcons, hc⟩ := hname.exists_cons
  have hline : pairLine name form ++ rest =
      name.toList ++ ' ' :: '=' :: ' ' :: (form ++ '\n' :: rest) := by
    simp [pairLine]
  have hpath := @path?_append name hname ' ' (by decide) ('=' :: ' ' :: (form ++ '\n' :: rest))
    (by simp [skipBlanks, Text.isBlank])
  have hpair : pair? (value? limit (nestingLimit - 1)) (pairLine name form ++ rest) =
      some (([name], v), '\n' :: rest) := by
    have hskip : ∀ cs, skipBlanks (' ' :: cs) = skipBlanks cs := fun _ => rfl
    have hequals : ∀ cs, skipBlanks ('=' :: cs) = '=' :: cs := fun _ => rfl
    rw [hline, pair?, hpath, hskip, hequals]
    simp only
    rw [hskip, hform.skip, hform.read]
    rfl
  rw [hline, hcons, List.cons_append, line?_of_isNameChar hc, ← List.cons_append, ← hcons, ← hline,
    hpair]
  rfl

/-- **A line that opens a table.** -/
theorem line?_table {name : String} (hname : IsName name) (limit : Nat) (rest : List Char) :
    line? limit ('[' :: (name.toList ++ ']' :: '\n' :: rest)) =
      some (some (.table [name]), rest) := by
  obtain ⟨c, cs, hcons, hc⟩ := hname.exists_cons
  have hpath := @path?_append name hname ']' (by decide) ('\n' :: rest)
    (by simp [skipBlanks, Text.isBlank])
  have hheader : header? [']'] (name.toList ++ ']' :: '\n' :: rest) = some ([name], rest) := by
    rw [header?, hpath]
    rfl
  rw [line?, endLine?_of_ne (by decide) (by decide) (by decide), skipBlanks_cons (by decide)]
  simp only
  split
  · next heq =>
    rw [hcons, List.cons_append] at heq
    exact absurd (List.cons.inj (List.cons.inj heq).2).1 (ne_of_isNameChar hc (by decide))
  · next heq =>
    rw [← (List.cons.inj heq).2, hheader]
    rfl
  · next hne => exact absurd rfl (hne _)

/-- A text is made of lines, and what the lines say. -/
inductive Reads : List Char → List Statement → Prop
  | nil : Reads [] []
  | cons {line cs : List Char} {said : Option Statement} {statements : List Statement}
      (hne : line ≠ [])
      (hline : ∀ limit rest, line? limit (line ++ rest) = some (said, rest))
      (h : Reads cs statements) : Reads (line ++ cs) (said.toList ++ statements)

namespace Reads
variable {cs ds : List Char} {statements more : List Statement}

theorem single {line : List Char} {said : Option Statement} (hne : line ≠ [])
    (hline : ∀ limit rest, line? limit (line ++ rest) = some (said, rest)) :
    Reads line said.toList := by
  have h := Reads.cons hne hline .nil
  rwa [List.append_nil, List.append_nil] at h

theorem append (h : Reads cs statements) (h' : Reads ds more) :
    Reads (cs ++ ds) (statements ++ more) := by
  induction h with
  | nil => exact h'
  | cons hne hline _ ih =>
    rw [List.append_assoc, List.append_assoc]
    exact .cons hne hline ih

theorem pairLine {name : String} {form : List Char} {v : Value} (hname : IsName name)
    (hform : IsForm form v) : Reads (Toml.pairLine name form) [.assign [name] v] :=
  single (by simp [Toml.pairLine]) (line?_pairLine hname hform)

theorem tableLine {name : String} (hname : IsName name) :
    Reads (Toml.tableLine name) [.table [name]] := by
  have hlines : Toml.tableLine name = ['\n'] ++ ('[' :: (name.toList ++ [']', '\n'])) := by
    simp [Toml.tableLine]
  have htable : Reads ('[' :: (name.toList ++ [']', '\n'])) [.table [name]] := by
    refine @single _ (some (.table [name])) (List.cons_ne_nil _ _) fun limit rest => ?_
    rw [List.cons_append, List.append_assoc]
    exact line?_table hname limit rest
  rw [hlines]
  exact (@single ['\n'] none (List.cons_ne_nil _ _) line?_feed).append htable

theorem readLines? (h : Reads cs statements) (limit : Nat) (before : List Statement) {lines : Nat}
    (hlines : cs.length ≤ lines) :
    Statement.readLines? limit before lines cs = some (before.reverse ++ statements) := by
  induction h generalizing before lines with
  | nil => simp [Statement.readLines?]
  | @cons line cs said statements hne hline _ ih =>
    have hpos := List.length_pos_iff.2 hne
    rw [List.length_append] at hlines
    cases lines with
    | zero => omega
    | succ lines =>
      have hcs : line ++ cs ≠ [] := by simp [hne]
      rw [Statement.readLines?, hline]
      · simp only
        rw [ih _ (by omega)]
        cases said <;> simp
      · exact hcs

/-- **A text says what its lines say.** -/
theorem readAll? (h : Reads cs statements) : Statement.readAll? cs = some statements :=
  h.readLines? _ [] (Nat.le_refl _)

end Reads

end Statement

/-! ## Tables -/

/-- Entries of a table, each a name and a value. -/
abbrev Fields := List (String × Value)

namespace Tree

/-- The names of some entries. -/
abbrev names (entries : Entries) : List String := entries.map Prod.fst

/-- Entries that hold values. -/
def ofFields (fields : Fields) : Entries := fields.map fun p => (p.1, .value p.2)

theorem names_ofFields (fields : Fields) : names (ofFields fields) = fields.map Prod.fst := by
  simp [ofFields, names]

theorem ofEntries_append (front back : Entries) :
    ofEntries (front ++ back) = ofEntries front ++ ofEntries back := by
  induction front with
  | nil => rfl
  | cons e front ih => rw [List.cons_append, ofEntries, ofEntries, ih, List.cons_append]

theorem ofEntries_ofFields (fields : Fields) : ofEntries (ofFields fields) = fields := by
  induction fields with
  | nil => rfl
  | cons p fields ih => exact congrArg (p :: ·) ih

theorem update_append {name : String} {front : Entries} (h : name ∉ names front)
    (f : Option Node → Option Node) (back : Entries) :
    update name f (front ++ back) = (update name f back).map (front ++ ·) := by
  induction front with
  | nil => simp
  | cons e front ih =>
    rw [names, List.map_cons, List.mem_cons, not_or] at h
    rw [List.cons_append, update, if_neg (Ne.symm h.1), ih h.2, Option.map_map]
    rfl

theorem assign_name {name : String} {entries : Entries} (h : name ∉ names entries) (v : Value) :
    assign [name] v entries = some (entries ++ [(name, .value v)]) := by
  have hupdate : assign [name] v (entries ++ []) = some (entries ++ [(name, .value v)]) :=
    update_append h _ []
  rwa [List.append_nil] at hupdate

theorem lookup_eq_none {name : String} {entries : Entries} (h : name ∉ names entries) :
    entries.lookup name = none := by
  rw [List.lookup_eq_none_iff]
  intro p hp
  have hne : name ≠ p.1 := fun heq => h (heq ▸ List.mem_map_of_mem hp)
  simpa using hne

end Tree

namespace Document

/-- The statements that give values to names. -/
def assigns (fields : Fields) : List Statement := fields.map fun p => .assign [p.1] p.2

/-- The statements of a table and of the values in it. -/
def opens (p : String × Fields) : List Statement := .table [p.1] :: assigns p.2

section
variable {name : String} {entries front : Tree.Entries}

theorem follow_assign (h : name ∉ Tree.names entries) (v : Value) :
    follow ⟨entries, []⟩ (.assign [name] v) = some ⟨entries ++ [(name, .value v)], []⟩ := by
  rw [follow, Tree.within, Tree.assign_name h]
  rfl

theorem follow_assign_inside {table : String} (ht : table ∉ Tree.names front)
    (h : name ∉ Tree.names entries) (v : Value) :
    follow ⟨front ++ [(table, .table .opened entries)], [table]⟩ (.assign [name] v) =
      some ⟨front ++ [(table, .table .opened (entries ++ [(name, .value v)]))], [table]⟩ := by
  rw [follow, Tree.within, Tree.update_append ht, Tree.update, if_pos rfl]
  simp [Tree.within, Tree.assign_name h]

theorem follow_table (h : name ∉ Tree.names entries) (current : Path) :
    follow ⟨entries, current⟩ (.table [name]) =
      some ⟨entries ++ [(name, .table .opened [])], [name]⟩ := by
  have hopen : Tree.openTable [name] entries =
      some (entries ++ [(name, .table .opened [])]) := by
    have hamong : Tree.openAmong name entries =
        some (entries ++ [(name, .table .opened [])]) := by
      rw [Tree.openAmong, Tree.lookup_eq_none h]
    exact hamong
  rw [follow, hopen]
  rfl

theorem not_mem_of_nodup {name : String} {names rest : List String}
    (h : (names ++ name :: rest).Nodup) : name ∉ names := by
  intro hmem
  exact (List.nodup_append.1 h).2.2 name hmem name List.mem_cons_self rfl

theorem foldlM_assigns {fields : Fields}
    (h : (Tree.names entries ++ fields.map Prod.fst).Nodup) :
    (assigns fields).foldlM follow ⟨entries, []⟩ =
      some ⟨entries ++ Tree.ofFields fields, []⟩ := by
  induction fields generalizing entries with
  | nil => simp [assigns, Tree.ofFields]
  | cons p fields ih =>
    rw [List.map_cons] at h
    rw [assigns, List.map_cons, List.foldlM_cons, follow_assign (not_mem_of_nodup h)]
    simp only [bind, Option.bind_some]
    rw [← assigns, ih (by simpa [Tree.names] using h)]
    simp [Tree.ofFields]

theorem foldlM_assigns_inside {table : String} (ht : table ∉ Tree.names front) {fields : Fields}
    (h : (Tree.names entries ++ fields.map Prod.fst).Nodup) :
    (assigns fields).foldlM follow ⟨front ++ [(table, .table .opened entries)], [table]⟩ =
      some ⟨front ++ [(table, .table .opened (entries ++ Tree.ofFields fields))], [table]⟩ := by
  induction fields generalizing entries with
  | nil => simp [assigns, Tree.ofFields]
  | cons p fields ih =>
    rw [List.map_cons] at h
    rw [assigns, List.map_cons, List.foldlM_cons, follow_assign_inside ht (not_mem_of_nodup h)]
    simp only [bind, Option.bind_some]
    rw [← assigns, ih (by simpa [Tree.names] using h)]
    simp [Tree.ofFields]

/-- Tables with values in them. -/
def tablesOf (tables : List (String × Fields)) : Tree.Entries :=
  tables.map fun p => (p.1, .table .opened (Tree.ofFields p.2))

theorem foldlM_opens {tables : List (String × Fields)}
    (h : (Tree.names entries ++ tables.map Prod.fst).Nodup)
    (hfields : ∀ p ∈ tables, (p.2.map Prod.fst).Nodup) (current : Path) :
    ∃ last, (tables.flatMap opens).foldlM follow ⟨entries, current⟩ =
      some ⟨entries ++ tablesOf tables, last⟩ := by
  induction tables generalizing entries current with
  | nil => exact ⟨current, by simp [tablesOf]⟩
  | cons p tables ih =>
    rw [List.map_cons] at h
    rw [List.forall_mem_cons] at hfields
    have hp := not_mem_of_nodup h
    obtain ⟨last, hrest⟩ := @ih (entries ++ [(p.1, .table .opened (Tree.ofFields p.2))])
      (by simpa [Tree.names] using h) hfields.2 [p.1]
    refine ⟨last, ?_⟩
    rw [List.flatMap_cons, opens, List.cons_append, List.foldlM_cons, follow_table hp]
    simp only [bind, Option.bind_some, List.foldlM_append]
    rw [foldlM_assigns_inside hp (by simpa using hfields.1), Option.bind_some, List.nil_append,
      hrest]
    simp [tablesOf]

theorem ofEntries_tablesOf (tables : List (String × Fields)) :
    Tree.ofEntries (tablesOf tables) = tables.map fun p => (p.1, .table p.2) := by
  induction tables with
  | nil => rfl
  | cons p tables ih =>
    rw [tablesOf, List.map_cons, Tree.ofEntries, Tree.ofNode, Tree.ofEntries_ofFields, ← tablesOf,
      ih, List.map_cons]

end

/-- **What the lines of values and of tables with values make.** -/
theorem ofStatements?_eq {fields : Fields} {tables : List (String × Fields)}
    (h : (fields.map Prod.fst ++ tables.map Prod.fst).Nodup)
    (hfields : ∀ p ∈ tables, (p.2.map Prod.fst).Nodup) :
    ofStatements? (assigns fields ++ tables.flatMap opens) =
      some (.table (fields ++ tables.map fun p => (p.1, .table p.2))) := by
  have htop := @foldlM_assigns [] fields (by simpa [Tree.names] using (List.nodup_append.1 h).1)
  obtain ⟨last, htables⟩ := @foldlM_opens (Tree.ofFields fields) tables
    (by rwa [Tree.names_ofFields]) hfields []
  rw [List.nil_append] at htop
  rw [ofStatements?, List.foldlM_append, htop]
  simp only [bind, Option.bind_some]
  rw [htables, Option.map_some, Tree.ofEntries_append, Tree.ofEntries_ofFields,
    ofEntries_tablesOf]

theorem unifyLineEnds_of_not_mem {cs : List Char} (h : '\r' ∉ cs) : unifyLineEnds cs = cs := by
  fun_induction unifyLineEnds cs with
  | case1 cs ih => simp at h
  | case2 c cs hc ih =>
    rw [List.mem_cons, not_or] at h
    rw [ih h.2]
  | case3 => rfl

/-- **A document is read back from its lines.** -/
theorem read?_of_reads {c : Char} {cs : List Char} {fields : Fields}
    {tables : List (String × Fields)}
    (hreads : Statement.Reads (c :: cs) (assigns fields ++ tables.flatMap opens))
    (hreturn : '\r' ∉ c :: cs) (hmark : c ≠ '\uFEFF')
    (h : (fields.map Prod.fst ++ tables.map Prod.fst).Nodup)
    (hfields : ∀ p ∈ tables, (p.2.map Prod.fst).Nodup) :
    read? (String.ofList (c :: cs)) =
      some (.table (fields ++ tables.map fun p => (p.1, .table p.2))) := by
  have hdrop : dropMark (c :: cs) = c :: cs := by
    unfold dropMark
    split
    · next heq => exact absurd (List.cons.inj heq).1 hmark
    · rfl
  rw [read?, String.toList_ofList, unifyLineEnds_of_not_mem hreturn, hdrop, hreads.readAll?,
    Option.bind_some, ofStatements?_eq h hfields]

end Document

end HybridAccess.Toml
