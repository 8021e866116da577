/-
  HybridAccess — the lines of a report that count.

  A line gives a key its value, or it is noise. A report is a fold over its
  lines, so it is a fold over the entries that they make (`ofChars_eq`), and
  the entries of two texts with a line feed between them are those of the one
  and then those of the other (`entries_append`). In such a fold a field is
  what the last entry with its key says (`field_foldl`).
  Main statements: `field_append_of_mentions`, `field_append_of_not_mentions`
  and `field_of_settles`.
-/
import HybridAccess.Dhcp.Report
import HybridAccess.Proofs.Text.Digits
import Mathlib.Data.List.Induction

namespace HybridAccess.Dhcp.Report

/-! ## Keys and fields -/

/-- How a key is spelled. -/
def Key.spelling : Key → List Char
  | address => "ip".toList
  | prefixAddress => "prefix_address".toList
  | prefixLength => "prefix_length".toList
  | seconds => "lease".toList

/-- What the value of a key stands for. -/
abbrev Key.Value : Key → Type
  | address => IPv4
  | prefixAddress => IPv6
  | prefixLength => UInt8
  | seconds => UInt32

/-- Read the value of a key. -/
def Key.read? : (key : Key) → List Char → Option key.Value
  | address, value => IPv4.ofChars? value
  | prefixAddress, value => IPv6.ofChars? value
  | prefixLength, value => (Text.unsigned? 10 UInt8.size value).map UInt8.ofNat
  | seconds, value => (Text.unsigned? 10 UInt32.size value).map UInt32.ofNat

/-- The field of a key. -/
def field (r : Report) : (key : Key) → Option key.Value
  | .address => r.address
  | .prefixAddress => r.prefixAddress
  | .prefixLength => r.prefixLength
  | .seconds => r.seconds

theorem Key.ofChars?_eq_some_iff {cs : List Char} {key : Key} :
    Key.ofChars? cs = some key ↔ cs = key.spelling := by
  constructor
  · intro h
    unfold Key.ofChars? at h
    split_ifs at h with hip haddress hlength hlease <;> cases h <;> assumption
  · rintro rfl
    cases key <;> rfl

theorem Key.equals_not_mem_spelling (key : Key) : '=' ∉ key.spelling := by
  cases key <;> decide

@[simp] theorem field_set_self (r : Report) (key : Key) (value : List Char) :
    (r.set key value).field key = key.read? value := by
  cases key <;> rfl

theorem field_set_of_ne (r : Report) {key other : Key} (h : other ≠ key) (value : List Char) :
    (r.set other value).field key = r.field key := by
  cases key <;> cases other <;> first | rfl | exact absurd rfl h

@[simp] theorem field_empty (key : Key) : empty.field key = none := by
  cases key <;> rfl

/-! ## Lines -/

/-- The line, without the blanks around it, gives a key a value. -/
def Gives (line : List Char) (key : Key) (value : List Char) : Prop :=
  Text.trim line = key.spelling ++ '=' :: value

instance (line : List Char) (key : Key) (value : List Char) : Decidable (Gives line key value) :=
  inferInstanceAs (Decidable (Text.trim line = key.spelling ++ '=' :: value))

/-- The line gives no key a value. -/
def IsNoise (line : List Char) : Prop := ∀ key value, ¬ Gives line key value

/-- Some line of the text gives the key a value. -/
def Mentions (text : String) (key : Key) : Prop :=
  ∃ line ∈ Text.lines text.toList, ∃ value, Gives line key value

/-- The last line that gives the key a value gives it this one. -/
def Settles (text : String) (key : Key) (value : List Char) : Prop :=
  ∃ front line back, Text.lines text.toList = front ++ line :: back ∧ Gives line key value ∧
    ∀ later ∈ back, ∀ other, ¬ Gives later key other

/-- The entry that a line makes. -/
def entryOf? (line : List Char) : Option (Key × List Char) := keyValue? (Text.trim line)

/-- The entries of a text. -/
def entries (cs : List Char) : List (Key × List Char) := (Text.lines cs).filterMap entryOf?

theorem entryOf?_eq_some_iff {line : List Char} {key : Key} {value : List Char} :
    entryOf? line = some (key, value) ↔ Gives line key value := by
  simp only [entryOf?, keyValue?, Option.bind_eq_bind, Option.bind_eq_some_iff, Prod.exists,
    Option.some.injEq, Prod.mk.injEq, Key.ofChars?_eq_some_iff, Text.cut?_eq_some_iff]
  constructor
  · rintro ⟨_, _, ⟨hline, -⟩, _, rfl, rfl, rfl⟩
    exact hline
  · intro h
    exact ⟨_, _, ⟨h, key.equals_not_mem_spelling⟩, _, rfl, rfl, rfl⟩

theorem entryOf?_eq_none_iff {line : List Char} : entryOf? line = none ↔ IsNoise line := by
  rw [Option.eq_none_iff_forall_ne_some]
  simp only [Prod.forall, ne_eq, entryOf?_eq_some_iff, IsNoise]

instance (line : List Char) : Decidable (IsNoise line) :=
  decidable_of_iff _ entryOf?_eq_none_iff

theorem mem_entries_iff {cs : List Char} {key : Key} {value : List Char} :
    (key, value) ∈ entries cs ↔ ∃ line ∈ Text.lines cs, Gives line key value := by
  simp only [entries, List.mem_filterMap, entryOf?_eq_some_iff]

theorem filterMap_linesOf (pieces : List (List Char)) :
    (Text.linesOf pieces).filterMap entryOf? = pieces.filterMap entryOf? := by
  fun_induction Text.linesOf pieces with
  | case1 => rfl
  | case2 last h => rw [List.isEmpty_iff.1 h]; rfl
  | case3 last h => rfl
  | case4 line rest hrest ih =>
    have hline : entryOf? (Text.dropReturn line) = entryOf? line := by
      rw [entryOf?, Text.trim_dropReturn, entryOf?]
    rw [List.filterMap_cons, List.filterMap_cons, hline, ih]

/-- **The entries of two texts with a line feed between them.** -/
theorem entries_append (front back : List Char) :
    entries (front ++ '\n' :: back) = entries front ++ entries back := by
  simp only [entries, Text.lines, filterMap_linesOf, Text.splitOn_append, List.filterMap_append]

theorem entries_of_not_mem {line : List Char} (h : '\n' ∉ line) :
    entries line = (entryOf? line).toList := by
  rw [entries, Text.lines, filterMap_linesOf, Text.splitOn_of_not_mem h]
  cases hentry : entryOf? line <;> simp [hentry]

/-! ## The last entry with a key -/

theorem ofChars_eq (cs : List Char) :
    ofChars cs = (entries cs).foldl (fun r e => r.set e.1 e.2) empty := by
  have hfold : ∀ (ls : List (List Char)) (r : Report),
      ls.foldl addLine r = (ls.filterMap entryOf?).foldl (fun r e => r.set e.1 e.2) r := by
    intro ls
    induction ls with
    | nil => exact fun _ => rfl
    | cons line ls ih =>
      intro r
      rw [List.foldl_cons, ih, List.filterMap_cons, addLine, ← entryOf?]
      cases entryOf? line <;> rfl
  exact hfold _ _

/-- The value in the last entry with a key. -/
def lastValue? (key : Key) (es : List (Key × List Char)) : Option (List Char) :=
  (es.filterMap fun e => if e.1 = key then some e.2 else none).getLast?

theorem lastValue?_append (key : Key) (es fs : List (Key × List Char)) :
    lastValue? key (es ++ fs) = (lastValue? key fs).or (lastValue? key es) := by
  rw [lastValue?, List.filterMap_append, List.getLast?_append]
  rfl

theorem lastValue?_eq_none_iff {key : Key} {es : List (Key × List Char)} :
    lastValue? key es = none ↔ ∀ value, (key, value) ∉ es := by
  rw [lastValue?, List.getLast?_eq_none_iff, List.filterMap_eq_nil_iff]
  constructor
  · intro h value hmem
    simpa using h _ hmem
  · rintro h ⟨other, value⟩ hmem
    refine if_neg fun heq => h value ?_
    rwa [← show other = key from heq]

theorem field_foldl (key : Key) (es : List (Key × List Char)) :
    (es.foldl (fun r e => r.set e.1 e.2) empty).field key =
      (lastValue? key es).bind key.read? := by
  induction es using List.reverseRecOn with
  | nil => simp [lastValue?]
  | append_singleton es e ih =>
    rw [List.foldl_append, List.foldl_cons, List.foldl_nil, lastValue?_append]
    by_cases h : e.1 = key
    · subst h
      simp [lastValue?]
    · rw [field_set_of_ne _ h, ih]
      simp [lastValue?, h]

/-- **A field is what the last entry with its key says.** -/
theorem field_ofText (text : String) (key : Key) :
    (ofText text).field key = (lastValue? key (entries text.toList)).bind key.read? := by
  rw [ofText, ofChars_eq, field_foldl]

theorem not_mentions_iff {text : String} {key : Key} :
    ¬ Mentions text key ↔ lastValue? key (entries text.toList) = none := by
  simp only [lastValue?_eq_none_iff, mem_entries_iff, Mentions]
  constructor
  · rintro h value ⟨line, hmem, hgives⟩
    exact h ⟨line, hmem, value, hgives⟩
  · rintro h ⟨line, hmem, value, hgives⟩
    exact h value ⟨line, hmem, hgives⟩

instance (text : String) (key : Key) : Decidable (Mentions text key) :=
  decidable_of_iff (lastValue? key (entries text.toList) ≠ none) (not_iff_comm.1 not_mentions_iff)

theorem lastValue?_of_settles {text : String} {key : Key} {value : List Char}
    (h : Settles text key value) : lastValue? key (entries text.toList) = some value := by
  obtain ⟨front, line, back, hlines, hgives, hback⟩ := h
  have hnone : lastValue? key (back.filterMap entryOf?) = none := by
    rw [lastValue?_eq_none_iff]
    intro other hmem
    obtain ⟨later, hlater, hentry⟩ := List.mem_filterMap.1 hmem
    exact hback later hlater other (entryOf?_eq_some_iff.1 hentry)
  rw [entries, hlines, List.filterMap_append,
    List.filterMap_cons_some (entryOf?_eq_some_iff.2 hgives), ← List.singleton_append,
    lastValue?_append, lastValue?_append, hnone]
  simp [lastValue?]

/-! ## Composition -/

variable {front back : String} {key : Key}

theorem toList_append_newline (front back : String) :
    (front ++ "\n" ++ back).toList = front.toList ++ '\n' :: back.toList := by
  simp

/-- **A key that the later text has is read from there**, also if its value cannot be read. -/
theorem field_append_of_mentions (h : Mentions back key) :
    (ofText (front ++ "\n" ++ back)).field key = (ofText back).field key := by
  obtain ⟨value, hvalue⟩ := Option.ne_none_iff_exists'.1 (mt not_mentions_iff.2 (not_not.2 h))
  rw [field_ofText, field_ofText, toList_append_newline, entries_append, lastValue?_append, hvalue]
  rfl

/-- **Any other key is read from the earlier text.** -/
theorem field_append_of_not_mentions (h : ¬ Mentions back key) :
    (ofText (front ++ "\n" ++ back)).field key = (ofText front).field key := by
  rw [field_ofText, field_ofText, toList_append_newline, entries_append, lastValue?_append,
    not_mentions_iff.1 h, Option.none_or]

theorem field_of_not_mentions {text : String} (h : ¬ Mentions text key) :
    (ofText text).field key = none := by
  rw [field_ofText, not_mentions_iff.1 h]
  rfl

/-- The last line of a key decides. -/
theorem field_of_settles {text : String} {value : List Char} (h : Settles text key value) :
    (ofText text).field key = key.read? value := by
  rw [field_ofText, lastValue?_of_settles h]
  rfl

/-- Texts with the same entries make the same report. -/
theorem ofText_congr {text other : String} (h : entries text.toList = entries other.toList) :
    ofText text = ofText other := by
  rw [ofText, ofText, ofChars_eq, ofChars_eq, h]

/-- **A line of noise is not seen**, wherever it stands. -/
theorem ofText_noise {line : String} (hfeed : '\n' ∉ line.toList) (hn : IsNoise line.toList)
    (front back : String) :
    ofText (front ++ "\n" ++ line ++ "\n" ++ back) = ofText (front ++ "\n" ++ back) ∧
      ofText (line ++ "\n" ++ back) = ofText back ∧
      ofText (front ++ "\n" ++ line) = ofText front ∧ ofText line = empty := by
  have hline : entries line.toList = [] := by
    rw [entries_of_not_mem hfeed, entryOf?_eq_none_iff.2 hn, Option.toList_none]
  refine ⟨ofText_congr ?_, ofText_congr ?_, ofText_congr ?_, ?_⟩
  · rw [toList_append_newline, toList_append_newline, toList_append_newline, entries_append,
      entries_append, entries_append, hline, List.append_nil]
  · rw [toList_append_newline, entries_append, hline, List.nil_append]
  · rw [toList_append_newline, entries_append, hline, List.append_nil]
  · rw [ofText, ofChars_eq, hline]
    rfl

end HybridAccess.Dhcp.Report
