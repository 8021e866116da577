/-
  HybridAccess — addresses that are written and read back.

  The shortest form of an IPv6 address leaves out the longest run of zero
  groups, and what is left out is known from the number of groups that stand
  around the double colon (`longestRun_zeros`). The double colon of a form is
  the only one in it, because no group is empty (`cutDouble?_joined_append`).
  Main statements: `IPv4.ofChars?_chars` and `IPv6.ofChars?_chars`.
-/
import HybridAccess.Address.IPv6
import HybridAccess.Proofs.Text.Digits

namespace HybridAccess

/-! ## IPv4 -/

namespace IPv4

theorem octet?_decimal (o : UInt8) : octet? (Text.decimal o.toNat) = some o := by
  have hlt : o.toNat < 256 := o.toNat_lt
  have hlength : (Text.decimal o.toNat).length ≤ 3 :=
    (Nat.length_toDigits_le_iff (by decide) (by decide)).2 (by omega)
  rw [octet?, if_pos ⟨hlength, Text.length_decimal_eq_one_or _⟩, Text.natural?_decimal,
    Option.filter_some, if_pos (decide_eq_true hlt), Option.map_some, UInt8.ofNat_toNat]

/-- **An IPv4 address is read back.** -/
theorem ofChars?_chars (ip : IPv4) : ofChars? ip.chars = some ip := by
  have hsplit : Text.splitOn '.' ip.chars = ip.octets.map fun o => Text.decimal o.toNat := by
    refine Text.splitOn_intercalate (by simp [octets]) fun p hp => ?_
    obtain ⟨o, -, rfl⟩ := List.mem_map.1 hp
    exact Text.not_mem_decimal (by decide) _
  simp [ofChars?, hsplit, octets, octet?_decimal]

theorem chars_ne_nil (ip : IPv4) : ip.chars ≠ [] := by
  intro h
  have hread := ofChars?_chars ip
  rw [h] at hread
  cases hread

/-- What holds of the digits and of the point holds of the characters of an address. -/
theorem forall_mem_chars {p : Char → Prop} (hd : ∀ d < 10, p (Nat.digitChar d)) (hp : p '.')
    (ip : IPv4) : ∀ c ∈ ip.chars, p c := by
  refine Text.forall_mem_intercalate hp fun q hq => ?_
  obtain ⟨o, -, rfl⟩ := List.mem_map.1 hq
  exact Text.forall_mem_toDigits (by decide) hd _

theorem ofChars?_of_not_mem {cs : List Char} (h : '.' ∉ cs) : ofChars? cs = none := by
  rw [ofChars?, Text.splitOn_of_not_mem h]

end IPv4

/-! ## IPv6 -/

namespace IPv6

/-- What holds of every hexadecimal digit holds of the characters of a group. -/
theorem forall_mem_groupChars {p : Char → Prop} (h : ∀ d < 16, p (Nat.digitChar d)) (g : UInt16) :
    ∀ c ∈ groupChars g, p c :=
  Text.forall_mem_toDigits (by decide) h _

theorem colon_not_mem_groupChars (g : UInt16) : ':' ∉ groupChars g := fun h =>
  forall_mem_groupChars (p := (· ≠ ':')) (by decide) g _ h rfl

theorem point_not_mem_groupChars (g : UInt16) : '.' ∉ groupChars g := fun h =>
  forall_mem_groupChars (p := (· ≠ '.')) (by decide) g _ h rfl

theorem group?_groupChars (g : UInt16) : group? (groupChars g) = some g := by
  have hlength : (groupChars g).length ≤ 4 :=
    (Nat.length_toDigits_le_iff (by decide) (by decide)).2 g.toNat_lt
  rw [group?, if_pos hlength, groupChars, Text.natural?_toDigits (by decide) (by decide)]
  simp

/-! ### Groups with colons between them -/

theorem joined_cons_cons (g h : UInt16) (gs : List UInt16) :
    joined (g :: h :: gs) = groupChars g ++ ':' :: joined (h :: gs) := by
  simp [joined, List.intercalate]

theorem joined_singleton (g : UInt16) : joined [g] = groupChars g := by
  simp [joined, List.intercalate]

theorem exists_joined_cons (g : UInt16) (gs : List UInt16) :
    ∃ c cs, joined (g :: gs) = c :: cs ∧ c ≠ ':' := by
  obtain ⟨c, cs, hg⟩ := List.exists_cons_of_ne_nil
    (show groupChars g ≠ [] from Nat.toDigits_ne_nil)
  have hc : c ≠ ':' := fun h => colon_not_mem_groupChars g (hg ▸ h ▸ List.mem_cons_self)
  cases gs with
  | nil => exact ⟨c, cs, by rw [joined_singleton, hg], hc⟩
  | cons h gs => exact ⟨c, _, by rw [joined_cons_cons, hg, List.cons_append], hc⟩

theorem point_not_mem_joined (gs : List UInt16) : '.' ∉ joined gs := by
  induction gs with
  | nil => simp [joined, List.intercalate]
  | cons g gs ih =>
    cases gs with
    | nil => simpa [joined_singleton] using point_not_mem_groupChars g
    | cons h gs => simp [joined_cons_cons, point_not_mem_groupChars, ih]

theorem groupsOfPieces?_map (gs : List UInt16) :
    groupsOfPieces? (gs.map groupChars) = some gs := by
  induction gs with
  | nil => rfl
  | cons g gs ih =>
    cases gs with
    | nil =>
      simp [groupsOfPieces?, IPv4.ofChars?_of_not_mem (point_not_mem_groupChars g),
        group?_groupChars]
    | cons h gs =>
      rw [List.map_cons] at ih
      simp [groupsOfPieces?, group?_groupChars, ih]

theorem groups?_joined (gs : List UInt16) : groups? (joined gs) = some gs := by
  cases gs with
  | nil => rfl
  | cons g gs =>
    obtain ⟨c, cs, hjoined, -⟩ := exists_joined_cons g gs
    have hsplit : Text.splitOn ':' (joined (g :: gs)) = (g :: gs).map groupChars := by
      refine Text.splitOn_intercalate (by simp) fun p hp => ?_
      obtain ⟨h, -, rfl⟩ := List.mem_map.1 hp
      exact colon_not_mem_groupChars h
    have hne : (joined (g :: gs)).isEmpty = false := by rw [hjoined]; rfl
    rw [groups?, hne, hsplit, groupsOfPieces?_map]
    rfl

/-! ### The double colon -/

theorem cutDouble?_append {piece : List Char} (h : ':' ∉ piece) (rest : List Char) :
    cutDouble? (piece ++ rest) =
      (cutDouble? rest).map fun (front, back) => (piece ++ front, back) := by
  induction piece with
  | nil => simp
  | cons c cs ih =>
    rw [List.mem_cons, not_or] at h
    have hc : c ≠ ':' := Ne.symm h.1
    simp [cutDouble?, hc, ih h.2, Function.comp_def]

theorem cutDouble?_colon {c : Char} (h : c ≠ ':') (rest : List Char) :
    cutDouble? (':' :: c :: rest) =
      (cutDouble? (c :: rest)).map fun (front, back) => (':' :: front, back) := by
  rw [cutDouble?]
  simp [h]

/-- Among groups with colons between them there is no double colon. -/
theorem cutDouble?_joined_append (gs : List UInt16) (rest : List Char) :
    cutDouble? (joined gs ++ rest) =
      (cutDouble? rest).map fun (front, back) => (joined gs ++ front, back) := by
  induction gs with
  | nil => simp [joined, List.intercalate]
  | cons g gs ih =>
    cases gs with
    | nil => rw [joined_singleton, cutDouble?_append (colon_not_mem_groupChars g)]
    | cons h gs =>
      obtain ⟨c, cs, hjoined, hc⟩ := exists_joined_cons h gs
      rw [joined_cons_cons, List.append_assoc, cutDouble?_append (colon_not_mem_groupChars g),
        List.cons_append, hjoined, List.cons_append, cutDouble?_colon hc, ← List.cons_append,
        ← hjoined, ih]
      simp [Function.comp_def]

/-! ### The zeros that are left out -/

theorem take_zerosAhead {gs : List UInt16} {n : Nat} (h : n ≤ zerosAhead gs) :
    gs.take n = List.replicate n 0 := by
  induction gs generalizing n with
  | nil =>
    obtain rfl : n = 0 := by simpa [zerosAhead] using h
    rfl
  | cons g gs ih =>
    cases n with
    | zero => rfl
    | succ n =>
      by_cases hg : g = 0
      · subst hg
        simp only [zerosAhead, List.takeWhile_cons, beq_self_eq_true, if_true,
          List.length_cons, Nat.add_le_add_iff_right] at h
        rw [List.take_succ_cons, ih h]
        rfl
      · simp [zerosAhead, hg] at h

theorem longestRun_le (gs : List UInt16) :
    (longestRun gs).2 ≤ zerosAhead (gs.drop (longestRun gs).1) := by
  have hfold : ∀ (is : List Nat) (best : Nat × Nat), best.2 ≤ zerosAhead (gs.drop best.1) →
      let run := is.foldl (fun best i =>
        if best.2 < zerosAhead (gs.drop i) then (i, zerosAhead (gs.drop i)) else best) best
      run.2 ≤ zerosAhead (gs.drop run.1) := by
    intro is
    induction is with
    | nil => exact fun best h => h
    | cons i is ih =>
      intro best h
      refine ih _ ?_
      by_cases hi : best.2 < zerosAhead (gs.drop i)
      · simp [hi]
      · simpa [hi] using h
  exact hfold _ _ (Nat.zero_le _)

/-- The longest run consists of zeros. -/
theorem longestRun_zeros (gs : List UInt16) :
    gs = gs.take (longestRun gs).1 ++ List.replicate (longestRun gs).2 0 ++
      gs.drop ((longestRun gs).1 + (longestRun gs).2) := by
  rw [← take_zerosAhead (longestRun_le gs), List.append_assoc, ← List.drop_drop,
    List.take_append_drop, List.take_append_drop]

/-! ### Forms -/

theorem ofGroups?_groups (ip : IPv6) : ofGroups? ip.groups = some ip := by
  rw [ofGroups?, dif_pos ip.length_groups]

theorem groups_of_mapped? {ip : IPv6} {v4 : IPv4} (h : ip.mapped? = some v4) :
    ip.groups = [0, 0, 0, 0, 0, 0xFFFF, Bytes.word16 v4.a v4.b, Bytes.word16 v4.c v4.d] := by
  unfold mapped? at h
  split at h
  · next g h' hgroups =>
    cases h
    rw [hgroups]
    have hg : Bytes.word16 (UInt8.ofNat (g.toNat / 256)) (UInt8.ofNat g.toNat) = g :=
      Bytes.word16_be16 g
    have hh : Bytes.word16 (UInt8.ofNat (h'.toNat / 256)) (UInt8.ofNat h'.toNat) = h' :=
      Bytes.word16_be16 h'
    simp only [hg, hh]
  · cases h

/-- What a form with a double colon stands for. -/
theorem ofChars?_of_cut {cs front back : List Char} {head tail : List UInt16}
    (hcut : cutDouble? cs = some (front, back)) (hhead : groups? front = some head)
    (htail : groups? back = some tail) (hpoint : '.' ∉ front)
    (hlength : head.length + tail.length ≤ 7) : ofChars? cs =
      ofGroups? (head ++ List.replicate (8 - head.length - tail.length) 0 ++ tail) := by
  have hnot : ¬ ('.' ∈ front ∨ 7 < head.length + tail.length) := by
    rintro (h | h)
    · exact hpoint h
    · omega
  rw [ofChars?, hcut]
  simp only [hhead, htail, bind, Option.bind_some]
  rw [if_neg hnot]

/-- The form that ends with an IPv4 address. -/
theorem ofChars?_mapped (v4 : IPv4) : ofChars? ("::ffff:".toList ++ v4.chars) =
    ofGroups? [0, 0, 0, 0, 0, 0xFFFF, Bytes.word16 v4.a v4.b, Bytes.word16 v4.c v4.d] := by
  have hcut : cutDouble? ("::ffff:".toList ++ v4.chars) =
      some ([], "ffff".toList ++ ':' :: v4.chars) := rfl
  have hcolon : ':' ∉ v4.chars := fun h =>
    IPv4.forall_mem_chars (p := (· ≠ ':')) (by decide) (by decide) v4 _ h rfl
  have htail : groups? ("ffff".toList ++ ':' :: v4.chars) =
      some [0xFFFF, Bytes.word16 v4.a v4.b, Bytes.word16 v4.c v4.d] := by
    have hne : ("ffff".toList ++ ':' :: v4.chars).isEmpty = false := rfl
    have hffff : group? "ffff".toList = some 0xFFFF := by decide
    rw [groups?, hne, Text.splitOn_append, Text.splitOn_of_not_mem (by decide),
      Text.splitOn_of_not_mem hcolon, List.singleton_append]
    simp only [groupsOfPieces?, hffff, IPv4.ofChars?_chars]
    rfl
  rw [ofChars?_of_cut hcut rfl htail (by simp) (Nat.le_of_ble_eq_true rfl)]
  rfl

/-- The form with a double colon in the place of zeros. -/
theorem ofChars?_compressed {head tail : List UInt16} (h : head.length + tail.length ≤ 7) :
    ofChars? (joined head ++ [':', ':'] ++ joined tail) =
      ofGroups? (head ++ List.replicate (8 - head.length - tail.length) 0 ++ tail) := by
  have hcut : cutDouble? (joined head ++ [':', ':'] ++ joined tail) =
      some (joined head, joined tail) := by
    rw [List.append_assoc, cutDouble?_joined_append]
    simp [cutDouble?]
  exact ofChars?_of_cut hcut (groups?_joined head) (groups?_joined tail)
    (point_not_mem_joined head) h

/-- The form with all groups. -/
theorem ofChars?_joined (gs : List UInt16) : ofChars? (joined gs) = ofGroups? gs := by
  have hcut := cutDouble?_joined_append gs []
  rw [List.append_nil] at hcut
  rw [ofChars?, hcut]
  simp only [cutDouble?, Option.map_none, groups?_joined, Option.bind_some]

/-- **An IPv6 address is read back.** -/
theorem ofChars?_chars (ip : IPv6) : ofChars? ip.chars = some ip := by
  have hgroups := ofGroups?_groups ip
  unfold chars
  cases hm : ip.mapped? with
  | some v4 =>
    simp only
    rw [ofChars?_mapped, ← groups_of_mapped? hm, hgroups]
  | none =>
    have hzeros := longestRun_zeros ip.groups
    cases hrun : longestRun ip.groups with
    | mk start length =>
      rw [hrun] at hzeros
      simp only at hzeros ⊢
      split
      · have hlength := congrArg List.length hzeros
        simp only [List.length_append, List.length_replicate, ip.length_groups] at hlength
        rw [ofChars?_compressed (by omega)]
        have hzero : 8 - (ip.groups.take start).length -
            (ip.groups.drop (start + length)).length = length := by omega
        rw [hzero, ← hzeros, hgroups]
      · rw [ofChars?_joined, hgroups]

/-- What holds of the digits, the colon and the point holds of the characters of an address. -/
theorem forall_mem_chars {p : Char → Prop} (hd : ∀ d < 16, p (Nat.digitChar d)) (hp : p '.')
    (hc : p ':') (ip : IPv6) : ∀ c ∈ ip.chars, p c := by
  have hjoined : ∀ gs, ∀ c ∈ joined gs, p c := by
    intro gs
    refine Text.forall_mem_intercalate hc fun q hq => ?_
    obtain ⟨g, -, rfl⟩ := List.mem_map.1 hq
    exact forall_mem_groupChars hd g
  unfold chars
  split
  · have hv4 : ∀ v4 : IPv4, ∀ c ∈ v4.chars, p c :=
      IPv4.forall_mem_chars (fun d hlt => hd d (by omega)) hp
    have hf : p 'f' := hd 15 (by decide)
    simpa [hc, hf] using hv4 _
  · simp only
    split
    · simp only [List.forall_mem_append, List.forall_mem_cons]
      exact ⟨⟨hjoined _, hc, hc, by simp⟩, hjoined _⟩
    · exact hjoined _

end IPv6

end HybridAccess
