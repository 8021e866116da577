/-
  HybridAccess — what is found after the files have changed.

  Whatever is put at the place of a path is found there (`find_put`), as the
  tree is kept. So a file that was written is found with its contents
  (`find_of_write`), a directory that was made is found, with all directories
  that hold it (`isDirectory_of_makeDirectories`), and a file that was removed
  is not found any more (`find_of_remove`). Each of these keeps a tree sound,
  and a usual machine starts with such a tree (`sound_usual`).
-/
import HybridAccess.Host.Machine
import HybridAccess.Proofs.Host.Tree

namespace HybridAccess.Host

namespace Node

/-- Something that leads nowhere else. -/
structure IsPlain (n : Node) : Prop where
  ne_directory : ∀ entries, n ≠ .directory entries
  ne_link : ∀ target, n ≠ .link target

theorem IsPlain.of_at? {n m : Node} {names : List String} (h : n.IsPlain)
    (hm : n.at? names = some m) : m.IsPlain := by
  cases names with
  | nil =>
    rw [at?_nil] at hm
    cases hm
    exact h
  | cons name names =>
    cases n with
    | directory entries => exact absurd rfl (h.ne_directory entries)
    | file | program | device | link => cases hm

/-- Where at most something plain was, all is kept if there is no link then. -/
theorem Keeps.of_plain {found : Option Node} {after : List String → Option Node}
    (hfound : ∀ n, found = some n → n.IsPlain)
    (hafter : ∀ names target, after names ≠ some (.link target)) :
    Keeps (fun names => found.bind (·.at? names)) after := by
  have hplain : ∀ names n, found.bind (·.at? names) = some n → n.IsPlain := by
    intro names n hn
    obtain ⟨old, hold, hat⟩ := Option.bind_eq_some_iff.1 hn
    exact (hfound old hold).of_at? hat
  refine ⟨fun names entries hn => ?_, fun names target => iff_of_false (fun hn => ?_) ?_⟩
  · exact absurd rfl ((hplain names _ hn).ne_directory entries)
  · exact (hplain names _ hn).ne_link target rfl
  · exact hafter names target

end Node

namespace Files

variable {files later : Files} {s : Spot} {entries : Entries} {name path : String} {n : Node}

/-! ## Changing what stands at a place -/

/-- What a directory holds under a name that is not too long. -/
theorem look_eq_ok_iff {found : Option Node} : look entries name = .ok found ↔
    name.utf8ByteSize ≤ Path.longestName ∧ entries.lookup name = found := by
  rw [look]
  split
  · next h => exact iff_of_false nofun fun h' => Nat.not_le.2 h h'.1
  · next h => simp [Nat.not_lt.1 h]

/-- The tree after a change of the directory that holds what a path leads to: it is kept, and the
path leads to the same place, at which the directory is the changed one. -/
theorem exists_changed (hsound : files.Sound) (h : files.place path = .ok (s, entries, some name))
    {entries' : Entries}
    (hk : Node.Keeps (Node.directory entries).at? (Node.directory entries').at?) :
    let later : Files := { files with top := files.rebuild s entries' }
    files.Keeps later ∧ ∃ s' es, later.place path = .ok (s', es, some name) ∧
      es.lookup name = entries'.lookup name := by
  intro later
  obtain ⟨-, -, -, -, -, -, hnode⟩ := place_eq_ok_iff.1 h
  obtain ⟨_, _, _, hs₀, -, -⟩ := (Keeps.refl files).exists_place hsound h
  have hkeeps : files.Keeps later := hs₀.stands.keeps_rebuild hnode hk
  obtain ⟨names, s', es, hs, hplace, hs'⟩ := hkeeps.exists_place hsound h
  obtain ⟨-, -, -, -, -, -, hnode'⟩ := place_eq_ok_iff.1 hplace
  refine ⟨hkeeps, s', es, hplace, ?_⟩
  have hchanged := files.at?_rebuild s entries' [name]
  rw [hs.names, Node.at?_directory_cons] at hchanged
  simp only [Node.at?_nil, Option.bind_fun_some] at hchanged
  rw [← hs'.at?_concat hnode' name, ← hchanged]
  rfl

/-- **What is put at the place of a path is found there.** -/
theorem find_put (hsound : files.Sound) (h : files.place path = .ok (s, entries, some name))
    (hshort : name.utf8ByteSize ≤ Path.longestName)
    (hk : Node.Keeps (fun names => (entries.lookup name).bind (·.at? names)) n.at?)
    (hn : ∀ target, n ≠ .link target)
    (hslash : Path.endsInSlash path = true → ∃ es, n = .directory es) :
    files.Keeps (files.put s entries name n) ∧ (files.put s entries name n).find path = .ok n := by
  obtain ⟨hkeeps, s', es, hplace, hlookup⟩ := exists_changed hsound h (.set hk)
  rw [Entries.lookup_set, if_pos rfl] at hlookup
  exact ⟨hkeeps, find_of_place hplace hshort hlookup hn hslash⟩

/-! ## Writing -/

/-- **What writing a file does: it puts the file where nothing, a file or a program is, or a device
takes the contents.** -/
theorem writeFile_cases {fresh : Bool} {contents : Bytes}
    (h : files.writeFile fresh path contents = .ok later) :
    ∃ s entries name, files.place path = .ok (s, entries, some name) ∧
      Path.endsInSlash path = false ∧ name.utf8ByteSize ≤ Path.longestName ∧
      ((later = files.put s entries name (.file contents) ∧
        ∀ n, entries.lookup name = some n → (∃ old, n = .file old) ∨ ∃ p, n = .program p) ∨
      ∃ d, entries.lookup name = some (.device d) ∧ later = files) := by
  obtain ⟨⟨s, entries, name⟩, hplace, h⟩ := bind_eq_ok_iff.1 h
  cases name with
  | none => cases h
  | some name =>
    dsimp only at h
    split at h
    · cases h
    · next hslash =>
      obtain ⟨found, hlook, h⟩ := bind_eq_ok_iff.1 h
      obtain ⟨hshort, hlookup⟩ := look_eq_ok_iff.1 hlook
      refine ⟨s, entries, name, hplace, Bool.eq_false_iff.2 hslash, hshort, ?_⟩
      rw [hlookup]
      cases found with
      | none => exact Or.inl ⟨(Except.ok.inj h).symm, nofun⟩
      | some n =>
        dsimp only at h
        split at h
        · cases h
        · cases n with
          | directory | link => cases h
          | device d =>
            obtain ⟨_, hwritten, hlater⟩ := bind_eq_ok_iff.1 h
            refine Or.inr ⟨d, rfl, ?_⟩
            cases hd : d.write contents with
            | error e => rw [hd] at hwritten; cases hwritten
            | ok _ =>
              rw [hd] at hwritten
              cases hwritten
              exact (Except.ok.inj hlater).symm
          | file old =>
            refine Or.inl ⟨(Except.ok.inj h).symm, ?_⟩
            rintro _ ⟨⟩
            exact Or.inl ⟨old, rfl⟩
          | program p =>
            refine Or.inl ⟨(Except.ok.inj h).symm, ?_⟩
            rintro _ ⟨⟩
            exact Or.inr ⟨p, rfl⟩

/-- **A file that was written is found with its contents, unless a device took them.** -/
theorem find_of_writeFile (hsound : files.Sound) {fresh : Bool} {contents : Bytes}
    (h : files.writeFile fresh path contents = .ok later) :
    files.Keeps later ∧ (later.find path = .ok (.file contents) ∨
      ∃ d, files.find path = .ok (.device d) ∧ later = files) := by
  obtain ⟨s, entries, name, hplace, hslash, hshort, ⟨rfl, hold⟩ | ⟨d, hd, rfl⟩⟩ :=
    writeFile_cases h
  · have hk : Node.Keeps (fun names => (entries.lookup name).bind (·.at? names))
        (Node.file contents).at? := by
      refine .of_plain (fun n hn => ?_) fun names target hlink => ?_
      · rcases hold n hn with ⟨c, rfl⟩ | ⟨p, rfl⟩
        · exact ⟨nofun, nofun⟩
        · exact ⟨nofun, nofun⟩
      · cases names <;> cases hlink
    obtain ⟨hkeeps, hfind⟩ := find_put hsound hplace hshort hk nofun
      fun hend => absurd (hslash.symm.trans hend) (by decide)
    exact ⟨hkeeps, Or.inl hfind⟩
  · refine ⟨.refl _, Or.inr ⟨d, find_of_place hplace hshort hd nofun ?_, rfl⟩⟩
    exact fun hend => absurd (hslash.symm.trans hend) (by decide)

/-- A file that was written is found with its contents if it is no device. -/
theorem find_of_write (hsound : files.Sound) {contents : Bytes}
    (h : files.write path contents = .ok later) (hd : ∀ d, files.find path ≠ .ok (.device d)) :
    later.find path = .ok (.file contents) :=
  (find_of_writeFile hsound h).2.resolve_right fun ⟨d, hfind, _⟩ => hd d hfind

/-! ## Making directories -/

/-- What making a directory does: it puts an empty one where nothing is. -/
theorem makeDirectory_cases (h : files.makeDirectory path = .ok later) :
    ∃ s entries name, files.place path = .ok (s, entries, some name) ∧
      name.utf8ByteSize ≤ Path.longestName ∧ entries.lookup name = none ∧
      later = files.put s entries name (.directory []) := by
  obtain ⟨⟨s, entries, name⟩, hplace, h⟩ := bind_eq_ok_iff.1 h
  cases name with
  | none => cases h
  | some name =>
    obtain ⟨found, hlook, h⟩ := bind_eq_ok_iff.1 h
    obtain ⟨hshort, hlookup⟩ := look_eq_ok_iff.1 hlook
    cases found with
    | some n => cases h
    | none => exact ⟨s, entries, name, hplace, hshort, hlookup, (Except.ok.inj h).symm⟩

/-- A directory that was made is found, with nothing in it. -/
theorem find_of_makeDirectory (hsound : files.Sound) (h : files.makeDirectory path = .ok later) :
    files.Keeps later ∧ later.find path = .ok (.directory []) := by
  obtain ⟨s, entries, name, hplace, hshort, hfree, rfl⟩ := makeDirectory_cases h
  refine find_put hsound hplace hshort (.of_plain (fun n hn => ?_) ?_) nofun fun _ => ⟨[], rfl⟩
  · rw [hfree] at hn
    cases hn
  · intro names target hlink
    cases names <;> cases hlink

theorem isDirectory_eq_true : files.isDirectory path = true ↔
    ∃ entries, files.find path = .ok (.directory entries) := by
  rw [isDirectory]
  split
  · next entries h => exact iff_of_true rfl ⟨entries, h⟩
  · next h => exact iff_of_false Bool.false_ne_true fun ⟨entries, hfind⟩ => h entries hfind

theorem orThere_eq_ok_iff {reason : Failure} :
    files.orThere path reason = .ok () ↔ files.isDirectory path = true := by
  rw [orThere]
  split
  · next h => exact iff_of_true rfl h
  · next h => exact iff_of_false nofun h

theorem keeps_makeChain (hsound : files.Sound) (chain : List String) :
    files.Keeps (files.makeChain chain).2 := by
  fun_induction makeChain files chain with
  | case1 => exact .refl _
  | case2 path above made h => exact (find_of_makeDirectory hsound h).1
  | case3 path above h e made habove ih =>
    rw [habove] at ih
    exact ih
  | case4 path above h _ made habove last hlast ih =>
    rw [habove] at ih
    exact ih.trans (find_of_makeDirectory (hsound.keeps ih) hlast).1
  | case5 path above h _ made habove e hlast ih =>
    rw [habove] at ih
    exact ih
  | case6 => exact .refl _

/-- Of a chain of directories that was made, the first one is there. -/
theorem isDirectory_of_makeChain (hsound : files.Sound) {path : String} {above : List String}
    (h : (files.makeChain (path :: above)).1 = .ok ()) :
    (files.makeChain (path :: above)).2.isDirectory path = true := by
  rw [makeChain] at h ⊢
  cases hmade : files.makeDirectory path with
  | ok made => exact isDirectory_eq_true.2 ⟨[], (find_of_makeDirectory hsound hmade).2⟩
  | error e =>
    rw [hmade] at h
    cases e with
    | notFound =>
      have hkeeps := keeps_makeChain hsound above
      generalize files.makeChain above = o at h hkeeps ⊢
      obtain ⟨_ | _, made⟩ := o
      · cases h
      · dsimp only at h ⊢
        cases hlast : made.makeDirectory path with
        | ok last =>
          exact isDirectory_eq_true.2 ⟨[], (find_of_makeDirectory (hsound.keeps hkeeps) hlast).2⟩
        | error e =>
          rw [hlast] at h
          exact orThere_eq_ok_iff.1 h
    | _ => exact orThere_eq_ok_iff.1 h

theorem keeps_makeDirectories (hsound : files.Sound) (path : String) :
    files.Keeps (files.makeDirectories path).2 := keeps_makeChain hsound _

/-- **A directory that was made together with the ones that hold it is there.** -/
theorem isDirectory_of_makeDirectories (hsound : files.Sound) (hne : path.isEmpty = false)
    (hroot : path ≠ "/") (h : (files.makeDirectories path).1 = .ok ()) :
    (files.makeDirectories path).2.isDirectory path = true := by
  have hchain : ∃ above, Path.withParents path = path :: above := by
    rw [Path.withParents, Path.upwards, if_neg (by simp [hne, hroot])]
    exact ⟨_, rfl⟩
  obtain ⟨above, hchain⟩ := hchain
  rw [makeDirectories, hchain] at h ⊢
  exact isDirectory_of_makeChain hsound h

/-! ## Removing -/

/-- What removing does: it takes away what is no directory. -/
theorem remove_cases (h : files.remove path = .ok later) :
    ∃ s entries name n, files.place path = .ok (s, entries, some name) ∧
      name.utf8ByteSize ≤ Path.longestName ∧ entries.lookup name = some n ∧
      (∀ es, n ≠ .directory es) ∧
      later = { files with top := files.rebuild s (entries.filter (·.1 ≠ name)) } := by
  obtain ⟨⟨s, entries, name⟩, hplace, h⟩ := bind_eq_ok_iff.1 h
  cases name with
  | none => cases h
  | some name =>
    obtain ⟨found, hlook, h⟩ := bind_eq_ok_iff.1 h
    obtain ⟨hshort, hlookup⟩ := look_eq_ok_iff.1 hlook
    cases found with
    | none => cases h
    | some n =>
      refine ⟨s, entries, name, n, hplace, hshort, hlookup, ?_⟩
      cases n with
      | directory => cases h
      | file | program | device | link =>
        refine ⟨?_, (Except.ok.inj h).symm⟩
        rintro _ ⟨⟩

/-- **What was removed is not found any more.** -/
theorem find_of_remove (hsound : files.Sound) (hfile : files.isDirectory path = false)
    (h : files.remove path = .ok later) :
    files.Keeps later ∧ later.find path = .error .notFound := by
  obtain ⟨s, entries, name, n, hplace, hshort, hlookup, hdirectory, rfl⟩ := remove_cases h
  -- a link leads to a directory, so that it is none
  have hlink : ∀ target, n ≠ .link target := by
    rintro target rfl
    obtain ⟨names, _, _, hs, -, -⟩ := (Keeps.refl files).exists_place hsound hplace
    obtain ⟨-, -, -, -, -, -, hnode⟩ := place_eq_ok_iff.1 hplace
    obtain ⟨es, hes⟩ := hsound.link _ _ ((hs.at?_concat hnode name).trans hlookup)
    obtain ⟨es', hes'⟩ := (Reaches.spot hes).directory
    have hfind := find_land hplace hshort hlookup fun _ => ⟨es', hes'⟩
    rw [isDirectory_eq_true.2 ⟨es', hfind.trans (congrArg Except.ok hes')⟩] at hfile
    cases hfile
  have hk : Node.Keeps (Node.directory entries).at?
      (Node.directory (entries.filter (·.1 ≠ name))).at? := by
    refine .of_entries fun k => ?_
    rw [Entries.lookup_filter]
    split
    · next hname =>
      subst hname
      refine .of_plain (fun m hm => ?_) nofun
      obtain rfl : n = m := Option.some.inj (hlookup.symm.trans hm)
      exact ⟨hdirectory, hlink⟩
    · exact .refl _
  obtain ⟨hkeeps, s', es, hplace', hfree⟩ := exists_changed hsound hplace hk
  rw [Entries.lookup_filter, if_pos rfl] at hfree
  exact ⟨hkeeps, find_of_free hplace' hshort hfree⟩

/-! ## A usual machine -/

theorem sound_root : (⟨root, []⟩ : Files).Sound := by
  refine .of_targets ⟨root, rfl⟩ ?_
  have hall : ∀ target ∈ ["bin", "lib", "lib64", "sbin"].map (["usr", ·]),
      ∃ entries, (⟨root, []⟩ : Files).tree.at? target = some (.directory entries) := by
    simp only [List.map_cons, List.map_nil, List.forall_mem_cons]
    exact ⟨⟨_, rfl⟩, ⟨_, rfl⟩, ⟨_, rfl⟩, ⟨_, rfl⟩, List.forall_mem_nil _⟩
  exact hall

/-- A usual machine is sound if there is the directory in which relative paths start. -/
theorem sound_usual {workplace : String} (h : ∃ entries,
    (usual workplace).tree.at? (Path.names workplace) = some (.directory entries)) :
    (usual workplace).Sound :=
  ⟨h, (sound_root.keeps (keeps_makeDirectories sound_root workplace)).link⟩

end Files

end HybridAccess.Host
