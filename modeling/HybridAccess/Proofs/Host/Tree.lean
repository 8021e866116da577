/-
  HybridAccess — where paths lead in a tree that changes.

  `Node.at?` goes along plain names. The places that a walk passes stand in the
  tree under such names (`Stands`), and a change of a directory is seen under
  its names (`at?_rebuild`). A tree is `Sound` if paths can start and links lead
  to directories. Another tree that `Keeps` its directories and links is passed
  in the same way: `exists_place` says that a path leads to a place of the same
  names there, although what stands at the places may have changed.
-/
import HybridAccess.Host.Files

namespace HybridAccess.Host

theorem bind_eq_ok_iff {α β : Type} {first : Except Failure α} {next : α → Except Failure β}
    {b : β} : first >>= next = .ok b ↔ ∃ a, first = .ok a ∧ next a = .ok b := by
  cases first <;> simp [bind, Except.bind]

/-! ## Names in a tree -/

namespace Node

/-- What stands under names from a node. Links are not followed. -/
def at? : Node → List String → Option Node
  | n, [] => some n
  | .directory entries, name :: names => (entries.lookup name).bind fun n => n.at? names
  | _, _ :: _ => none

@[simp] theorem at?_nil (n : Node) : n.at? [] = some n := by cases n <;> rfl

@[simp] theorem at?_directory_cons (entries : Entries) (name : String) (names : List String) :
    (directory entries).at? (name :: names) = (entries.lookup name).bind (·.at? names) := rfl

theorem at?_append (n : Node) (names names' : List String) :
    n.at? (names ++ names') = (n.at? names).bind (·.at? names') := by
  induction names generalizing n with
  | nil => rw [List.nil_append, at?_nil, Option.bind_some]
  | cons name names ih =>
    cases n with
    | directory entries =>
      rw [List.cons_append, at?_directory_cons, at?_directory_cons, Option.bind_assoc]
      simp only [ih]
    | file | program | device | link => rfl

/-- What stands under some names of a tree stays a directory or a link of another tree if it is
one, and the other tree has no further links. -/
structure Keeps (before after : List String → Option Node) : Prop where
  directory : ∀ names entries, before names = some (.directory entries) →
    ∃ entries', after names = some (.directory entries')
  link : ∀ names target, before names = some (.link target) ↔ after names = some (.link target)

namespace Keeps

variable {f g h : List String → Option Node} {entries entries' : Entries}

theorem refl (f : List String → Option Node) : Keeps f f := ⟨fun _ es h => ⟨es, h⟩, fun _ _ => .rfl⟩

theorem trans (h₁ : Keeps f g) (h₂ : Keeps g h) : Keeps f h := by
  refine ⟨fun names entries hf => ?_, fun names target => (h₁.link names target).trans (h₂.link ..)⟩
  obtain ⟨entries', hg⟩ := h₁.directory names entries hf
  exact h₂.directory names entries' hg

/-- Directories are compared entry by entry. -/
theorem of_entries (h : ∀ name, Keeps (fun names => (entries.lookup name).bind (·.at? names))
    fun names => (entries'.lookup name).bind (·.at? names)) :
    Keeps (Node.directory entries).at? (Node.directory entries').at? := by
  refine ⟨fun names es hes => ?_, fun names target => ?_⟩
  · cases names with
    | nil => exact ⟨entries', rfl⟩
    | cons name names => exact (h name).directory names es hes
  · cases names with
    | nil => simp
    | cons name names => exact (h name).link names target

/-- One entry changes, and keeps what is below it. -/
theorem set {name : String} {n : Node}
    (h : Keeps (fun names => (entries.lookup name).bind (·.at? names)) n.at?) :
    Keeps (Node.directory entries).at? (Node.directory (entries.set name n)).at? := by
  refine of_entries fun k => ?_
  rw [Entries.lookup_set]
  split
  · next hk =>
    subst hk
    exact h
  · exact refl _

end Keeps

mutual

/-- Where the links from a node on lead. -/
def targets : Node → List (List String)
  | link target => [target]
  | directory entries => targetsOf entries
  | file _ | program _ | device _ => []

/-- Where the links below a directory lead. -/
def targetsOf : List (String × Node) → List (List String)
  | [] => []
  | (_, n) :: rest => n.targets ++ targetsOf rest

end

theorem mem_targetsOf {entries : Entries} {name : String} {n : Node}
    (h : entries.lookup name = some n) {target : List String} (ht : target ∈ n.targets) :
    target ∈ targetsOf entries := by
  induction entries with
  | nil => cases h
  | cons e rest ih =>
    obtain ⟨k, m⟩ := e
    rw [Entries.lookup_cons] at h
    rw [targetsOf, List.mem_append]
    split at h
    · cases h
      exact Or.inl ht
    · exact Or.inr (ih h)

theorem mem_targets {n : Node} {names target : List String}
    (h : n.at? names = some (.link target)) : target ∈ n.targets := by
  induction names generalizing n with
  | nil =>
    rw [at?_nil] at h
    cases h
    exact List.mem_singleton_self target
  | cons name names ih =>
    cases n with
    | directory entries =>
      obtain ⟨m, hlookup, hm⟩ := Option.bind_eq_some_iff.1 h
      exact mem_targetsOf hlookup (ih hm)
    | file | program | device | link => cases h

end Node

namespace Files

variable {files later : Files} {s t : Spot} {entries : Entries} {name path : String} {n : Node}
  {names target : List String}

/-- The whole tree, from the root on. -/
def tree (files : Files) : Node := .directory files.top

/-- The names from the root to a place. -/
def namesOf (s : Spot) : List String := (s.map Prod.fst).reverse

@[simp] theorem namesOf_cons (name : String) (n : Node) (s : Spot) :
    namesOf ((name, n) :: s) = namesOf s ++ [name] := List.reverse_cons

theorem namesOf_tail (s : Spot) : namesOf s.tail = (namesOf s).dropLast := by
  cases s with
  | nil => rfl
  | cons e s => rw [namesOf_cons, List.dropLast_concat, List.tail_cons]

theorem entries?_eq_some_iff : files.entries? s = some entries ↔
    files.node s = .directory entries := by
  rw [entries?]
  cases files.node s <;> simp

/-- A place at which everything stands in the tree as it was passed. -/
def Stands (files : Files) : Spot → Prop
  | [] => True
  | (name, n) :: above =>
    files.Stands above ∧ ∃ entries, files.node above = .directory entries ∧
      entries.lookup name = some n

theorem Stands.tail (h : files.Stands s) : files.Stands s.tail := by
  cases s with
  | nil => exact h
  | cons e s => exact h.1

theorem Stands.at? (h : files.Stands s) : files.tree.at? (namesOf s) = some (files.node s) := by
  induction s with
  | nil => exact Node.at?_nil _
  | cons e s ih =>
    obtain ⟨hs, entries, hnode, hlookup⟩ := h
    rw [namesOf_cons, Node.at?_append, ih hs, hnode]
    simp [hlookup, node]

/-- From a place that stands, names are followed as far as they lead to directories. -/
theorem spot_from (hs : files.Stands s) (h : (files.node s).at? names = some (.directory entries)) :
    let s' := names.foldl (fun s name =>
      match (files.entries? s).bind (·.lookup name) with
      | some n => (name, n) :: s
      | none => s) s
    files.Stands s' ∧ namesOf s' = namesOf s ++ names ∧ files.node s' = .directory entries := by
  induction names generalizing s with
  | nil =>
    rw [Node.at?_nil] at h
    exact ⟨hs, (List.append_nil _).symm, Option.some.inj h⟩
  | cons name names ih =>
    cases hnode : files.node s with
    | directory es =>
      rw [hnode, Node.at?_directory_cons, Option.bind_eq_some_iff] at h
      obtain ⟨n, hlookup, hn⟩ := h
      have hstep : (files.entries? s).bind (·.lookup name) = some n := by
        rw [entries?_eq_some_iff.2 hnode]
        exact hlookup
      have hrest := @ih ((name, n) :: s) ⟨hs, es, hnode, hlookup⟩ hn
      rw [namesOf_cons, List.append_assoc] at hrest
      rw [List.foldl_cons, hstep]
      exact hrest
    | file | program | device | link => rw [hnode] at h; cases h

/-! ## Sound trees -/

/-- Relative paths start in a directory, and all links lead to directories. -/
structure Sound (files : Files) : Prop where
  here : ∃ entries, files.tree.at? files.here = some (.directory entries)
  link : ∀ names target, files.tree.at? names = some (.link target) →
    ∃ entries, files.tree.at? target = some (.directory entries)

/-- The links of a tree can be listed. -/
theorem Sound.of_targets (hhere : ∃ entries, files.tree.at? files.here = some (.directory entries))
    (hlink : ∀ target ∈ files.tree.targets,
      ∃ entries, files.tree.at? target = some (.directory entries)) : files.Sound :=
  ⟨hhere, fun _ target h => hlink target (Node.mem_targets h)⟩

/-- Another tree keeps the directories and the links of a tree, and has no further links. -/
structure Keeps (files later : Files) : Prop where
  here : later.here = files.here
  tree : Node.Keeps files.tree.at? later.tree.at?

theorem Keeps.refl (files : Files) : files.Keeps files := ⟨rfl, .refl _⟩

theorem Keeps.trans {last : Files} (h : files.Keeps later) (h' : later.Keeps last) :
    files.Keeps last := ⟨h'.here.trans h.here, h.tree.trans h'.tree⟩

theorem Sound.keeps (h : files.Sound) (hk : files.Keeps later) : later.Sound := by
  refine ⟨?_, fun names target hlink => ?_⟩
  · obtain ⟨entries, he⟩ := h.here
    rw [hk.here]
    exact hk.tree.directory _ _ he
  · obtain ⟨entries, he⟩ := h.link names target ((hk.tree.link names target).2 hlink)
    exact hk.tree.directory _ _ he

/-! ## Changing a directory -/

/-- What stands behind the names of a directory that is changed is what the directory then holds. -/
theorem at?_rebuild (files : Files) (s : Spot) (entries : Entries) (names : List String) :
    (Node.directory (files.rebuild s entries)).at? (namesOf s ++ names) =
      (Node.directory entries).at? names := by
  induction s generalizing entries names with
  | nil => rfl
  | cons e s ih =>
    obtain ⟨name, n⟩ := e
    rw [namesOf_cons, List.append_assoc, List.singleton_append, rebuild, ih,
      Node.at?_directory_cons, Entries.lookup_set, if_pos rfl, Option.bind_some]

/-- A tree is kept if the directory that is changed keeps what is below it. -/
theorem Stands.keeps_rebuild {entries' : Entries} (h : files.Stands s)
    (hnode : files.node s = .directory entries)
    (hk : Node.Keeps (Node.directory entries).at? (Node.directory entries').at?) :
    files.Keeps { files with top := files.rebuild s entries' } := by
  refine ⟨rfl, ?_⟩
  induction s generalizing entries entries' with
  | nil =>
    cases hnode
    exact hk
  | cons e s ih =>
    obtain ⟨hs, es, habove, hlookup⟩ := h
    have hnode' : e.2 = .directory entries := hnode
    rw [rebuild, entries?_eq_some_iff.2 habove]
    refine ih hs habove (.set ?_)
    rw [hlookup, hnode']
    exact hk

/-! ## Walking -/

/-- A name of something in a directory. -/
structure IsName (name : String) : Prop where
  ne_here : name ≠ "."
  ne_above : name ≠ ".."
  short : name.utf8ByteSize ≤ Path.longestName

/-- The place of what was found under a name. -/
def land (files : Files) (s : Spot) (name : String) : Node → Spot
  | .link target => files.spot target
  | n => (name, n) :: s

/-- **A step leads out of a directory: nowhere, up, or to what stands there under the name.** -/
theorem step_eq_ok_iff : files.step s name = .ok t ↔
    ∃ entries, files.node s = .directory entries ∧
      ((name = "." ∧ t = s) ∨ (name = ".." ∧ t = s.tail) ∨
        IsName name ∧ ∃ n, entries.lookup name = some n ∧ t = files.land s name n) := by
  unfold step
  cases he : files.entries? s with
  | none =>
    refine iff_of_false nofun ?_
    rintro ⟨entries, hnode, -⟩
    rw [entries?_eq_some_iff.2 hnode] at he
    cases he
  | some entries =>
    simp only [entries?_eq_some_iff.1 he, Node.directory.injEq, exists_eq_left']
    split
    · next h =>
      subst h
      have hnot : ¬ IsName "." := fun h => h.ne_here rfl
      simp [hnot, eq_comm]
    · next hhere =>
      split
      · next h =>
        subst h
        have hnot : ¬ IsName ".." := fun h => h.ne_above rfl
        simp [hnot, eq_comm]
      · next habove =>
        simp only [hhere, habove, false_and, false_or]
        split
        · next hlong =>
          exact iff_of_false nofun fun h => absurd h.1.short (Nat.not_le.2 hlong)
        · next hshort =>
          rw [and_iff_right ⟨hhere, habove, Nat.not_lt.1 hshort⟩]
          cases entries.lookup name with
          | none => simp
          | some n => cases n <;> simp [land, eq_comm]

theorem walk_cons_eq_ok_iff : files.walk s (name :: names) = .ok t ↔
    ∃ u, files.step s name = .ok u ∧ files.walk u names = .ok t := by
  rw [walk, List.foldlM_cons, bind_eq_ok_iff]
  rfl

theorem walk_concat_eq_ok_iff : files.walk s (names ++ [name]) = .ok t ↔
    ∃ u, files.walk s names = .ok u ∧ files.step u name = .ok t := by
  simp only [walk, List.foldlM_append, List.foldlM_cons, List.foldlM_nil, bind_pure, bind_eq_ok_iff]

/-- A walk to a directory comes from one. -/
theorem directory_of_walk (h : files.walk s names = .ok t)
    (ht : ∃ entries, files.node t = .directory entries) :
    ∃ entries, files.node s = .directory entries := by
  cases names with
  | nil =>
    cases h
    exact ht
  | cons name names =>
    obtain ⟨u, hstep, -⟩ := walk_cons_eq_ok_iff.1 h
    obtain ⟨entries, hnode, -⟩ := step_eq_ok_iff.1 hstep
    exact ⟨entries, hnode⟩

/-- There is a directory at a place, which stands in the tree under some names. -/
structure Reaches (files : Files) (s : Spot) (names : List String) : Prop where
  stands : files.Stands s
  names : namesOf s = names
  directory : ∃ entries, files.node s = .directory entries

namespace Reaches

theorem root (files : Files) : files.Reaches [] [] := ⟨trivial, rfl, files.top, rfl⟩

theorem spot (h : files.tree.at? target = some (.directory entries)) :
    files.Reaches (files.spot target) target := by
  have hroot : files.Stands [] := trivial
  obtain ⟨hs, hnames, hnode⟩ := spot_from hroot h
  exact ⟨hs, hnames, entries, hnode⟩

theorem tail (h : files.Reaches s names) : files.Reaches s.tail names.dropLast := by
  refine ⟨h.stands.tail, by rw [namesOf_tail, h.names], ?_⟩
  cases s with
  | nil => exact h.directory
  | cons e s =>
    obtain ⟨-, entries, hnode, -⟩ := h.stands
    exact ⟨entries, hnode⟩

/-- What stands under one more name is what the directory holds under it. -/
theorem at?_concat (h : files.Reaches s names) (hnode : files.node s = .directory entries)
    (name : String) : files.tree.at? (names ++ [name]) = entries.lookup name := by
  rw [Node.at?_append, ← h.names, h.stands.at?, hnode, Option.bind_some, Node.at?_directory_cons]
  simp only [Node.at?_nil, Option.bind_fun_some]

theorem land (h : files.Reaches s names) {es : Entries} (hnode : files.node s = .directory es)
    (hlookup : es.lookup name = some (.directory entries)) :
    files.Reaches ((name, .directory entries) :: s) (names ++ [name]) :=
  ⟨⟨h.stands, es, hnode, hlookup⟩, by rw [namesOf_cons, h.names], entries, rfl⟩

end Reaches

/-! ## Two trees side by side -/

section
variable {s' : Spot}

/-- **In a tree that is kept, a step to a directory leads under the same names.** -/
theorem Keeps.exists_step (hk : files.Keeps later) (hsound : files.Sound)
    (h : files.Reaches s names) (h' : later.Reaches s' names) (hstep : files.step s name = .ok t)
    (ht : ∃ entries, files.node t = .directory entries) :
    ∃ names' t', files.Reaches t names' ∧ later.step s' name = .ok t' ∧
      later.Reaches t' names' := by
  obtain ⟨entries', hnode'⟩ := h'.directory
  obtain ⟨entries, hnode, ⟨rfl, rfl⟩ | ⟨rfl, rfl⟩ | ⟨hname, n, hlookup, rfl⟩⟩ :=
    step_eq_ok_iff.1 hstep
  · exact ⟨names, s', h, step_eq_ok_iff.2 ⟨entries', hnode', Or.inl ⟨rfl, rfl⟩⟩, h'⟩
  · exact ⟨_, s'.tail, h.tail, step_eq_ok_iff.2 ⟨entries', hnode', Or.inr (Or.inl ⟨rfl, rfl⟩)⟩,
      h'.tail⟩
  · have hn : files.tree.at? (names ++ [name]) = some n := (h.at?_concat hnode name).trans hlookup
    have hlater := h'.at?_concat hnode' name
    have hnext : ∀ n', entries'.lookup name = some n' →
        later.step s' name = .ok (later.land s' name n') := fun n' hn' =>
      step_eq_ok_iff.2 ⟨entries', hnode', Or.inr (Or.inr ⟨hname, n', hn', rfl⟩)⟩
    cases n with
    | directory es =>
      obtain ⟨es', hes'⟩ := hk.tree.directory _ _ hn
      rw [hes'] at hlater
      exact ⟨_, _, h.land hnode hlookup, hnext _ hlater.symm, h'.land hnode' hlater.symm⟩
    | link target =>
      obtain ⟨es, hes⟩ := hsound.link _ _ hn
      obtain ⟨es', hes'⟩ := hk.tree.directory _ _ hes
      rw [(hk.tree.link _ _).1 hn] at hlater
      exact ⟨target, _, .spot hes, hnext _ hlater.symm, .spot hes'⟩
    | file | program | device =>
      obtain ⟨es, hes⟩ := ht
      cases hes

theorem Keeps.exists_walk {way : List String} (hk : files.Keeps later) (hsound : files.Sound)
    (h : files.Reaches s names) (h' : later.Reaches s' names) (hwalk : files.walk s way = .ok t)
    (ht : ∃ entries, files.node t = .directory entries) :
    ∃ names' t', files.Reaches t names' ∧ later.walk s' way = .ok t' ∧
      later.Reaches t' names' := by
  induction way generalizing s s' names with
  | nil =>
    cases hwalk
    exact ⟨names, s', h, rfl, h'⟩
  | cons name way ih =>
    obtain ⟨u, hstep, hrest⟩ := walk_cons_eq_ok_iff.1 hwalk
    obtain ⟨names₁, u', hu, hstep', hu'⟩ :=
      hk.exists_step hsound h h' hstep (directory_of_walk hrest ht)
    obtain ⟨names₂, t', ht₂, hrest', ht₂'⟩ := ih hu hu' hrest
    exact ⟨names₂, t', ht₂, walk_cons_eq_ok_iff.2 ⟨u', hstep', hrest'⟩, ht₂'⟩

theorem Keeps.exists_start (hk : files.Keeps later) (hsound : files.Sound) (path : String) :
    ∃ names, files.Reaches (files.start path) names ∧ later.Reaches (later.start path) names := by
  unfold start
  split
  · exact ⟨[], .root files, .root later⟩
  · obtain ⟨entries, hhere⟩ := hsound.here
    obtain ⟨entries', hhere'⟩ := hk.tree.directory _ _ hhere
    rw [hk.here]
    exact ⟨_, .spot hhere, .spot hhere'⟩

end

/-! ## Places -/

/-- What a path leads to has a place if all names but the last one lead to a directory. -/
theorem place_eq_ok_iff : files.place path = .ok (s, entries, some name) ↔
    Path.check path = .ok () ∧ ∃ names, Path.names path = names ++ [name] ∧ name ≠ "." ∧
      name ≠ ".." ∧ files.walk (files.start path) names = .ok s ∧
      files.node s = .directory entries := by
  have hlast : (Path.names path).getLast?.filter (fun n => n ≠ "." && n ≠ "..") = some name ↔
      ∃ names, Path.names path = names ++ [name] ∧ name ≠ "." ∧ name ≠ ".." := by
    simp [Option.filter_eq_some_iff, List.getLast?_eq_some_iff]
  constructor
  · intro h
    obtain ⟨_, hcheck, h⟩ := bind_eq_ok_iff.1 h
    obtain ⟨u, hwalk, h⟩ := bind_eq_ok_iff.1 h
    split at h
    · cases h
    · next es he =>
      simp only [pure, Except.pure, Except.ok.injEq, Prod.mk.injEq] at h
      obtain ⟨rfl, rfl, hname⟩ := h
      obtain ⟨names, hnames, hhere, habove⟩ := hlast.1 hname
      rw [hnames, List.dropLast_concat] at hwalk
      exact ⟨hcheck, names, hnames, hhere, habove, hwalk, entries?_eq_some_iff.1 he⟩
  · rintro ⟨hcheck, names, hnames, hhere, habove, hwalk, hnode⟩
    refine bind_eq_ok_iff.2 ⟨(), hcheck, bind_eq_ok_iff.2 ⟨s, ?_, ?_⟩⟩
    · rw [hnames, List.dropLast_concat]
      exact hwalk
    · rw [entries?_eq_some_iff.2 hnode, hlast.2 ⟨names, hnames, hhere, habove⟩]
      rfl

/-- **In a tree that is kept, what a path leads to has its place under the same names.** -/
theorem Keeps.exists_place (hk : files.Keeps later) (hsound : files.Sound)
    (h : files.place path = .ok (s, entries, some name)) :
    ∃ names s' entries', files.Reaches s names ∧
      later.place path = .ok (s', entries', some name) ∧ later.Reaches s' names := by
  obtain ⟨hcheck, way, hnames, hhere, habove, hwalk, hnode⟩ := place_eq_ok_iff.1 h
  obtain ⟨names₀, hstart, hstart'⟩ := hk.exists_start hsound path
  obtain ⟨names, s', hs, hwalk', hs'⟩ :=
    hk.exists_walk hsound hstart hstart' hwalk ⟨entries, hnode⟩
  obtain ⟨entries', hnode'⟩ := hs'.directory
  exact ⟨names, s', entries', hs,
    place_eq_ok_iff.2 ⟨hcheck, way, hnames, hhere, habove, hwalk', hnode'⟩, hs'⟩

/-- What a path leads to is what stands at its place, or where the link leads that stands there. -/
theorem find_land (h : files.place path = .ok (s, entries, some name))
    (hshort : name.utf8ByteSize ≤ Path.longestName) (hlookup : entries.lookup name = some n)
    (hslash : Path.endsInSlash path = true →
      ∃ es, files.node (files.land s name n) = .directory es) :
    files.find path = .ok (files.node (files.land s name n)) := by
  obtain ⟨hcheck, way, hnames, hhere, habove, hwalk, hnode⟩ := place_eq_ok_iff.1 h
  have hfound : files.walk (files.start path) (Path.names path) = .ok (files.land s name n) := by
    rw [hnames, walk_concat_eq_ok_iff]
    exact ⟨s, hwalk, step_eq_ok_iff.2 ⟨entries, hnode, Or.inr (Or.inr
      ⟨⟨hhere, habove, hshort⟩, n, hlookup, rfl⟩)⟩⟩
  have hfits : ¬ (Path.endsInSlash path = true ∧
      files.entries? (files.land s name n) = none) := by
    rintro ⟨hend, hnone⟩
    obtain ⟨es, hes⟩ := hslash hend
    rw [entries?_eq_some_iff.2 hes] at hnone
    cases hnone
  refine bind_eq_ok_iff.2 ⟨(), hcheck, bind_eq_ok_iff.2 ⟨_, hfound, ?_⟩⟩
  rw [if_neg hfits]
  rfl

theorem find_of_place (h : files.place path = .ok (s, entries, some name))
    (hshort : name.utf8ByteSize ≤ Path.longestName) (hlookup : entries.lookup name = some n)
    (hn : ∀ target, n ≠ .link target)
    (hslash : Path.endsInSlash path = true → ∃ es, n = .directory es) : files.find path = .ok n := by
  have hnode : files.node (files.land s name n) = n := by
    cases n with
    | link target => exact absurd rfl (hn target)
    | file | program | device | directory => rfl
  rw [find_land h hshort hlookup (by rwa [hnode]), hnode]

/-- Nothing is found where nothing stands. -/
theorem find_of_free (h : files.place path = .ok (s, entries, some name))
    (hshort : name.utf8ByteSize ≤ Path.longestName) (hlookup : entries.lookup name = none) :
    files.find path = .error .notFound := by
  obtain ⟨hcheck, way, hnames, hhere, habove, hwalk, hnode⟩ := place_eq_ok_iff.1 h
  have hstep : files.step s name = .error .notFound := by
    rw [step, entries?_eq_some_iff.2 hnode]
    simp only [hhere, habove, Nat.not_lt.2 hshort, if_false, hlookup]
  have hlost : files.walk (files.start path) (Path.names path) = .error .notFound := by
    rw [hnames, walk, List.foldlM_append, ← walk, hwalk]
    exact congrArg (· >>= pure) hstep
  rw [find, hcheck]
  simp only [bind, Except.bind, hlost]

end Files

end HybridAccess.Host
