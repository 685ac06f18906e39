import EnvoyFiles.Io.Disk

/-!
# A directory with at most one file

The smallest disk in which a directory exists: the directories that lead to it, of which only
it can be opened.  In it there may be one file.
-/

namespace EnvoyFiles

open PathTree

/-- The names of a corridor. -/
structure Corridor where
  target : Location
  file : Option String
  plain : ∀ name ∈ target, PlainName name
  plainFile : ∀ name ∈ file, PlainName name

namespace Corridor

/-- A corridor to an empty directory. -/
def empty {target : Location} (plain : ∀ name ∈ target, PlainName name) : Corridor :=
  ⟨target, none, plain, nofun⟩

/-- A corridor to a directory with one file. -/
def holding {target : Location} {name : String} (plain : ∀ name ∈ target, PlainName name)
    (plainFile : PlainName name) : Corridor :=
  ⟨target, some name, plain, fun _ hname => Option.mem_some.mp hname ▸ plainFile⟩

def tree (corridor : Corridor) : Tree String RegularFile Directory := fun location =>
  if location <+: corridor.target then
    some (.directory ⟨0, .ok 0⟩)
  else if corridor.file.any fun name => location = corridor.target ++ [name] then
    some (.file ⟨[], .ok 0⟩)
  else
    none

/-- The names in a directory on the way or at its end. -/
def names (corridor : Corridor) (location : Location) : List String :=
  if location = corridor.target then corridor.file.toList
  else if location <+: corridor.target then (corridor.target.drop location.length).take 1
  else []

section Tree

variable {corridor : Corridor} {location : Location} {name : String}

theorem tree_directory (h : location <+: corridor.target) :
    corridor.tree location = some (.directory ⟨0, .ok 0⟩) :=
  if_pos h

theorem tree_file (h : name ∈ corridor.file) :
    corridor.tree (corridor.target ++ [name]) = some (.file ⟨[], .ok 0⟩) := by
  rw [tree]
  rw [if_neg, if_pos]
  · rw [Option.any_eq_true]
    exact ⟨name, h, decide_eq_true rfl⟩
  · intro hway
    have hlength := hway.length_le
    rw [List.length_append, List.length_singleton] at hlength
    omega

/-- What exists is a directory on the way, or the file. -/
theorem tree_isSome (h : (corridor.tree location).isSome = true) :
    location <+: corridor.target ∨
      ∃ name ∈ corridor.file, location = corridor.target ++ [name] := by
  rw [tree] at h
  split at h
  · next hway => exact Or.inl hway
  · split at h
    · next hfile =>
        obtain ⟨name, hname, heq⟩ := Option.any_eq_true _ _ |>.mp hfile
        exact Or.inr ⟨name, hname, of_decide_eq_true heq⟩
    · nomatch h

theorem tree_linkFree (corridor : Corridor) : LinkFree corridor.tree := by
  intro location
  rw [tree]
  split
  · rfl
  · split <;> rfl

theorem tree_isDirectory :
    (corridor.tree location).any Node.isDirectory = true ↔ location <+: corridor.target := by
  rw [tree]
  split
  · next h => exact ⟨fun _ => h, fun _ => rfl⟩
  · next h =>
      refine ⟨fun hdirectory => ?_, fun hway => absurd hway h⟩
      split at hdirectory <;> nomatch hdirectory

theorem mem_names (h : location <+: corridor.target) :
    name ∈ corridor.names location ↔ (corridor.tree (location ++ [name])).isSome = true := by
  by_cases hend : location = corridor.target
  · rw [names, if_pos hend, Option.mem_toList, hend]
    constructor
    · intro hname
      rw [tree_file hname]
      rfl
    · intro hsome
      rcases tree_isSome hsome with hway | ⟨name', hname', heq⟩
      · have hlength := hway.length_le
        rw [List.length_append, List.length_singleton] at hlength
        omega
      · cases List.append_cancel_left heq
        exact hname'
  · obtain ⟨rest, htarget⟩ := h
    cases rest with
    | nil => exact absurd ((List.append_nil _).symm.trans htarget) hend
    | cons first more =>
        have hway : location <+: corridor.target := ⟨first :: more, htarget⟩
        rw [names, if_neg hend, if_pos hway, ← htarget, List.drop_left, List.take_succ_cons,
          List.take_zero, List.mem_singleton]
        constructor
        · rintro rfl
          rw [tree_directory ⟨more, by rw [← htarget, List.append_assoc]; rfl⟩]
          rfl
        · intro hsome
          rcases tree_isSome hsome with hbelow | ⟨name', -, heq⟩
          · rw [← htarget, List.prefix_append_right_inj] at hbelow
            exact (List.cons_prefix_cons.mp hbelow).1
          · rw [← htarget, List.append_assoc] at heq
            have hlength := congrArg List.length (List.append_cancel_left heq)
            simp at hlength

theorem names_nodup (corridor : Corridor) (location : Location) :
    (corridor.names location).Nodup := by
  rw [names]
  split
  · cases corridor.file with
    | none => exact List.nodup_nil
    | some name => exact List.pairwise_singleton _ name
  · split
    · cases corridor.target.drop location.length with
      | nil => exact List.nodup_nil
      | cons first more => exact List.pairwise_singleton _ first
    · exact List.nodup_nil

theorem names_plain (hname : name ∈ corridor.names location) : PlainName name := by
  rw [names] at hname
  split at hname
  · exact corridor.plainFile name (Option.mem_toList.mp hname)
  · split at hname
    · exact corridor.plain name (List.mem_of_mem_drop (List.mem_of_mem_take hname))
    · nomatch hname

end Tree

/-- The disk of a corridor; only its last directory can be opened. -/
def disk (corridor : Corridor) : Disk where
  tree := corridor.tree
  linkFree := corridor.tree_linkFree
  openError location :=
    if location <+: corridor.target ∧ location ≠ corridor.target then
      some ⟨.permissionDenied, some 13⟩
    else
      none
  names := corridor.names
  names_nodup := corridor.names_nodup
  mem_names _ _ h := mem_names (tree_isDirectory.mp h)
  names_plain _ _ := names_plain

section Disk

variable {corridor : Corridor} {location root : Location} {path : PathBuf} {name : String}

theorem disk_isDirectory :
    corridor.disk.os.isDirectory location = true ↔ location <+: corridor.target :=
  tree_isDirectory

theorem descend_directory (h : location <+: corridor.target) :
    descend corridor.tree [] location = .ok location := by
  apply descend_through
  intro below name hbelow
  refine ⟨?_, ?_⟩
  · rw [List.nil_append, tree_isDirectory]
    exact ((List.prefix_append below [name]).trans hbelow).trans h
  · rw [List.nil_append, tree_directory (hbelow.trans h)]
    rfl

theorem descend_file (h : name ∈ corridor.file) :
    descend corridor.tree [] (corridor.target ++ [name]) = .ok (corridor.target ++ [name]) := by
  have hdirectory : (corridor.tree corridor.target).any Node.isDirectory = true :=
    tree_isDirectory.mpr List.prefix_rfl
  have hsome : (corridor.tree (corridor.target ++ [name])).isSome = true := by
    rw [tree_file h]
    rfl
  rw [descend_append (descend_directory List.prefix_rfl), descend, if_pos hdirectory,
    if_pos hsome, descend]

/-- Every directory on the way can be a root. -/
theorem canonicalRoot (h : root <+: corridor.target) :
    CanonicalRoot corridor.disk.os (PathBuf.ofLocation root) root := by
  have hplain : ∀ name ∈ root, PlainName name :=
    fun name hname => corridor.plain name (h.subset hname)
  have hcomponents := PathBuf.components_ofLocation hplain
  refine ⟨hplain, rfl, ?_⟩
  have hup : ".." ∉ (PathBuf.ofLocation root).components := by
    rw [hcomponents]
    exact fun hmem => (hplain _ hmem).ne_parent rfl
  rw [Disk.canonicalize_eq hup]
  rw [Disk.walkTo]
  rw [hcomponents, show corridor.disk.tree = corridor.tree from rfl, descend_directory h]
  dsimp only
  rw [disk_isDirectory.mpr h, Bool.not_true, Bool.and_false, if_neg Bool.false_ne_true]

/-- The end of the corridor opens. -/
theorem locate_target (h : path.components = corridor.target) :
    corridor.disk.locate path = .ok corridor.target := by
  rw [Disk.locate, Disk.walkTo]
  rw [h, show corridor.disk.tree = corridor.tree from rfl, descend_directory List.prefix_rfl]
  dsimp only
  rw [disk_isDirectory.mpr List.prefix_rfl, Bool.not_true, Bool.and_false,
    if_neg Bool.false_ne_true]
  dsimp only [disk]
  rw [if_neg]
  exact fun hnot => hnot.2 rfl

theorem locate_file (hname : name ∈ corridor.file)
    (hpath : path.components = corridor.target ++ [name]) (hfile : path.requiresDirectory = false) :
    corridor.disk.locate path = .ok (corridor.target ++ [name]) := by
  rw [Disk.locate, Disk.walkTo]
  rw [hpath, show corridor.disk.tree = corridor.tree from rfl, descend_file hname]
  dsimp only
  rw [hfile, Bool.false_and, if_neg Bool.false_ne_true]
  dsimp only [disk]
  rw [if_neg]
  rintro ⟨hway, -⟩
  have hlength := hway.length_le
  rw [List.length_append, List.length_singleton] at hlength
  omega

/-- Nothing else opens. -/
theorem locate_eq_ok (h : corridor.disk.locate path = .ok location)
    (hsome : (corridor.tree location).isSome = true) :
    location = corridor.target ∨ ∃ name ∈ corridor.file, location = corridor.target ++ [name] := by
  rcases tree_isSome hsome with hway | hfile
  · left
    by_contra hne
    rw [Disk.locate] at h
    split at h
    · cases h
    · next found hfound =>
        dsimp only [disk] at h
        split at h
        · cases h
        · next hopens =>
            cases h
            rw [if_pos ⟨hway, hne⟩] at hopens
            cases hopens
  · exact Or.inr hfile

/-- The end of the corridor holds the file. -/
theorem readDir_target (hup : ".." ∉ path.components) (h : path.components = corridor.target) :
    Engine.readDir corridor.disk path =
      .ok (corridor.file.toList.map fun name => ⟨name, false, 0, 0⟩) := by
  rw [Engine.readDir]
  rw [Disk.openAt_eq hup, locate_target h]
  dsimp only
  rw [if_pos (disk_isDirectory.mpr List.prefix_rfl)]
  have hnames : corridor.disk.names corridor.target = corridor.file.toList := if_pos rfl
  rw [hnames]
  cases hfile : corridor.file with
  | none => rfl
  | some name =>
      have hnode : corridor.disk.os.tree (corridor.target ++ [name]) = some (.file ⟨[], .ok 0⟩) :=
        tree_file hfile
      have hentry : Engine.dirEntryInfo corridor.disk corridor.target name =
          some ⟨name, false, 0, 0⟩ := by
        rw [Engine.dirEntryInfo, Os.metadata]
        rw [hnode]
        rfl
      rw [Option.toList_some, List.filterMap_cons_some hentry]
      rfl

/-- A dotfile makes no difference outside of dotfiles. -/
theorem agree_holding {target : Location} {name : String}
    (plain : ∀ name ∈ target, PlainName name) (plainFile : PlainName name)
    (hroot : root <+: target) (hdot : name.toList.head? = some '.') :
    AgreeOutsideDotfiles root (empty plain).disk (holding plain plainFile).disk := by
  constructor
  · intro below hbelow
    change (empty plain).tree (root ++ below) = (holding plain plainFile).tree (root ++ below)
    simp only [tree]
    rw [show (empty plain).target = target from rfl,
      show (holding plain plainFile).target = target from rfl]
    split
    · rfl
    · rw [if_neg, if_neg]
      · intro hfile
        obtain ⟨name', hname, heq⟩ := (Option.any_eq_true _ _).mp hfile
        cases hname
        obtain ⟨rest, hrest⟩ := hroot
        rw [decide_eq_true_eq, ← hrest, List.append_assoc] at heq
        have hmem : name ∈ below := by
          rw [List.append_cancel_left heq]
          exact List.mem_append_cons_self
        exact hbelow name hmem hdot
      · nofun
  · intro below _
    rfl

end Disk

end Corridor

end EnvoyFiles
