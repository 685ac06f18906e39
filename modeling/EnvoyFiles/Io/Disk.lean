import EnvoyFiles.Io.Containment

/-!
# Filesystems without links

A disk is a filesystem without symbolic links, with the order in which its directories are
read.  What an open finds on it is decided by the nodes along the path.
-/

namespace EnvoyFiles

open PathTree

/-- A filesystem without symbolic links that does not change. -/
structure Disk where
  tree : Tree String RegularFile Directory
  linkFree : LinkFree tree
  /-- Why a file that exists cannot be opened, if it cannot. -/
  openError : Location → Option IoError
  /-- The names in a directory, in the order in which they are read. -/
  names : Location → List String
  names_nodup : ∀ location, (names location).Nodup
  mem_names : ∀ location name, (tree location).any Node.isDirectory = true →
    (name ∈ names location ↔ (tree (location ++ [name])).isSome)
  names_plain : ∀ location, ∀ name ∈ names location, PlainName name

namespace Disk

def os (disk : Disk) : Os :=
  { Os.ofTree disk.tree with openError := disk.openError }

/-- The locations that a path of names can be walked down to. -/
def walkTo (disk : Disk) (path : PathBuf) : Except IoError Location :=
  match descend disk.tree [] path.components with
  | .error fault => .error (lookupError fault)
  | .ok location =>
      if path.requiresDirectory && !disk.os.isDirectory location then
        .error (lookupError .notDirectory)
      else
        .ok location

end Disk

namespace Engine

/-- The entry of one name, as `read_dir` reports it; an entry whose metadata cannot be read
is left out. -/
def dirEntryInfo (disk : Disk) (location : Location) (name : String) : Option DirEntryInfo :=
  match disk.os.metadata (location ++ [name]) with
  | .ok metadata =>
      some ⟨name, metadata.isDir, metadata.len, (mtimeParts metadata.modified).1⟩
  | .error _ => none

/-- `read_dir`. -/
def readDir (disk : Disk) (path : PathBuf) : ReadDirResult :=
  match disk.os.openAt path false with
  | .error error => .error error
  | .ok location =>
      if disk.os.isDirectory location then
        .ok ((disk.names location).filterMap (dirEntryInfo disk location))
      else
        .error (lookupError .notDirectory)

end Engine

section Lookups

variable {disk : Disk} {path : PathBuf} {components : List String} {location : Location}

/-- A path that never goes up is made of names. -/
theorem lookupPath_names (hup : ".." ∉ components) :
    PathBuf.lookupPath components = components.map .name := by
  apply List.map_congr_left
  intro piece hpiece
  rw [if_neg]
  rintro rfl
  exact hup hpiece

theorem Disk.lookup_eq (hup : ".." ∉ components) :
    disk.os.lookup components =
      match descend disk.tree [] components with
      | .error fault => .error (lookupError fault)
      | .ok location => .ok location := by
  rw [Os.lookup]
  rw [lookupPath_names hup]
  have hnames : resolve disk.os.tree maxSymlinks [] (components.map .name) =
      descend disk.tree [] components :=
    resolve_names disk.linkFree maxSymlinks [] components
  cases hfound : descend disk.tree [] components with
  | error fault => simp only [hnames, hfound]
  | ok location => simp only [hnames, hfound]

/-- Full resolution walks down the names of the path. -/
theorem Disk.canonicalize_eq (hup : ".." ∉ path.components) :
    disk.os.canonicalize path = disk.walkTo path := by
  rw [Os.canonicalize, Disk.walkTo]
  rw [Disk.lookup_eq hup]
  cases descend disk.tree [] path.components <;> rfl

theorem Disk.walkTo_location (h : disk.walkTo path = .ok location) :
    location = path.components := by
  rw [Disk.walkTo] at h
  split at h
  · nomatch h
  · next found hfound =>
      split at h
      · nomatch h
      · cases h
        exact descend_location hfound

/-- No final name is a link. -/
theorem Disk.finalIsSymlink_eq (hup : ".." ∉ path.components) :
    disk.os.finalIsSymlink path = false := by
  rw [Os.finalIsSymlink]
  split
  · rfl
  · next last hlast =>
      have hmem : last ∈ path.components := List.mem_of_getLast? hlast
      have hne : last ≠ ".." := by
        rintro rfl
        exact hup hmem
      rw [if_neg hne]
      rw [lastIsSymlink]
      split
      · rfl
      · next here _ =>
          split
          · next start target hmove =>
              unfold move at hmove
              split at hmove
              · dsimp only at hmove
                split at hmove
                · cases hmove
                · next absolute target' hnode =>
                    have hfree := disk.linkFree (here ++ [last])
                    change disk.tree (here ++ [last]) = _ at hnode
                    rw [hnode] at hfree
                    cases hfree
                · cases hmove
              · cases hmove
          · rfl

end Lookups

/-! ## Opens -/

/-- The file that an open finds: where the path leads, if that opens. -/
def Disk.locate (disk : Disk) (path : PathBuf) : Except IoError Location :=
  match disk.walkTo path with
  | .error error => .error error
  | .ok location =>
      match disk.openError location with
      | some error => .error error
      | none => .ok location

section Opens

variable {disk : Disk} {path root : PathBuf} {location : Location} {request : OpenRequest}

theorem Disk.locate_location (h : disk.locate path = .ok location) :
    location = path.components := by
  rw [Disk.locate] at h
  split at h
  · nomatch h
  · next found hfound =>
      split at h
      · nomatch h
      · cases h
        exact Disk.walkTo_location hfound

/-- Every text of a path leads to the directory that it names. -/
theorem Disk.locate_directory {other : PathBuf} (h : disk.locate path = .ok location)
    (hdirectory : disk.os.isDirectory location = true)
    (hsame : other.components = path.components) : disk.locate other = .ok location := by
  rw [Disk.locate, Disk.walkTo] at h ⊢
  rw [hsame]
  cases hfound : descend disk.tree [] path.components with
  | error fault =>
      rw [hfound] at h
      nomatch h
  | ok found =>
      rw [hfound] at h
      dsimp only at h ⊢
      split at h
      · nomatch h
      · next reached hreached =>
          split at hreached
          · nomatch hreached
          · cases hreached
            split at h
            · nomatch h
            · next hopens =>
                cases h
                rw [hdirectory, Bool.not_true, Bool.and_false, if_neg Bool.false_ne_true]
                dsimp only
                rw [hopens]

/-- Without links it does not matter whether a final link is followed. -/
theorem Disk.openAt_eq (hup : ".." ∉ path.components) (noFollow : Bool) :
    disk.os.openAt path noFollow = disk.locate path := by
  rw [Os.openAt, Disk.locate]
  rw [Disk.finalIsSymlink_eq hup, Bool.and_false, Disk.canonicalize_eq hup]
  rw [if_neg Bool.false_ne_true]
  rfl

theorem Disk.openFile_eq (hup : ".." ∉ request.path.components) :
    Engine.openFile disk.os request =
      match disk.locate request.path with
      | .error error => .error error
      | .ok location => .ok (location, false) := by
  rw [Engine.openFile]
  rw [Disk.openAt_eq hup, Disk.openAt_eq hup]
  cases disk.locate request.path with
  | ok location => rfl
  | error error =>
      dsimp only
      split <;> rfl

/-- The containment check compares the names of the path with the root's. -/
theorem Disk.verifyContainment_eq {cache : CanonCache} (hup : ".." ∉ request.path.components)
    (hroot : request.containmentRoot = some root) (hsound : Engine.CacheSound disk.os cache)
    (hfound : disk.locate request.path = .ok location) :
    (Engine.verifyContainment Engine.parentCachedCanonicalize disk.os request false cache).1 =
      if Engine.startsWith location root then .ok () else .error Engine.permissionDenied := by
  have hcanonical : disk.os.canonicalize request.path = .ok location := by
    apply Os.openAt_canonicalize
    rw [Disk.openAt_eq hup false]
    exact hfound
  have hcached : (Engine.parentCachedCanonicalize disk.os request.path cache).1 = .ok location :=
    Engine.parentCachedCanonicalize_eq hsound (Disk.finalIsSymlink_eq hup) hcanonical
  rw [Engine.verifyContainment]
  rw [hroot]
  dsimp only
  rw [if_neg Bool.false_ne_true, hcached]

/-- What the engine's open returns on a disk, whatever it has cached. -/
theorem Disk.openStat_eq {state : EngineState} (hup : ".." ∉ request.path.components)
    (hroot : request.containmentRoot = some root)
    (hsound : Engine.CacheSound disk.os state.canonCache) (id : ℕ) :
    (Engine.openStat disk.os id request state).1 =
      match disk.locate request.path with
      | .error error => .error error
      | .ok location =>
          match disk.os.metadata location with
          | .error error => .error error
          | .ok metadata =>
              if Engine.startsWith location root then
                .ok (Engine.registerFile disk.os id request location
                  (Engine.statFromMetadata metadata) state).1
              else
                .error Engine.permissionDenied := by
  rw [Engine.openStat, Engine.openStatWith]
  rw [Disk.openFile_eq hup]
  cases hfound : disk.locate request.path with
  | error error => rfl
  | ok location =>
      dsimp only
      cases disk.os.metadata location with
      | error error => rfl
      | ok metadata =>
          have hverdict := Disk.verifyContainment_eq hup hroot hsound hfound
          dsimp only
          generalize Engine.verifyContainment Engine.parentCachedCanonicalize disk.os request
            false state.canonCache = result at hverdict ⊢
          obtain ⟨verdict, canonCache⟩ := result
          dsimp only at hverdict ⊢
          rw [hverdict]
          by_cases hinside : Engine.startsWith location root = true
          · rw [if_pos hinside, if_pos hinside]
            dsimp only
            rw [Engine.registerFile_opened]
          · rw [if_neg hinside, if_neg hinside]

end Opens

/-! ## Disks that agree -/

/-- No name starts with a dot. -/
def Undotted (names : List String) : Prop :=
  ∀ name ∈ names, name.toList.head? ≠ some '.'

theorem Undotted.noParent {names : List String} (h : Undotted names) : ".." ∉ names := by
  intro hmem
  exact h ".." hmem rfl

/-- Two disks hold the same below a location, dotfiles apart. -/
structure AgreeOutsideDotfiles (location : Location) (disk other : Disk) : Prop where
  tree : ∀ below, Undotted below → disk.tree (location ++ below) = other.tree (location ++ below)
  openError : ∀ below, Undotted below →
    disk.openError (location ++ below) = other.openError (location ++ below)

theorem AgreeOutsideDotfiles.symm {location : Location} {disk other : Disk}
    (h : AgreeOutsideDotfiles location disk other) : AgreeOutsideDotfiles location other disk where
  tree below hbelow := (h.tree below hbelow).symm
  openError below hbelow := (h.openError below hbelow).symm

section Agreement

variable {disk other : Disk} {location below : List String} {path root : PathBuf}

/-- A canonical root is walked down to. -/
theorem CanonicalRoot.descend (h : CanonicalRoot disk.os root location) :
    PathTree.descend disk.tree [] location = .ok location := by
  have hcomponents : root.components = location := by
    rw [h.text]
    exact PathBuf.components_ofLocation h.plain
  have hup : ".." ∉ root.components := by
    rw [hcomponents]
    intro hmem
    exact (h.plain _ hmem).ne_parent rfl
  have hresolves := h.resolves
  rw [Disk.canonicalize_eq hup] at hresolves
  rw [Disk.walkTo] at hresolves
  rw [hcomponents] at hresolves
  split at hresolves
  · nomatch hresolves
  · next found hfound =>
      rw [hfound, descend_location hfound]
      rfl

/-- Where agreeing disks lead from a common root. -/
theorem locate_congr (hagree : AgreeOutsideDotfiles location disk other)
    (hroot : CanonicalRoot disk.os root location) (hother : CanonicalRoot other.os root location)
    (hpath : path.components = location ++ below) (hdots : Undotted below) :
    disk.locate path = other.locate path := by
  have hdescend : descend disk.tree [] path.components = descend other.tree [] path.components := by
    rw [hpath, descend_append hroot.descend, descend_append hother.descend]
    apply descend_congr
    intro before hbefore
    apply hagree.tree
    intro name hname
    exact hdots name (hbefore.subset hname)
  have hdirectory : disk.os.isDirectory (location ++ below) =
      other.os.isDirectory (location ++ below) := by
    simp only [Os.isDirectory]
    rw [show disk.os.tree = disk.tree from rfl, show other.os.tree = other.tree from rfl,
      hagree.tree below hdots]
  simp only [Disk.locate, Disk.walkTo]
  rw [hdescend]
  cases hfound : descend other.tree [] path.components with
  | error fault => rfl
  | ok found =>
      have hlocation : found = location ++ below := by
        rw [descend_location hfound, hpath]
        rfl
      rw [hlocation]
      dsimp only
      rw [hdirectory]
      by_cases hrequires :
          (path.requiresDirectory && !other.os.isDirectory (location ++ below)) = true
      · rw [if_pos hrequires]
      · rw [if_neg hrequires]
        dsimp only
        rw [hagree.openError below hdots]

end Agreement

end EnvoyFiles
