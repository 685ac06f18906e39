import EnvoyFiles.Io.Interface
import EnvoyFiles.Support.PathTree

/-!
# The filesystem under the engine

What `open`, `fstat`, `pread` and `realpath` do on Linux.  Paths are absolute:
the root of a configuration is canonical and every other path is built from it.
Only regular files, directories and symbolic links are modelled.
-/

namespace EnvoyFiles

open Text PathTree

/-- The names that lead to a file from the filesystem's root, with no link among
them.  A canonical path is the location it spells. -/
abbrev Location := List String

/-- A `std::time::SystemTime` in nanoseconds from 1970. -/
abbrev SystemTime := ℤ

structure Metadata where
  isDir : Bool
  len : ℕ
  modified : Except IoError SystemTime

structure RegularFile where
  content : Bytes
  modified : Except IoError SystemTime

structure Directory where
  len : ℕ
  modified : Except IoError SystemTime

structure Os where
  tree : Tree String RegularFile Directory
  /-- Why a file that exists cannot be opened or inspected, if it cannot. -/
  openError : Location → Option IoError
  /-- One positional read, which may return less than it is asked for. -/
  readAt : Location → ℕ → ℕ → Except IoError Bytes

/-- The links that one lookup follows before it fails with `ELOOP`. -/
def maxSymlinks : ℕ := 40

def enoent : ℤ := 2

def enotdir : ℤ := 20

/-- `EMLINK` on Linux. -/
def emlink : ℤ := 31

/-- The error of a lookup that leads nowhere. -/
def lookupError : Fault → IoError
  | .missing => ⟨.notFound, some enoent⟩
  | .notDirectory => ⟨.notADirectory, some enotdir⟩
  | .tooManyLinks => ⟨.other, some eloop⟩

namespace PathBuf

/-- The components as the kernel reads them. -/
def lookupPath (components : List String) : List (Component String) :=
  components.map fun piece => if piece = ".." then .parent else .name piece

/-- A path that ends in `/` or `/.` names a directory, so a link in front of
that is followed. -/
def requiresDirectory (path : PathBuf) : Bool :=
  (split path.raw '/').getLast?.any fun piece => piece.isEmpty || piece == "."

/-- `Path::parent`, by its components. -/
def parent (path : PathBuf) : Option (List String) :=
  if path.components.isEmpty then none else some path.components.dropLast

theorem parent_eq_some {path : PathBuf} {components : List String}
    (h : path.parent = some components) : path.components.dropLast = components := by
  rw [parent] at h
  split at h
  · nomatch h
  · exact Option.some.inj h

theorem fileName_eq_some {path : PathBuf} {name : String} (h : path.fileName = some name) :
    path.components.getLast? = some name ∧ name ≠ ".." := by
  rw [fileName] at h
  split at h
  · next last hlast =>
      split at h
      · nomatch h
      · next hne =>
          cases h
          exact ⟨hlast, hne⟩
  · nomatch h

/-- The text of a canonical path. -/
def ofLocation (location : Location) : PathBuf :=
  ⟨"/" ++ Text.join location "/"⟩

end PathBuf

namespace Os

variable (os : Os)

/-- Resolves a list of components from the filesystem's root. -/
def lookup (components : List String) : Except IoError Location :=
  match resolve os.tree maxSymlinks [] (PathBuf.lookupPath components) with
  | .error fault => .error (lookupError fault)
  | .ok location => .ok location

def isDirectory (location : Location) : Bool :=
  (os.tree location).any Node.isDirectory

/-- Full resolution of a path: what `std::fs::canonicalize` returns. -/
def canonicalize (path : PathBuf) : Except IoError Location :=
  match os.lookup path.components with
  | .error error => .error error
  | .ok location =>
      if path.requiresDirectory && !os.isDirectory location then
        .error (lookupError .notDirectory)
      else
        .ok location

/-- The final component is a symbolic link. -/
def finalIsSymlink (path : PathBuf) : Bool :=
  match path.components.getLast? with
  | none => false
  | some last =>
      lastIsSymlink os.tree maxSymlinks [] (PathBuf.lookupPath path.components.dropLast)
        (if last = ".." then .parent else .name last)

/-- `open`, which yields the file that full resolution names.  With
`O_NOFOLLOW` it fails with `ELOOP` on a symbolic link. -/
def openAt (path : PathBuf) (noFollow : Bool) : Except IoError Location :=
  if noFollow && !path.requiresDirectory && os.finalIsSymlink path then
    .error ⟨.other, some eloop⟩
  else
    match os.canonicalize path with
    | .error error => .error error
    | .ok location =>
        match os.openError location with
        | some error => .error error
        | none => .ok location

/-- `fstat` of an open file. -/
def metadata (location : Location) : Except IoError Metadata :=
  match os.tree location with
  | some (.file file) => .ok ⟨false, file.content.length, file.modified⟩
  | some (.directory directory) => .ok ⟨true, directory.len, directory.modified⟩
  | _ => .error ⟨.notFound, some enoent⟩

/-- A filesystem in which what exists opens, and a read returns all that it is
asked for. -/
def ofTree (tree : Tree String RegularFile Directory) : Os where
  tree := tree
  openError := fun _ => none
  readAt := fun location offset len =>
    match tree location with
    | some (.file file) => .ok ((file.content.drop offset).take len)
    | _ => .error ⟨.isADirectory, none⟩

section Lookup

variable {os : Os} {path : PathBuf} {location : Location} {name : String}

/-- A file that opens is the one full resolution names. -/
theorem openAt_canonicalize {noFollow : Bool} (h : os.openAt path noFollow = .ok location) :
    os.canonicalize path = .ok location := by
  rw [openAt] at h
  split at h
  · nomatch h
  · split at h
    · nomatch h
    · next found hfound =>
        split at h
        · nomatch h
        · rw [hfound, ← h]

/-- A file that opens without following a link is not behind a final link,
unless a separator follows. -/
theorem openAt_noFollow (h : os.openAt path true = .ok location) :
    path.requiresDirectory = true ∨ os.finalIsSymlink path = false := by
  by_contra hneither
  obtain ⟨hdirectory, hlink⟩ := not_or.mp hneither
  rw [openAt] at h
  rw [Bool.not_eq_true] at hdirectory
  rw [Bool.not_eq_false] at hlink
  rw [hdirectory, hlink] at h
  nomatch h

theorem canonicalize_lookup (h : os.canonicalize path = .ok location) :
    os.lookup path.components = .ok location := by
  rw [canonicalize] at h
  split at h
  · nomatch h
  · next found hfound =>
      split at h
      · nomatch h
      · rw [hfound, ← h]

theorem lookup_eq_ok {components : List String} :
    os.lookup components = .ok location ↔
      resolve os.tree maxSymlinks [] (PathBuf.lookupPath components) = .ok location := by
  rw [lookup]
  split
  · next fault hfault => simp [hfault]
  · next found hfound => rw [hfound, Except.ok.injEq, Except.ok.injEq]

theorem lookupPath_concat (hname : path.fileName = some name) :
    PathBuf.lookupPath path.components =
      PathBuf.lookupPath path.components.dropLast ++ [.name name] := by
  obtain ⟨hlast, hne⟩ := PathBuf.fileName_eq_some hname
  conv_lhs => rw [← List.dropLast_append_getLast? name hlast]
  simp [PathBuf.lookupPath, hne]

/-- The parent of a path that leads somewhere does so too. -/
theorem lookup_parent (hname : path.fileName = some name)
    (h : os.canonicalize path = .ok location) :
    ∃ directory, os.lookup path.components.dropLast = .ok directory := by
  have hresolve := lookup_eq_ok.mp (canonicalize_lookup h)
  rw [lookupPath_concat hname] at hresolve
  obtain ⟨directory, remaining, hbefore, -⟩ := resolve_append hresolve
  exact ⟨directory, lookup_eq_ok.mpr hbefore⟩

/-- A path whose final name is no link leads to that name below its parent. -/
theorem canonicalize_of_parent (hname : path.fileName = some name)
    (hlink : os.finalIsSymlink path = false)
    (h : os.canonicalize path = .ok location) :
    ∃ directory, os.lookup path.components.dropLast = .ok directory ∧
      location = directory ++ [name] := by
  obtain ⟨hlast, hne⟩ := PathBuf.fileName_eq_some hname
  have hresolve := lookup_eq_ok.mp (canonicalize_lookup h)
  rw [lookupPath_concat hname] at hresolve
  rw [finalIsSymlink] at hlink
  simp only [hlast, if_neg hne] at hlink
  obtain ⟨directory, hbefore, hlocation⟩ := resolve_concat hlink hresolve
  exact ⟨directory, lookup_eq_ok.mpr hbefore, hlocation⟩

/-- What has metadata is a file or a directory. -/
theorem metadata_eq_ok {data : Metadata} (h : os.metadata location = .ok data) :
    (∃ file, os.tree location = some (.file file) ∧
        data = ⟨false, file.content.length, file.modified⟩) ∨
      ∃ directory, os.tree location = some (.directory directory) ∧
        data = ⟨true, directory.len, directory.modified⟩ := by
  rw [metadata] at h
  split at h
  · next file hnode => exact Or.inl ⟨file, hnode, (Except.ok.inj h).symm⟩
  · next directory hnode => exact Or.inr ⟨directory, hnode, (Except.ok.inj h).symm⟩
  · nomatch h

theorem metadata_isDir {data : Metadata} (h : os.metadata location = .ok data) :
    os.isDirectory location = data.isDir := by
  rw [isDirectory]
  rcases metadata_eq_ok h with ⟨file, hnode, rfl⟩ | ⟨directory, hnode, rfl⟩
  · rw [hnode]
    rfl
  · rw [hnode]
    rfl

end Lookup

end Os

end EnvoyFiles
