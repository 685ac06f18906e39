import EnvoyFiles.Core.Error
import EnvoyFiles.Core.Mime

/-!
# The I/O engine's interface

The model of `envoy-files-io/src/lib.rs`: what the filter hands to the engine
and what comes back.
-/

namespace EnvoyFiles

/-- `envoy_files_io::FileHandle`, the id of an open file; id `0` is the inert
handle of a file that is already closed. -/
structure FileHandle where
  id : ℕ
  deriving DecidableEq, Repr

structure FileStat where
  size : ℕ
  mtimeUnix : ℤ
  mtimeNanos : ℕ
  isDir : Bool
  deriving DecidableEq, Repr

structure DirEntryInfo where
  name : String
  isDir : Bool
  size : ℕ
  mtimeUnix : ℤ
  deriving DecidableEq, Repr

structure OpenRequest where
  path : PathBuf
  /-- Canonicalized root the resolved file must stay within. -/
  containmentRoot : Option PathBuf
  /-- Refuse to open through a symlink at the final component. -/
  denySymlinks : Bool
  /-- Bytes to read from offset 0 together with the open. -/
  prefetchLen : ℕ
  deriving DecidableEq, Repr

/-- The result an open completes with. -/
abbrev OpenResult := Except IoError (FileHandle × FileStat × Bytes)

/-- The result a read completes with; an empty buffer means end of file. -/
abbrev ReadResult := Except IoError Bytes

/-- The result a directory read completes with. -/
abbrev ReadDirResult := Except IoError (List DirEntryInfo)

end EnvoyFiles
