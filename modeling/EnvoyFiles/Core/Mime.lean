import EnvoyFiles.Core.Crates
import EnvoyFiles.Support.Text

/-!
# Content types and filesystem paths

The model of `envoy-files-core/src/mime.rs`, with the part of `std::path` that
it and the filter use.  A path keeps its text, as `PathBuf` does; its
components are what the comparisons of `std::path` look at.
-/

namespace EnvoyFiles

open Text

/-- A `std::path::PathBuf` on Unix. -/
structure PathBuf where
  raw : String
  deriving DecidableEq, Repr

namespace PathBuf

/-- The normal components of a path: empty pieces and `.` do not count. -/
def components (path : PathBuf) : List String :=
  (split path.raw '/').filter fun piece => !(piece.isEmpty || piece == ".")

/-- `Path::join`: an absolute argument replaces the path. -/
def join (base : PathBuf) (path : String) : PathBuf :=
  if path.toList.head? = some '/' then
    ⟨path⟩
  else if base.raw.isEmpty || base.raw.toList.getLast? == some '/' then
    ⟨base.raw ++ path⟩
  else
    ⟨base.raw ++ "/" ++ path⟩

/-- `Path::file_name`: the last component unless it is `..`. -/
def fileName (path : PathBuf) : Option String :=
  match path.components.getLast? with
  | some name => if name = ".." then none else some name
  | none => none

/-- `Path::extension`: what follows the last `.` of the file name, unless that
`.` is its first character. -/
def extension (path : PathBuf) : Option String :=
  match path.fileName with
  | none => none
  | some name =>
      match (split name '.').reverse with
      | [] => none
      | [_] => none
      | after :: before =>
          if before = [""] then none else some after

end PathBuf

namespace Mime

/-- The non-empty extension of the final path component. -/
def extractExtension (path : String) : Option String :=
  (PathBuf.mk path).extension.filter fun ext => !ext.isEmpty

/-- `content_type_for`: the configured overrides in order, then the built-in
table, then the default. -/
def contentTypeFor (crates : Crates) (path : String)
    (overrides : List (String × String)) (defaultContentType : String) : String :=
  match extractExtension path with
  | none => defaultContentType
  | some ext =>
      let matching := overrides.find? fun (key, _) =>
        eqIgnoreAsciiCase ((stripPrefix key ".").getD key) ext
      match matching with
      | some (_, value) => value
      | none =>
          (crates.mimeFromExt (toAsciiLowercase ext)).getD defaultContentType

end Mime

end EnvoyFiles
