import Mathlib

/-!
# Filesystem errors and their HTTP status

The model of `envoy-files-core/src/error.rs` and of `IoError`.
-/

namespace EnvoyFiles

/-- The `std::io::ErrorKind` values the code tells apart; every other kind is
`other`. -/
inductive ErrorKind where
  | notFound
  | permissionDenied
  | notADirectory
  | isADirectory
  | other
  deriving DecidableEq, Repr

/-- `envoy_files_io::IoError`. -/
structure IoError where
  kind : ErrorKind
  rawOsError : Option ℤ
  deriving DecidableEq, Repr

/-- `ELOOP` on Linux. -/
def eloop : ℤ := 40

/-- Maps an I/O error to the HTTP status returned for it. -/
def statusForIoError (kind : ErrorKind) (rawOsError : Option ℤ) : ℕ :=
  match kind with
  | .notFound => 404
  | .permissionDenied => 403
  | .notADirectory => 404
  | .isADirectory => 403
  | .other => if rawOsError = some eloop then 403 else 500

end EnvoyFiles
