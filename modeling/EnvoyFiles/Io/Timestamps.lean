import EnvoyFiles.Core.HeaderSafety
import EnvoyFiles.Core.ListingOrder
import EnvoyFiles.Io.Engine

/-!
# Modification times and dates

The engine reports any modification time from 1970 on.  An HTTP date ends with the year 9999,
and converting a later time panics.  A response panics exactly where it converts such a time.
-/

namespace EnvoyFiles

open Text Range Conditional

/-! ## Reported times -/

section Times

variable {mtimeUnix : ℤ} {mtimeNanos : ℕ}

end Times

/-! ## Responses that need a date -/

section Dates

variable (crates : Crates) (facts : RequestFacts) (fileMeta : FileMeta)

end Dates

/-! ## Without a date -/

section Gates

variable {enabled : Bool} {α β : Type} {field : Option α}

end Gates

section Undated

variable {crates : Crates} {facts : RequestFacts} {fileMeta : FileMeta}
  {headers : ConditionalHeaders} {validators : Validators}

end Undated

/-! ## Reported times and panics -/

end EnvoyFiles
