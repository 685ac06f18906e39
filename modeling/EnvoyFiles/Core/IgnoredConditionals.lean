import EnvoyFiles.Core.Revalidation

/-!
# Conditional headers that cannot be decoded

A conditional header whose value cannot be decoded is documented as ignored.  The date
headers stand behind the tag headers, though, and whether they are looked at is decided
by the presence of the tag header, so a tag header that is ignored still hides the date.
-/

namespace EnvoyFiles.Conditional

section Masking

variable (crates : Crates) (headers : ConditionalHeaders) (v : Validators)

end Masking

section Evaluation

variable {crates : Crates} {headers : ConditionalHeaders} {v : Validators}

end Evaluation

end EnvoyFiles.Conditional
