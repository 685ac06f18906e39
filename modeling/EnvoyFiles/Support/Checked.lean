import Mathlib

/-!
# Checked arithmetic

Sums and differences of numbers of `width` bits that give no result where a machine
would wrap around.
-/

namespace EnvoyFiles.Checked

variable {width a b : ℕ} {terms : List ℕ}

/-- `a - b`, unless it underflows. -/
def sub (a b : ℕ) : Option ℕ :=
  if b ≤ a then some (a - b) else none

/-- `a + b`, unless it overflows. -/
def add (width a b : ℕ) : Option ℕ :=
  if a + b < 2 ^ width then some (a + b) else none

/-- The sum of the terms, added one by one. -/
def sum (width : ℕ) : ℕ → List ℕ → Option ℕ
  | total, [] => some total
  | total, term :: rest => (add width total term).bind fun total' => sum width total' rest

theorem sub_of_le (h : b ≤ a) : sub a b = some (a - b) :=
  if_pos h

theorem add_of_lt (h : a + b < 2 ^ width) : add width a b = some (a + b) :=
  if_pos h

/-- A sum that fits has partial sums that fit. -/
theorem sum_of_lt {total : ℕ} (h : total + terms.sum < 2 ^ width) :
    sum width total terms = some (total + terms.sum) := by
  induction terms generalizing total with
  | nil => rfl
  | cons term rest ih =>
      rw [List.sum_cons, ← Nat.add_assoc] at h
      have hfirst : total + term < 2 ^ width := Nat.lt_of_le_of_lt (Nat.le_add_right _ _) h
      rw [sum, add_of_lt hfirst, Option.bind_some, ih h, List.sum_cons, Nat.add_assoc]

end EnvoyFiles.Checked
