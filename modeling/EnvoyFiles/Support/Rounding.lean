import Mathlib

/-!
# Rounding to multiples

A number is rounded to a nearest multiple of another.  How ties are broken does not matter
here: whatever rounds so keeps the order of different numbers, and stays between multiples.
-/

namespace Rounding

/-- No multiple of `d` is nearer to `n` than `d * q`. -/
def Nearest (n d q : ℕ) : Prop :=
  2 * n ≤ 2 * (d * q) + d ∧ 2 * (d * q) ≤ 2 * n + d

section Nearest

variable {n m d q r k : ℕ}

/-- What does not exceed a multiple is not rounded beyond it. -/
theorem Nearest.le_of_le (h : Nearest n d q) (hd : 0 < d) (hn : n ≤ d * k) : q ≤ k := by
  by_contra hlt
  have hnext : d * (k + 1) ≤ d * q := Nat.mul_le_mul_left d (not_le.mp hlt)
  have hupper := h.2
  rw [Nat.mul_succ] at hnext
  omega

theorem Nearest.ge_of_ge (h : Nearest n d q) (hd : 0 < d) (hn : d * k ≤ n) : k ≤ q := by
  by_contra hlt
  have hnext : d * (q + 1) ≤ d * k := Nat.mul_le_mul_left d (not_le.mp hlt)
  have hlower := h.1
  rw [Nat.mul_succ] at hnext
  omega

/-- A multiple is rounded to itself. -/
theorem Nearest.eq_of_eq (h : Nearest (d * k) d q) (hd : 0 < d) : q = k :=
  le_antisymm (h.le_of_le hd le_rfl) (h.ge_of_ge hd le_rfl)

/-- Rounding keeps the order. -/
theorem Nearest.le_of_lt (h : Nearest n d q) (h' : Nearest m d r) (hlt : n < m) : q ≤ r := by
  by_contra hgt
  have hnext : d * (r + 1) ≤ d * q := Nat.mul_le_mul_left d (not_le.mp hgt)
  have hupper := h.2
  have hlower := h'.1
  rw [Nat.mul_succ] at hnext
  omega

end Nearest

end Rounding
