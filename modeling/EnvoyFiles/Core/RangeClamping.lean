import EnvoyFiles.Core.RangeGrammar

/-!
# Clamping of range specs

A last position behind the end of the file asks for the rest of the file, and a larger
one asks for no more.  `plan_ranges` agrees as long as the number fits in a `u64`; one
that does not makes it ignore the whole header.
-/

namespace EnvoyFiles.Range

open Text

variable {totalLen : ℕ} {policy : RangePolicy} {list list' : String} {specs specs' : List Spec}

/-! ## Raised numbers -/

/-- The second spec is the first, or has a larger number where the first already asks for
the end of the file, or for what is behind it. -/
inductive Raised (totalLen : ℕ) : Spec → Spec → Prop where
  | kept {spec : Spec} : Raised totalLen spec spec
  | closed {first last last' : ℕ} : totalLen - 1 ≤ last → first ≤ last → last < last' →
      Raised totalLen (.closed first last) (.closed first last')
  | openEnded {first first' : ℕ} : totalLen ≤ first → first < first' →
      Raised totalLen (.openEnded first) (.openEnded first')
  | suffix {length length' : ℕ} : totalLen ≤ length → length < length' →
      Raised totalLen (.suffix length) (.suffix length')

/-- A raised spec names the same range. -/
theorem Raised.resolve_eq {spec spec' : Spec} (h : Raised totalLen spec spec')
    (hpos : 1 ≤ totalLen) : spec'.resolve totalLen = spec.resolve totalLen := by
  cases h with
  | kept => rfl
  | @closed first last last' hend hordered hlarger =>
      simp only [Spec.resolve]
      by_cases hinside : first < totalLen
      · rw [if_pos ⟨by omega, hinside⟩, if_pos ⟨hordered, hinside⟩,
          Nat.min_eq_right hend, Nat.min_eq_right (by omega)]
      · rw [if_neg fun h => hinside h.2, if_neg fun h => hinside h.2]
  | @openEnded first first' hbehind hlarger =>
      simp only [Spec.resolve]
      rw [if_neg (by omega), if_neg (by omega)]
  | @suffix length length' hwhole hlarger =>
      simp only [Spec.resolve]
      rw [if_pos (by omega), if_pos (by omega), Nat.min_eq_right hwhole,
        Nat.min_eq_right (by omega)]

/-- A raised spec does not fit before the spec does. -/
theorem Raised.fits {spec spec' : Spec} (h : Raised totalLen spec spec') (hfits : spec'.Fits) :
    spec.Fits := by
  cases h with
  | kept => exact hfits
  | closed _ _ hlarger => exact ⟨hfits.1, hlarger.trans hfits.2⟩
  | openEnded _ hlarger => exact hlarger.trans hfits
  | suffix _ hlarger => exact hlarger.trans hfits

theorem raised_ranges (h : List.Forall₂ (Raised totalLen) specs specs') (hpos : 1 ≤ totalLen) :
    specs'.filterMap (Spec.resolve totalLen) = specs.filterMap (Spec.resolve totalLen) := by
  induction h with
  | nil => rfl
  | cons hraised _ ih =>
      rw [List.filterMap_cons, List.filterMap_cons, hraised.resolve_eq hpos, ih]

theorem raised_fits (h : List.Forall₂ (Raised totalLen) specs specs')
    (hfits : ∀ spec ∈ specs', spec.Fits) : ∀ spec ∈ specs, spec.Fits := by
  induction h with
  | nil => exact hfits
  | cons hraised _ ih =>
      obtain ⟨hfirst, hrest⟩ := List.forall_mem_cons.mp hfits
      exact List.forall_mem_cons.mpr ⟨hraised.fits hfirst, ih hrest⟩

/-- Several ranges that the policy does not serve. -/
def RangePolicy.Refuses (policy : RangePolicy) (ranges : List ByteRange) : Prop :=
  2 ≤ ranges.length ∧
    (policy.allowMulti = false ∨ policy.maxParts < ranges.length ∨ ¬Ascending ranges)

instance (policy : RangePolicy) (ranges : List ByteRange) : Decidable (policy.Refuses ranges) :=
  inferInstanceAs (Decidable (2 ≤ ranges.length ∧
    (policy.allowMulti = false ∨ policy.maxParts < ranges.length ∨ ¬Ascending ranges)))

theorem outcomeOf_eq_full {ranges : List ByteRange} :
    outcomeOf policy ranges = .full ↔ policy.Refuses ranges := by
  rcases ranges with _ | ⟨first, _ | ⟨second, rest⟩⟩
  · simp [outcomeOf, RangePolicy.Refuses]
  · simp [outcomeOf, RangePolicy.Refuses]
  · have htwo : 2 ≤ (first :: second :: rest).length := by simp
    simp only [outcomeOf, RangePolicy.Refuses, htwo, true_and]
    split
    · next hserved =>
        apply iff_of_false (by simp)
        rintro (hdenied | hmany | hunordered)
        · cases hdenied.symm.trans hserved.1
        · exact absurd hserved.2.1 (by omega)
        · exact hunordered hserved.2.2
    · next hrefused =>
        apply iff_of_true rfl
        by_contra hnone
        rw [not_or, not_or, Bool.not_eq_false, not_not] at hnone
        exact hrefused ⟨hnone.1, by omega, hnone.2.2⟩

/-- Raising the numbers of a well-formed header leaves its outcome as it is, unless that
makes the first of them too large for a `u64` in a header that is served in parts. -/
theorem raised_outcome_iff (policy : RangePolicy) (hpos : 1 ≤ totalLen)
    (hspecs : List.Forall₂ IsSpec (elements list) specs)
    (hspecs' : List.Forall₂ IsSpec (elements list') specs')
    (hraised : List.Forall₂ (Raised totalLen) specs specs') :
    planRanges ("bytes=" ++ list') totalLen policy =
        planRanges ("bytes=" ++ list) totalLen policy ↔
      (∀ spec ∈ specs', spec.Fits) ∨ (∃ spec ∈ specs, ¬spec.Fits) ∨
        policy.Refuses (specs.filterMap (Spec.resolve totalLen)) := by
  by_cases hnone : specs = []
  · subst hnone
    cases hraised
    apply iff_of_true
    · have hblank := List.forall₂_nil_right_iff.mp hspecs
      have hblank' := List.forall₂_nil_right_iff.mp hspecs'
      simp only [planRanges, stripPrefix_append, planSpecs_of_blank hblank,
        planSpecs_of_blank hblank']
    · simp
  · have hnone' : specs' ≠ [] := by
      rintro rfl
      exact hnone (List.forall₂_nil_right_iff.mp hraised)
    rw [planRanges_fits hspecs hnone, planRanges_fits hspecs' hnone', raised_ranges hraised hpos]
    by_cases hfits' : ∀ spec ∈ specs', spec.Fits
    · rw [if_pos hfits', if_pos (raised_fits hraised hfits')]
      exact iff_of_true rfl (Or.inl hfits')
    · rw [if_neg hfits', or_iff_right hfits']
      by_cases hfits : ∀ spec ∈ specs, spec.Fits
      · have hall : ¬∃ spec ∈ specs, ¬spec.Fits := by
          rintro ⟨spec, hspec, hlarge⟩
          exact hlarge (hfits spec hspec)
        rw [if_pos hfits, or_iff_right hall, eq_comm]
        exact outcomeOf_eq_full
      · rw [if_neg hfits]
        push Not at hfits
        exact iff_of_true rfl (Or.inl hfits)

theorem ten_isSpec : List.Forall₂ IsSpec (elements "0-9") [.closed 0 9] := by
  have hzero : IsDigits "0" := ⟨by decide, List.all_eq_true.mp rfl⟩
  have hnine : IsDigits "9" := ⟨by decide, List.all_eq_true.mp rfl⟩
  exact .cons (.closed hzero hnine) .nil

theorem ten_overflow_isSpec : List.Forall₂ IsSpec (elements "0-18446744073709551616")
    [.closed 0 18446744073709551616] := by
  have hzero : IsDigits "0" := ⟨by decide, List.all_eq_true.mp rfl⟩
  have hlarge : IsDigits "18446744073709551616" := ⟨by decide, List.all_eq_true.mp rfl⟩
  exact .cons (.closed hzero hlarge) .nil

/-- A last position of `2 ^ 64` is behind the end of ten bytes as `9` is at it, but the
answer is the whole file. -/
theorem raised_outcome_differs :
    List.Forall₂ IsSpec (elements "0-9") [.closed 0 9] ∧
      List.Forall₂ IsSpec (elements "0-18446744073709551616")
        [.closed 0 18446744073709551616] ∧
      List.Forall₂ (Raised 10) [.closed 0 9] [.closed 0 18446744073709551616] ∧
      planRanges "bytes=0-9" 10 ⟨true, 4⟩ = .single ⟨0, 9⟩ ∧
      planRanges "bytes=0-18446744073709551616" 10 ⟨true, 4⟩ = .full := by
  refine ⟨ten_isSpec, ten_overflow_isSpec, ?_, ?_, ?_⟩
  · exact .cons (.closed (by decide) (by decide) (by decide)) .nil
  · decide
  · decide

theorem raised_outcome_ten :
    List.Forall₂ IsSpec (elements "0-9") [.closed 0 9] ∧
      List.Forall₂ IsSpec (elements "0-18446744073709551616")
        [.closed 0 18446744073709551616] ∧
      ¬planRanges ("bytes=" ++ "0-18446744073709551616") 10 ⟨true, 4⟩ =
        planRanges ("bytes=" ++ "0-9") 10 ⟨true, 4⟩ := by
  have hraised : List.Forall₂ (Raised 10) [.closed 0 9] [.closed 0 18446744073709551616] :=
    .cons (.closed (by decide) (by decide) (by decide)) .nil
  refine ⟨ten_isSpec, ten_overflow_isSpec, ?_⟩
  rw [raised_outcome_iff ⟨true, 4⟩ (by decide) ten_isSpec ten_overflow_isSpec hraised]
  decide

end EnvoyFiles.Range
