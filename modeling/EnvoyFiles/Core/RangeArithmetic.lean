import EnvoyFiles.Core.RangeGrammar
import EnvoyFiles.Support.Checked

/-!
# The arithmetic of range planning

The planner once more, with every difference and sum of `u64` checked: none of them
leaves its type.  The ranges of an outcome lie within the file and together hold no
more bytes than the file.
-/

namespace EnvoyFiles.Range

open Text

section Checked

/-! ## Planning with checks -/

def openEndedSpecChecked (firstBytePos totalLen : ℕ) : Option SpecResult :=
  if totalLen = 0 ∨ firstBytePos ≥ totalLen then
    some .unsatisfiable
  else do
    let last ← Checked.sub totalLen 1
    return .range ⟨firstBytePos, last⟩

/-- The outer `Option` is that of the arithmetic. -/
def parseSuffixSpecChecked (suffixDigits : String) (totalLen : ℕ) :
    Option (Option SpecResult) :=
  if suffixDigits.isEmpty || !isAllAsciiDigits suffixDigits then
    some none
  else
    match parseU64 suffixDigits with
    | none => some none
    | some suffixLength =>
        if suffixLength = 0 ∨ totalLen = 0 then
          some (some .unsatisfiable)
        else if suffixLength ≥ totalLen then do
          let last ← Checked.sub totalLen 1
          return some (.range ⟨0, last⟩)
        else do
          let first ← Checked.sub totalLen suffixLength
          let last ← Checked.sub totalLen 1
          return some (.range ⟨first, last⟩)

def parseOneSpecChecked (spec : String) (totalLen : ℕ) : Option (Option SpecResult) :=
  match stripPrefix spec "-" with
  | some suffixDigits => parseSuffixSpecChecked suffixDigits totalLen
  | none =>
      match splitOnce spec '-' with
      | none => some none
      | some (firstDigits, lastDigits) =>
          if firstDigits.isEmpty || !isAllAsciiDigits firstDigits then
            some none
          else
            match parseU64 firstDigits with
            | none => some none
            | some firstBytePos =>
                if lastDigits.isEmpty then
                  (openEndedSpecChecked firstBytePos totalLen).map some
                else if !isAllAsciiDigits lastDigits then
                  some none
                else
                  match parseU64 lastDigits with
                  | none => some none
                  | some lastBytePos =>
                      if lastBytePos < firstBytePos then
                        some (some .unsatisfiable)
                      else if totalLen = 0 ∨ firstBytePos ≥ totalLen then
                        some (some .unsatisfiable)
                      else do
                        let last ← Checked.sub totalLen 1
                        return some (.range ⟨firstBytePos, min lastBytePos last⟩)

def planSpecsChecked (totalLen : ℕ) (validRanges : List ByteRange) (sawAnySpec : Bool) :
    List String → Option (Option (List ByteRange × Bool))
  | [] => some (some (validRanges, sawAnySpec))
  | rawSpec :: rest =>
      let trimmed := trim rawSpec
      if trimmed.isEmpty then
        planSpecsChecked totalLen validRanges sawAnySpec rest
      else do
        match ← parseOneSpecChecked trimmed totalLen with
        | none => return none
        | some .unsatisfiable => planSpecsChecked totalLen validRanges true rest
        | some (.range range) => planSpecsChecked totalLen (validRanges ++ [range]) true rest

def planRangesChecked (rangeHeader : String) (totalLen : ℕ) (policy : RangePolicy) :
    Option RangeOutcome :=
  match stripPrefix rangeHeader "bytes=" with
  | none => some .full
  | some specsStr => do
      match ← planSpecsChecked totalLen [] false (split specsStr ',') with
      | none => return .full
      | some (validRanges, sawAnySpec) =>
          if !sawAnySpec then
            return .full
          else
            match validRanges with
            | [] => return .unsatisfiable
            | [range] => return .single range
            | ranges =>
                if !policy.allowMulti || ranges.length > policy.maxParts then
                  return .full
                else if !isAscendingNonOverlapping ranges then
                  return .full
                else
                  return .multi ranges

/-- `range.end - range.start + 1`. -/
def ByteRange.lengthChecked (range : ByteRange) : Option ℕ := do
  let distance ← Checked.sub range.stop range.start
  Checked.add 64 distance 1

variable {totalLen : ℕ}

theorem openEndedSpecChecked_eq (firstBytePos : ℕ) :
    openEndedSpecChecked firstBytePos totalLen =
      some (openEndedSpec firstBytePos totalLen) := by
  simp only [openEndedSpecChecked, openEndedSpec]
  by_cases hnone : totalLen = 0 ∨ firstBytePos ≥ totalLen
  · rw [if_pos hnone, if_pos hnone]
  · rw [if_neg hnone, if_neg hnone, Checked.sub_of_le (by omega)]
    rfl

theorem parseSuffixSpecChecked_eq (suffixDigits : String) :
    parseSuffixSpecChecked suffixDigits totalLen =
      some (parseSuffixSpec suffixDigits totalLen) := by
  simp only [parseSuffixSpecChecked, parseSuffixSpec]
  split
  · rfl
  · cases parseU64 suffixDigits with
    | none => rfl
    | some suffixLength =>
        dsimp only
        by_cases hnone : suffixLength = 0 ∨ totalLen = 0
        · rw [if_pos hnone, if_pos hnone]
        · rw [if_neg hnone, if_neg hnone]
          by_cases hwhole : suffixLength ≥ totalLen
          · rw [if_pos hwhole, if_pos hwhole, Checked.sub_of_le (by omega)]
            rfl
          · rw [if_neg hwhole, if_neg hwhole, Checked.sub_of_le (by omega),
              Checked.sub_of_le (by omega)]
            rfl

theorem parseOneSpecChecked_eq (spec : String) :
    parseOneSpecChecked spec totalLen = some (parseOneSpec spec totalLen) := by
  simp only [parseOneSpecChecked, parseOneSpec]
  cases stripPrefix spec "-" with
  | some suffixDigits => exact parseSuffixSpecChecked_eq suffixDigits
  | none =>
      dsimp only
      cases splitOnce spec '-' with
      | none => rfl
      | some digits =>
          dsimp only
          split
          · rfl
          · cases parseU64 digits.1 with
            | none => rfl
            | some firstBytePos =>
                dsimp only
                split
                · rw [openEndedSpecChecked_eq]
                  rfl
                · split
                  · rfl
                  · cases parseU64 digits.2 with
                    | none => rfl
                    | some lastBytePos =>
                        dsimp only
                        by_cases horder : lastBytePos < firstBytePos
                        · rw [if_pos horder, if_pos horder]
                        · rw [if_neg horder, if_neg horder]
                          by_cases hnone : totalLen = 0 ∨ firstBytePos ≥ totalLen
                          · rw [if_pos hnone, if_pos hnone]
                          · rw [if_neg hnone, if_neg hnone, Checked.sub_of_le (by omega)]
                            rfl

/-- The spec loop, one spec after the other. -/
theorem planSpecsChecked_eq (pieces : List String) (validRanges : List ByteRange)
    (sawAnySpec : Bool) :
    planSpecsChecked totalLen validRanges sawAnySpec pieces =
      some (planSpecs totalLen validRanges sawAnySpec pieces) := by
  induction pieces generalizing validRanges sawAnySpec with
  | nil => rfl
  | cons rawSpec rest ih =>
      simp only [planSpecsChecked, planSpecs]
      split
      · exact ih validRanges sawAnySpec
      · rw [parseOneSpecChecked_eq]
        cases parseOneSpec (trim rawSpec) totalLen with
        | none => rfl
        | some result =>
            cases result with
            | unsatisfiable => exact ih validRanges true
            | range range => exact ih (validRanges ++ [range]) true

/-- No difference of the planner underflows. -/
theorem planRangesChecked_eq (header : String) (policy : RangePolicy) :
    planRangesChecked header totalLen policy = some (planRanges header totalLen policy) := by
  simp only [planRangesChecked, planRanges]
  cases stripPrefix header "bytes=" with
  | none => rfl
  | some specsStr =>
      dsimp only
      rw [planSpecsChecked_eq]
      cases planSpecs totalLen [] false (split specsStr ',') with
      | none => rfl
      | some found =>
          obtain ⟨validRanges, sawAnySpec⟩ := found
          cases sawAnySpec with
          | false => rfl
          | true =>
              rcases validRanges with _ | ⟨first, _ | ⟨second, rest⟩⟩
              · rfl
              · rfl
              · simp only [Option.bind_eq_bind, Option.bind_some, Option.pure_def,
                  Bool.not_true, Bool.false_eq_true, if_false]
                split
                · rfl
                · split <;> rfl

theorem ByteRange.lengthChecked_eq {range : ByteRange} (hwithin : range.Within totalLen)
    (hfit : totalLen < 2 ^ 64) : range.lengthChecked = some range.length := by
  obtain ⟨hordered, hinside⟩ := hwithin
  simp only [lengthChecked, Checked.sub_of_le hordered, Option.bind_eq_bind, Option.bind_some]
  exact Checked.add_of_lt (by omega)

end Checked

/-! ## The ranges of an outcome -/

/-- The ranges that are served. -/
def RangeOutcome.ranges : RangeOutcome → List ByteRange
  | .full => []
  | .single range => [range]
  | .multi ranges => ranges
  | .unsatisfiable => []

/-- Position `i` is in the range. -/
def ByteRange.Holds (range : ByteRange) (i : ℕ) : Prop :=
  range.start ≤ i ∧ i ≤ range.stop

/-- Ranges in ascending order that are not empty share no position. -/
theorem Ascending.disjoint {totalLen : ℕ} {ranges : List ByteRange}
    (hascending : Ascending ranges) (hwithin : ∀ range ∈ ranges, range.Within totalLen) :
    ranges.Pairwise fun first second => first.start < second.start ∧
      ∀ i, ¬(first.Holds i ∧ second.Holds i) := by
  refine List.Pairwise.imp_of_mem ?_ hascending
  intro first second hfirst hsecond hafter
  have hordered := (hwithin first hfirst).1
  refine ⟨by omega, ?_⟩
  rintro i ⟨⟨-, hstop⟩, hstart, -⟩
  omega

/-- The ranges of an outcome are within the file and in ascending order. -/
theorem planRanges_ranges (header : String) (totalLen : ℕ) (policy : RangePolicy) :
    (∀ range ∈ (planRanges header totalLen policy).ranges, range.Within totalLen) ∧
      Ascending (planRanges header totalLen policy).ranges := by
  cases houtcome : planRanges header totalLen policy with
  | full => exact ⟨nofun, List.Pairwise.nil⟩
  | unsatisfiable => exact ⟨nofun, List.Pairwise.nil⟩
  | single range =>
      refine ⟨?_, List.pairwise_singleton _ _⟩
      intro other hother
      rw [List.mem_singleton.mp hother]
      exact planRanges_single houtcome
  | multi ranges => exact (planRanges_multi houtcome).2

/-- A `Range` header asks for no more than the file: every range is within it, several
ranges are at most `max_parts`, ascending and disjoint, and no `u64` leaves its type. -/
theorem ranges_never_amplify (header : String) (totalLen : ℕ) (policy : RangePolicy)
    (hfit : totalLen < 2 ^ 64) :
    (∀ range ∈ (planRanges header totalLen policy).ranges,
        range.start ≤ range.stop ∧ range.stop < totalLen) ∧
      (∀ ranges, planRanges header totalLen policy = .multi ranges →
        2 ≤ ranges.length ∧ ranges.length ≤ policy.maxParts ∧
          ranges.Pairwise fun first second => first.stop < second.start ∧
            first.start < second.start ∧ ∀ i, ¬(first.Holds i ∧ second.Holds i)) ∧
      ((planRanges header totalLen policy).ranges.map ByteRange.length).sum ≤ totalLen ∧
      planRangesChecked header totalLen policy = some (planRanges header totalLen policy) ∧
      (planRanges header totalLen policy).ranges.map ByteRange.lengthChecked =
        ((planRanges header totalLen policy).ranges.map fun range => some range.length) ∧
      Checked.sum 64 0 ((planRanges header totalLen policy).ranges.map ByteRange.length) =
        some ((planRanges header totalLen policy).ranges.map ByteRange.length).sum := by
  obtain ⟨hwithin, hascending⟩ := planRanges_ranges header totalLen policy
  have hsum : ((planRanges header totalLen policy).ranges.map ByteRange.length).sum ≤ totalLen := by
    have hle := hascending.sum_length_le hwithin (fun range _ => Nat.zero_le range.start)
      (Nat.zero_le totalLen)
    rwa [Nat.zero_add] at hle
  refine ⟨hwithin, ?_, hsum, planRangesChecked_eq header policy, ?_, ?_⟩
  · intro ranges hmulti
    obtain ⟨-, hinside, hordered⟩ := planRanges_multi hmulti
    obtain ⟨htwo, hfew⟩ := planRanges_multi_length hmulti
    exact ⟨htwo, hfew, hordered.and (hordered.disjoint hinside)⟩
  · apply List.map_congr_left
    intro range hrange
    exact ByteRange.lengthChecked_eq (hwithin range hrange) hfit
  · have hbounded : 0 + ((planRanges header totalLen policy).ranges.map ByteRange.length).sum <
        2 ^ 64 := by
      omega
    rw [Checked.sum_of_lt hbounded, Nat.zero_add]

/-- The first and the last bytes of a file of the largest length. -/
theorem ranges_never_amplify_largest :
    planRanges "bytes=0-0,-18446744073709551614" 18446744073709551615 ⟨true, 2⟩ =
        .multi [⟨0, 0⟩, ⟨1, 18446744073709551614⟩] ∧
      Checked.sum 64 0 ((planRanges "bytes=0-0,-18446744073709551614" 18446744073709551615
        ⟨true, 2⟩).ranges.map ByteRange.length) = some 18446744073709551615 := by
  have hmulti : planRanges "bytes=0-0,-18446744073709551614" 18446744073709551615 ⟨true, 2⟩ =
      .multi [⟨0, 0⟩, ⟨1, 18446744073709551614⟩] := by
    decide
  obtain ⟨-, -, -, -, -, hsum⟩ := ranges_never_amplify "bytes=0-0,-18446744073709551614"
    18446744073709551615 ⟨true, 2⟩ (by decide)
  refine ⟨hmulti, hsum.trans ?_⟩
  rw [hmulti]
  rfl

end EnvoyFiles.Range
