import EnvoyFiles.Core.Range
import EnvoyFiles.Support.Strings

/-!
# What a `Range` header asks for

The grammar of range specs, the bytes a spec names in a file of a given length,
and the outcome a list of named ranges deserves.  `plan_ranges` computes that
outcome for every header whose numbers fit in a `u64`.
-/

namespace EnvoyFiles.Range

open Text

/-! ## Specs and the bytes they name -/

inductive Spec where
  /-- `first-last`. -/
  | closed (first last : ℕ)
  /-- `first-`. -/
  | openEnded (first : ℕ)
  /-- `-length`. -/
  | suffix (length : ℕ)
  deriving DecidableEq, Repr

def IsDigits (s : String) : Prop :=
  s ≠ "" ∧ ∀ c ∈ s.toList, isAsciiDigit c = true

/-- The value of a digit string. -/
def digitsValue (s : String) : ℕ :=
  decimalValue s.toList

/-- The texts of the three forms. -/
inductive IsSpec : String → Spec → Prop where
  | closed {first last : String} : IsDigits first → IsDigits last →
      IsSpec (first ++ "-" ++ last) (.closed (digitsValue first) (digitsValue last))
  | openEnded {first : String} : IsDigits first →
      IsSpec (first ++ "-") (.openEnded (digitsValue first))
  | suffix {length : String} : IsDigits length →
      IsSpec ("-" ++ length) (.suffix (digitsValue length))

/-- The range a spec names in a file of `totalLen` bytes, if it names any
byte. -/
def Spec.resolve (totalLen : ℕ) : Spec → Option ByteRange
  | .closed first last =>
      if first ≤ last ∧ first < totalLen then
        some ⟨first, min last (totalLen - 1)⟩
      else
        none
  | .openEnded first => if first < totalLen then some ⟨first, totalLen - 1⟩ else none
  | .suffix length =>
      if 0 < length ∧ 0 < totalLen then
        some ⟨totalLen - min length totalLen, totalLen - 1⟩
      else
        none

/-- Position `i` of a file of `totalLen` bytes is one that the spec asks for. -/
def Spec.Names (totalLen i : ℕ) : Spec → Prop
  | .closed first last => first ≤ i ∧ i ≤ last ∧ i < totalLen
  | .openEnded first => first ≤ i ∧ i < totalLen
  | .suffix length => totalLen ≤ i + length ∧ i < totalLen

/-- The range of a spec holds the positions it names; without a range it names
none. -/
theorem Spec.resolve_names {totalLen i : ℕ} {spec : Spec} :
    spec.Names totalLen i ↔
      ∃ range, spec.resolve totalLen = some range ∧ range.start ≤ i ∧ i ≤ range.stop := by
  cases spec with
  | closed first last =>
      simp only [Names, resolve, Option.ite_none_right_eq_some, Option.some.injEq, and_assoc,
        exists_and_left, exists_eq_left']
      omega
  | openEnded first =>
      simp only [Names, resolve, Option.ite_none_right_eq_some, Option.some.injEq, and_assoc,
        exists_and_left, exists_eq_left']
      omega
  | suffix length =>
      simp only [Names, resolve, Option.ite_none_right_eq_some, Option.some.injEq, and_assoc,
        exists_and_left, exists_eq_left']
      omega

/-- The ranges are in ascending order and do not overlap. -/
def Ascending (ranges : List ByteRange) : Prop :=
  ranges.Pairwise fun first second => first.stop < second.start

instance (ranges : List ByteRange) : Decidable (Ascending ranges) :=
  inferInstanceAs (Decidable (ranges.Pairwise fun first second => first.stop < second.start))

/-- The outcome for the ranges that are left. -/
def outcomeOf (policy : RangePolicy) (ranges : List ByteRange) : RangeOutcome :=
  match ranges with
  | [] => .unsatisfiable
  | [range] => .single range
  | ranges =>
      if policy.allowMulti = true ∧ ranges.length ≤ policy.maxParts ∧ Ascending ranges then
        .multi ranges
      else
        .full

/-- The elements of a list of specs that are not blank. -/
def elements (specs : String) : List String :=
  ((split specs ',').map trim).filter fun element => !element.isEmpty

/-- Every run of digits in a header fits in a `u64`. -/
def DigitsFit (header : String) : Prop :=
  ∀ run ∈ header.toList.splitOnP (fun c => !isAsciiDigit c), decimalValue run < 2 ^ 64

/-! ## Numbers -/

theorem decimalValue_append (before after : List Char) :
    decimalValue (before ++ after) =
      decimalValue before * 10 ^ after.length + decimalValue after := by
  have hfold : ∀ value : ℕ,
      after.foldl (fun value c => value * 10 + (c.toNat - '0'.toNat)) value =
        value * 10 ^ after.length + decimalValue after := by
    induction after with
    | nil => intro value; simp [decimalValue]
    | cons c after ih =>
        intro value
        have hhead : decimalValue (c :: after) =
            (0 * 10 + (c.toNat - '0'.toNat)) * 10 ^ after.length + decimalValue after := ih _
        rw [List.foldl_cons, ih, hhead, List.length_cons, Nat.pow_succ]
        ring
  rw [decimalValue]
  rw [List.foldl_append]
  exact hfold _

/-- A part of a number is no larger than the number. -/
theorem decimalValue_part_le {part digits : List Char} (h : part <:+: digits) :
    decimalValue part ≤ decimalValue digits := by
  obtain ⟨before, after, rfl⟩ := h
  rw [decimalValue_append, decimalValue_append]
  calc decimalValue part
      ≤ decimalValue before * 10 ^ part.length + decimalValue part := Nat.le_add_left _ _
    _ ≤ (decimalValue before * 10 ^ part.length + decimalValue part) * 10 ^ after.length :=
        Nat.le_mul_of_pos_right _ (Nat.pow_pos (by decide))
    _ ≤ _ := Nat.le_add_right _ _

/-- What the first piece of a split starts with. -/
theorem splitOnP_head {p : Char → Bool} {part chars : List Char} (h : part <+: chars)
    (hpart : ∀ c ∈ part, p c = false) :
    ∃ first rest, chars.splitOnP p = first :: rest ∧ part <+: first := by
  induction chars generalizing part with
  | nil =>
      rw [List.prefix_nil] at h
      subst h
      exact ⟨[], [], rfl, List.prefix_rfl⟩
  | cons c chars ih =>
      cases part with
      | nil =>
          obtain ⟨first, rest, hsplit⟩ :=
            List.exists_cons_of_ne_nil (List.splitOnP_ne_nil p (c :: chars))
          exact ⟨first, rest, hsplit, List.nil_prefix⟩
      | cons d part =>
          obtain ⟨rfl, htail⟩ := List.cons_prefix_cons.mp h
          obtain ⟨first, rest, hsplit, hfirst⟩ :=
            ih htail fun c hc => hpart c (List.mem_cons_of_mem _ hc)
          refine ⟨d :: first, rest, ?_, List.cons_prefix_cons.mpr ⟨rfl, hfirst⟩⟩
          rw [List.splitOnP_cons_eq_if_modifyHead, hpart d List.mem_cons_self, hsplit]
          rfl

/-- A part without a separator lies within one piece of a split. -/
theorem splitOnP_part {p : Char → Bool} {part chars : List Char} (h : part <:+: chars)
    (hpart : ∀ c ∈ part, p c = false) :
    ∃ piece ∈ chars.splitOnP p, part <:+: piece := by
  induction chars with
  | nil =>
      rw [List.infix_nil] at h
      subst h
      exact ⟨[], List.mem_cons_self, List.infix_rfl⟩
  | cons c chars ih =>
      rcases List.infix_cons_iff.mp h with hstripped | hinfix
      · obtain ⟨first, rest, hsplit, hfirst⟩ := splitOnP_head hstripped hpart
        refine ⟨first, ?_, hfirst.isInfix⟩
        rw [hsplit]
        exact List.mem_cons_self
      · obtain ⟨piece, hpiece, hwithin⟩ := ih hinfix
        rw [List.splitOnP_cons_eq_if_modifyHead]
        split
        · exact ⟨piece, List.mem_cons_of_mem _ hpiece, hwithin⟩
        · obtain ⟨first, rest, hsplit⟩ :=
            List.exists_cons_of_ne_nil (List.splitOnP_ne_nil p chars)
          rw [hsplit] at hpiece ⊢
          rcases List.mem_cons.mp hpiece with rfl | hrest
          · exact ⟨c :: piece, List.mem_cons_self,
              hwithin.trans (List.suffix_cons _ _).isInfix⟩
          · exact ⟨piece, List.mem_cons_of_mem _ hrest, hwithin⟩

/-- Digits that occur in a header fit in a `u64` with its runs. -/
theorem DigitsFit.value_lt {header digits : String} (hfit : DigitsFit header)
    (hdigits : IsDigits digits) (h : digits.toList <:+: header.toList) :
    digitsValue digits < 2 ^ 64 := by
  have hpart : ∀ c ∈ digits.toList, (!isAsciiDigit c) = false := by
    intro c hc
    rw [hdigits.2 c hc]
    rfl
  obtain ⟨run, hrun, hwithin⟩ := splitOnP_part h hpart
  exact Nat.lt_of_le_of_lt (decimalValue_part_le hwithin) (hfit run hrun)

theorem parseU64_digits (digits : String) :
    parseU64 digits =
      if digitsValue digits < 2 ^ 64 then some (digitsValue digits) else none :=
  rfl

theorem parseU64_eq_some {digits : String} {n : ℕ} (h : parseU64 digits = some n) :
    n = digitsValue digits := by
  unfold parseU64 at h
  dsimp only at h
  split at h
  · exact (Option.some.inj h).symm
  · nomatch h

/-! ## One spec -/

theorem isAllAsciiDigits_iff {s : String} : isAllAsciiDigits s = true ↔ IsDigits s := by
  simp [isAllAsciiDigits, IsDigits, List.all_eq_true]

theorem isAsciiDigit_solid {c : Char} (h : isAsciiDigit c = true) : isWhiteSpace c = false := by
  simp only [isAsciiDigit] at h
  rw [Bool.and_eq_true, decide_eq_true_iff, decide_eq_true_iff] at h
  have hlow : 48 ≤ c.toNat := h.1
  have hhigh : c.toNat ≤ 57 := h.2
  simp only [isWhiteSpace, Bool.or_eq_false_iff, Bool.and_eq_false_iff, decide_eq_false_iff_not,
    beq_eq_false_iff_ne]
  omega

theorem IsDigits.no_dash {s : String} (h : IsDigits s) : '-' ∉ s.toList := by
  intro hdash
  have := h.2 '-' hdash
  exact absurd this (by decide)

/-- The result for a spec that was read. -/
def Spec.result (totalLen : ℕ) (spec : Spec) : SpecResult :=
  match spec.resolve totalLen with
  | none => .unsatisfiable
  | some range => .range range

theorem toList_dash : ("-" : String).toList = ['-'] :=
  rfl

theorem openEndedSpec_eq (first totalLen : ℕ) :
    openEndedSpec first totalLen = (Spec.openEnded first).result totalLen := by
  unfold openEndedSpec Spec.result Spec.resolve
  dsimp only
  by_cases h : first < totalLen
  · rw [if_neg (by omega), if_pos h]
  · rw [if_pos (by omega), if_neg h]

/-- A text that starts with a digit has no dash in front. -/
theorem stripPrefix_dash_digits {first rest : String} (hfirst : IsDigits first) :
    stripPrefix (first ++ rest) "-" = none := by
  rw [Option.eq_none_iff_forall_ne_some]
  intro after hafter
  have hsame := congrArg String.toList (stripPrefix_eq_some.mp hafter)
  rw [String.toList_append, String.toList_append, toList_dash] at hsame
  have hne : first.toList ≠ [] := by simpa using hfirst.1
  obtain ⟨c, chars, hchars⟩ := List.exists_cons_of_ne_nil hne
  rw [hchars, List.cons_append, List.singleton_append, List.cons.injEq] at hsame
  have hdigit := hfirst.2 c (by rw [hchars]; exact List.mem_cons_self)
  rw [hsame.1] at hdigit
  exact absurd hdigit (by decide)

/-- A spec with both ends is read for its numbers. -/
theorem parseOneSpec_closed {first last : String} {totalLen : ℕ} (hfirst : IsDigits first)
    (hlast : IsDigits last) :
    parseOneSpec (first ++ "-" ++ last) totalLen =
      (parseU64 first).bind fun firstBytePos => (parseU64 last).map fun lastBytePos =>
        (Spec.closed firstBytePos lastBytePos).result totalLen := by
  have hsplit : splitOnce (first ++ "-" ++ last) '-' = some (first, last) :=
    (splitOnce_eq_some toList_dash).mpr ⟨rfl, hfirst.no_dash⟩
  rw [parseOneSpec]
  rw [String.append_assoc, stripPrefix_dash_digits hfirst, ← String.append_assoc, hsplit]
  have hfirstEmpty : first.isEmpty = false := by simpa using hfirst.1
  have hlastEmpty : last.isEmpty = false := by simpa using hlast.1
  simp only [hfirstEmpty, isAllAsciiDigits_iff.mpr hfirst, Bool.not_true, Bool.or_self,
    Bool.false_eq_true, if_false, hlastEmpty, isAllAsciiDigits_iff.mpr hlast]
  rcases parseU64 first with _ | firstBytePos
  · rfl
  · rcases parseU64 last with _ | lastBytePos
    · rfl
    · simp only [Option.bind_some, Option.map_some, Spec.result, Spec.resolve]
      by_cases horder : lastBytePos < firstBytePos
      · rw [if_pos horder, if_neg (by omega)]
      · rw [if_neg horder]
        by_cases hinside : firstBytePos < totalLen
        · rw [if_neg (by omega), if_pos (by omega)]
        · rw [if_pos (by omega), if_neg (by omega)]

/-- So is a spec without a last position. -/
theorem parseOneSpec_openEnded {first : String} {totalLen : ℕ} (hfirst : IsDigits first) :
    parseOneSpec (first ++ "-") totalLen =
      (parseU64 first).map fun firstBytePos =>
        (Spec.openEnded firstBytePos).result totalLen := by
  have hsplit : splitOnce (first ++ "-") '-' = some (first, "") := by
    refine (splitOnce_eq_some toList_dash).mpr ⟨?_, hfirst.no_dash⟩
    rw [String.append_empty]
  rw [parseOneSpec]
  rw [stripPrefix_dash_digits hfirst, hsplit]
  have hfirstEmpty : first.isEmpty = false := by simpa using hfirst.1
  simp only [hfirstEmpty, isAllAsciiDigits_iff.mpr hfirst, Bool.not_true, Bool.or_self,
    Bool.false_eq_true, if_false, openEndedSpec_eq]
  rcases parseU64 first with _ | firstBytePos
  · rfl
  · rfl

/-- So is a spec for the end of the file. -/
theorem parseOneSpec_suffix {length : String} {totalLen : ℕ} (hlength : IsDigits length) :
    parseOneSpec ("-" ++ length) totalLen =
      (parseU64 length).map fun suffixLength =>
        (Spec.suffix suffixLength).result totalLen := by
  rw [parseOneSpec]
  rw [stripPrefix_append]
  have hempty : length.isEmpty = false := by simpa using hlength.1
  simp only [parseSuffixSpec]
  simp only [hempty, isAllAsciiDigits_iff.mpr hlength, Bool.not_true, Bool.or_self,
    Bool.false_eq_true, if_false]
  rcases parseU64 length with _ | suffixLength
  · rfl
  · simp only [Option.map_some, Spec.result, Spec.resolve]
    by_cases hnone : suffixLength = 0 ∨ totalLen = 0
    · rw [if_pos hnone, if_neg (by omega)]
    · have hnames : 0 < suffixLength ∧ 0 < totalLen := by omega
      rw [if_neg hnone]
      by_cases hlong : totalLen ≤ suffixLength
      · rw [if_pos hlong, if_pos hnames, Nat.min_eq_right hlong, Nat.sub_self]
      · rw [if_neg hlong, if_pos hnames, Nat.min_eq_left (by omega)]

/-- The numbers of a spec fit in a `u64`. -/
def Spec.Fits : Spec → Prop
  | .closed first last => first < 2 ^ 64 ∧ last < 2 ^ 64
  | .openEnded first => first < 2 ^ 64
  | .suffix length => length < 2 ^ 64

instance (spec : Spec) : Decidable spec.Fits :=
  match spec with
  | .closed first last => inferInstanceAs (Decidable (first < 2 ^ 64 ∧ last < 2 ^ 64))
  | .openEnded first => inferInstanceAs (Decidable (first < 2 ^ 64))
  | .suffix length => inferInstanceAs (Decidable (length < 2 ^ 64))

/-- The numbers of a spec fit with those of a header that it occurs in. -/
theorem IsSpec.fits {header element : String} {spec : Spec} (h : IsSpec element spec)
    (hfit : DigitsFit header) (helement : element.toList <:+: header.toList) : spec.Fits := by
  cases h with
  | @closed first last hfirst hlast =>
      have hfirstIn : first.toList <:+: header.toList := by
        refine List.IsInfix.trans ?_ helement
        rw [String.toList_append, String.toList_append, List.append_assoc]
        exact (List.prefix_append _ _).isInfix
      have hlastIn : last.toList <:+: header.toList := by
        refine List.IsInfix.trans ?_ helement
        rw [String.toList_append]
        exact (List.suffix_append _ _).isInfix
      exact ⟨hfit.value_lt hfirst hfirstIn, hfit.value_lt hlast hlastIn⟩
  | @openEnded first hfirst =>
      have hfirstIn : first.toList <:+: header.toList := by
        refine List.IsInfix.trans ?_ helement
        rw [String.toList_append]
        exact (List.prefix_append _ _).isInfix
      exact hfit.value_lt hfirst hfirstIn
  | @suffix length hlength =>
      have hlengthIn : length.toList <:+: header.toList := by
        refine List.IsInfix.trans ?_ helement
        rw [String.toList_append]
        exact (List.suffix_append _ _).isInfix
      exact hfit.value_lt hlength hlengthIn

/-- A spec is read if its numbers fit. -/
theorem parseOneSpec_fits {element : String} {spec : Spec} {totalLen : ℕ}
    (h : IsSpec element spec) :
    parseOneSpec element totalLen =
      if spec.Fits then some (spec.result totalLen) else none := by
  cases h with
  | @closed first last hfirst hlast =>
      rw [parseOneSpec_closed hfirst hlast, parseU64_digits, parseU64_digits]
      by_cases hfirstFits : digitsValue first < 2 ^ 64
      · by_cases hlastFits : digitsValue last < 2 ^ 64
        · have hfits : (Spec.closed (digitsValue first) (digitsValue last)).Fits :=
            ⟨hfirstFits, hlastFits⟩
          rw [if_pos hfirstFits, if_pos hlastFits, if_pos hfits]
          rfl
        · have hlarge : ¬(Spec.closed (digitsValue first) (digitsValue last)).Fits :=
            fun hfits => hlastFits hfits.2
          rw [if_pos hfirstFits, if_neg hlastFits, if_neg hlarge]
          rfl
      · have hlarge : ¬(Spec.closed (digitsValue first) (digitsValue last)).Fits :=
          fun hfits => hfirstFits hfits.1
        rw [if_neg hfirstFits, if_neg hlarge]
        rfl
  | openEnded hfirst =>
      rw [parseOneSpec_openEnded hfirst, parseU64_digits]
      exact apply_ite _ _ _ _
  | suffix hlength =>
      rw [parseOneSpec_suffix hlength, parseU64_digits]
      exact apply_ite _ _ _ _

/-- What is read as a spec is one. -/
theorem isSpec_of_parseOneSpec {element : String} {totalLen : ℕ} {result : SpecResult}
    (h : parseOneSpec element totalLen = some result) : ∃ spec, IsSpec element spec := by
  rw [parseOneSpec] at h
  split at h
  · next suffixDigits hstrip =>
      rw [parseSuffixSpec] at h
      split at h
      · nomatch h
      · next hdigits =>
          rw [Bool.or_eq_true, not_or, Bool.not_eq_true', Bool.not_eq_false] at hdigits
          rw [stripPrefix_eq_some.mp hstrip]
          exact ⟨_, .suffix (isAllAsciiDigits_iff.mp hdigits.2)⟩
  · split at h
    · nomatch h
    · next firstDigits lastDigits hsplit =>
        obtain ⟨rfl, -⟩ := (splitOnce_eq_some toList_dash).mp hsplit
        split at h
        · nomatch h
        · next hfirst =>
            rw [Bool.or_eq_true, not_or, Bool.not_eq_true', Bool.not_eq_false] at hfirst
            have hfirst' := isAllAsciiDigits_iff.mp hfirst.2
            split at h
            · nomatch h
            · split at h
              · next hlast =>
                  rw [String.isEmpty_iff] at hlast
                  rw [hlast, String.append_empty]
                  exact ⟨_, .openEnded hfirst'⟩
              · split at h
                · nomatch h
                · next hlast =>
                    rw [Bool.not_eq_true', Bool.not_eq_false] at hlast
                    exact ⟨_, .closed hfirst' (isAllAsciiDigits_iff.mp hlast)⟩

/-- A spec that was read has the result its text asks for. -/
theorem parseOneSpec_eq_some {element : String} {totalLen : ℕ} {result : SpecResult}
    (h : parseOneSpec element totalLen = some result) :
    ∃ spec, IsSpec element spec ∧ result = spec.result totalLen := by
  obtain ⟨spec, hspec⟩ := isSpec_of_parseOneSpec h
  refine ⟨spec, hspec, ?_⟩
  cases hspec with
  | closed hfirst hlast =>
      rw [parseOneSpec_closed hfirst hlast] at h
      obtain ⟨firstBytePos, hfirstBytePos, h⟩ := Option.bind_eq_some_iff.mp h
      obtain ⟨lastBytePos, hlastBytePos, rfl⟩ := Option.map_eq_some_iff.mp h
      rw [parseU64_eq_some hfirstBytePos, parseU64_eq_some hlastBytePos]
  | openEnded hfirst =>
      rw [parseOneSpec_openEnded hfirst] at h
      obtain ⟨firstBytePos, hfirstBytePos, rfl⟩ := Option.map_eq_some_iff.mp h
      rw [parseU64_eq_some hfirstBytePos]
  | suffix hlength =>
      rw [parseOneSpec_suffix hlength] at h
      obtain ⟨suffixLength, hsuffixLength, rfl⟩ := Option.map_eq_some_iff.mp h
      rw [parseU64_eq_some hsuffixLength]

/-! ## A list of specs -/

/-- The spec loop reads all specs, or gives up at a number that does not fit. -/
theorem planSpecs_fits {totalLen : ℕ} {pieces : List String} {specs : List Spec}
    {valid : List ByteRange} {saw : Bool}
    (h : List.Forall₂ IsSpec ((pieces.map trim).filter fun element => !element.isEmpty)
      specs) :
    planSpecs totalLen valid saw pieces =
      if ∀ spec ∈ specs, spec.Fits then
        some (valid ++ specs.filterMap (Spec.resolve totalLen), saw || !specs.isEmpty)
      else
        none := by
  induction pieces generalizing specs valid saw with
  | nil =>
      cases h
      simp [planSpecs]
  | cons piece rest ih =>
      rw [List.map_cons] at h
      simp only [planSpecs]
      by_cases hblank : (trim piece).isEmpty = true
      · rw [List.filter_cons_of_neg (by simpa using hblank)] at h
        rw [if_pos hblank]
        exact ih h
      · rw [List.filter_cons_of_pos (by simpa using hblank)] at h
        obtain ⟨spec, others, hspec, hothers, rfl⟩ := List.forall₂_cons_left_iff.mp h
        rw [if_neg hblank, parseOneSpec_fits hspec]
        simp only [List.forall_mem_cons]
        by_cases hfits : spec.Fits
        · rw [if_pos hfits, Spec.result]
          cases hresolve : spec.resolve totalLen with
          | none =>
              dsimp only
              rw [ih hothers, List.filterMap_cons_none hresolve]
              simp [hfits]
          | some range =>
              dsimp only
              rw [ih hothers, List.filterMap_cons_some hresolve, List.append_assoc]
              simp [hfits]
        · rw [if_neg hfits, if_neg fun hall => hfits hall.1]

/-- The spec loop gives up at an element that is no spec. -/
theorem planSpecs_eq_none {totalLen : ℕ} {pieces : List String} {valid : List ByteRange}
    {saw : Bool} {element : String}
    (hmem : element ∈ (pieces.map trim).filter fun element => !element.isEmpty)
    (h : ¬∃ spec, IsSpec element spec) : planSpecs totalLen valid saw pieces = none := by
  induction pieces generalizing valid saw with
  | nil => nomatch hmem
  | cons piece rest ih =>
      rw [List.map_cons] at hmem
      unfold planSpecs
      dsimp only
      by_cases hblank : (trim piece).isEmpty = true
      · rw [List.filter_cons_of_neg (by simpa using hblank)] at hmem
        rw [if_pos hblank]
        exact ih hmem
      · rw [List.filter_cons_of_pos (by simpa using hblank)] at hmem
        rw [if_neg hblank]
        rcases List.mem_cons.mp hmem with rfl | hrest
        · split
          · rfl
          · next hparse => exact absurd (isSpec_of_parseOneSpec hparse) h
          · next hparse => exact absurd (isSpec_of_parseOneSpec hparse) h
        · split
          · rfl
          · exact ih hrest
          · exact ih hrest

/-- Blank elements are skipped. -/
theorem planSpecs_of_blank {totalLen : ℕ} {pieces : List String} {valid : List ByteRange}
    {saw : Bool} (h : (pieces.map trim).filter (fun element => !element.isEmpty) = []) :
    planSpecs totalLen valid saw pieces = some (valid, saw) := by
  induction pieces with
  | nil => rfl
  | cons piece rest ih =>
      rw [List.map_cons] at h
      unfold planSpecs
      dsimp only
      by_cases hblank : (trim piece).isEmpty = true
      · rw [List.filter_cons_of_neg (by simpa using hblank)] at h
        rw [if_pos hblank]
        exact ih h
      · rw [List.filter_cons_of_pos (by simpa using hblank)] at h
        nomatch h

/-! ## The outcome -/

/-- A range that a spec is resolved to is not empty. -/
theorem Spec.resolve_ordered {totalLen : ℕ} {spec : Spec} {range : ByteRange}
    (h : spec.resolve totalLen = some range) :
    range.start ≤ range.stop ∧ range.stop < totalLen := by
  cases spec with
  | closed first last =>
      rw [resolve, Option.ite_none_right_eq_some] at h
      obtain ⟨hbytes, hrange⟩ := h
      cases hrange
      dsimp only
      omega
  | openEnded first =>
      rw [resolve, Option.ite_none_right_eq_some] at h
      obtain ⟨hbytes, hrange⟩ := h
      cases hrange
      dsimp only
      omega
  | suffix length =>
      rw [resolve, Option.ite_none_right_eq_some] at h
      obtain ⟨hbytes, hrange⟩ := h
      cases hrange
      dsimp only
      omega

/-- Neighbours in order put all ranges in order, as no range is empty. -/
theorem isAscendingNonOverlapping_iff {ranges : List ByteRange}
    (hordered : ∀ range ∈ ranges, range.start ≤ range.stop) :
    isAscendingNonOverlapping ranges = true ↔ Ascending ranges := by
  induction ranges with
  | nil => simp [isAscendingNonOverlapping, Ascending]
  | cons first rest ih =>
      cases rest with
      | nil => simp [isAscendingNonOverlapping, Ascending]
      | cons second rest =>
          have hrest := ih fun range hrange => hordered range (List.mem_cons_of_mem _ hrange)
          have hsecond : second.start ≤ second.stop :=
            hordered second (List.mem_cons_of_mem _ List.mem_cons_self)
          rw [isAscendingNonOverlapping, Bool.and_eq_true, decide_eq_true_eq, hrest]
          simp only [Ascending]
          rw [List.pairwise_cons (l := second :: rest)]
          constructor
          · rintro ⟨hnext, hpairs⟩
            refine ⟨?_, hpairs⟩
            intro range hrange
            rcases List.mem_cons.mp hrange with rfl | hlater
            · exact hnext
            · have hafter := (List.pairwise_cons.mp hpairs).1 range hlater
              omega
          · rintro ⟨hfirst, hpairs⟩
            exact ⟨hfirst second List.mem_cons_self, hpairs⟩

/-- Ranges of which none is empty get the outcome of the policy. -/
theorem planRanges_of_planSpecs {list : String} {totalLen : ℕ} {policy : RangePolicy}
    {ranges : List ByteRange}
    (hspecs : planSpecs totalLen [] false (split list ',') = some (ranges, true))
    (hordered : ∀ range ∈ ranges, range.start ≤ range.stop) :
    planRanges ("bytes=" ++ list) totalLen policy = outcomeOf policy ranges := by
  rw [planRanges]
  rw [stripPrefix_append]
  dsimp only
  rw [hspecs]
  simp only [Bool.not_true, Bool.false_eq_true, if_false]
  cases ranges with
  | nil => rfl
  | cons first rest =>
      cases rest with
      | nil => rfl
      | cons second rest =>
          unfold outcomeOf
          dsimp only
          have horder := isAscendingNonOverlapping_iff hordered
          by_cases hascending : Ascending (first :: second :: rest)
          · simp only [horder.mpr hascending, Bool.not_true, Bool.false_eq_true, if_false,
              hascending, and_true, Bool.or_eq_true, Bool.not_eq_true', decide_eq_true_eq]
            by_cases hlimit : policy.allowMulti = true ∧
                (first :: second :: rest).length ≤ policy.maxParts
            · rw [if_pos hlimit, if_neg]
              rintro (hdenied | hmany)
              · rw [hlimit.1] at hdenied
                nomatch hdenied
              · omega
            · rw [if_neg hlimit, if_pos]
              by_contra hneither
              obtain ⟨hallowed, hfew⟩ := not_or.mp hneither
              rw [Bool.not_eq_false] at hallowed
              exact hlimit ⟨hallowed, by omega⟩
          · have hfalse : isAscendingNonOverlapping (first :: second :: rest) = false := by
              rw [← Bool.not_eq_true, horder]
              exact hascending
            simp [hfalse, hascending]

/-- A well-formed header gets the outcome of the ranges it names if its numbers fit, and
else the whole file. -/
theorem planRanges_fits {list : String} {specs : List Spec} {totalLen : ℕ}
    {policy : RangePolicy} (hspecs : List.Forall₂ IsSpec (elements list) specs)
    (hne : specs ≠ []) :
    planRanges ("bytes=" ++ list) totalLen policy =
      if ∀ spec ∈ specs, spec.Fits then
        outcomeOf policy (specs.filterMap (Spec.resolve totalLen))
      else
        .full := by
  have hfound := @planSpecs_fits totalLen (split list ',') specs [] false hspecs
  by_cases hfits : ∀ spec ∈ specs, spec.Fits
  · have hsome : specs.isEmpty = false := by simpa using hne
    rw [if_pos hfits, hsome, List.nil_append] at hfound
    rw [if_pos hfits]
    apply planRanges_of_planSpecs hfound
    intro range hrange
    obtain ⟨spec, -, hresolve⟩ := List.mem_filterMap.mp hrange
    exact (Spec.resolve_ordered hresolve).1
  · rw [if_neg hfits] at hfound
    rw [if_neg hfits]
    simp only [planRanges, stripPrefix_append, hfound]

/-- The elements of a header occur in it. -/
theorem mem_elements {list element : String} (h : element ∈ elements list) :
    element.toList <:+: ("bytes=" ++ list).toList := by
  obtain ⟨piece, hpiece, rfl⟩ := List.mem_map.mp (List.mem_filter.mp h).1
  apply ((trim_part piece).trans (split_part hpiece)).trans
  rw [String.toList_append]
  exact (List.suffix_append _ _).isInfix

/-- For every header whose numbers fit in a `u64`: well-formed specs get the
outcome of the ranges they name, and anything else the whole file. -/
theorem plan_ranges_meets_grammar (header : String) (totalLen : ℕ) (policy : RangePolicy)
    (hfit : DigitsFit header) :
    (∀ list specs, header = "bytes=" ++ list → elements list ≠ [] →
      List.Forall₂ IsSpec (elements list) specs →
        planRanges header totalLen policy =
          outcomeOf policy (specs.filterMap (Spec.resolve totalLen))) ∧
      (((¬∃ list, header = "bytes=" ++ list) ∨
        ∃ list, header = "bytes=" ++ list ∧
          (elements list = [] ∨ ∃ element ∈ elements list, ¬∃ spec, IsSpec element spec)) →
        planRanges header totalLen policy = .full) := by
  constructor
  · rintro list specs rfl hne hspecs
    have hspecsNe : specs ≠ [] := by
      rintro rfl
      exact hne (List.forall₂_nil_right_iff.mp hspecs)
    have hall : ∀ spec ∈ specs, spec.Fits := by
      intro spec hspec
      obtain ⟨element, helement, hreads⟩ := forall₂_mem_right hspecs hspec
      exact hreads.fits hfit (mem_elements helement)
    rw [planRanges_fits hspecs hspecsNe, if_pos hall]
  · rintro (hmissing | ⟨list, rfl, hblank | ⟨element, helement, hbad⟩⟩)
    · have hnone : stripPrefix header "bytes=" = none := by
        rw [Option.eq_none_iff_forall_ne_some]
        intro list hlist
        exact hmissing ⟨list, stripPrefix_eq_some.mp hlist⟩
      rw [planRanges]
      rw [hnone]
    · rw [planRanges]
      rw [stripPrefix_append]
      dsimp only
      rw [planSpecs_of_blank hblank]
      rfl
    · rw [planRanges]
      rw [stripPrefix_append]
      dsimp only
      rw [planSpecs_eq_none helement hbad]

/-- Two ranges are served, the spec behind the end of the file is dropped. -/
theorem plan_ranges_meets_grammar_three :
    planRanges "bytes=0-1, ,-2,10-" 10 ⟨true, 2⟩ = .multi [⟨0, 1⟩, ⟨8, 9⟩] := by
  have hfit : DigitsFit "bytes=0-1, ,-2,10-" := by
    rw [DigitsFit]
    decide
  have hzero : IsDigits "0" := ⟨by decide, List.all_eq_true.mp rfl⟩
  have hone : IsDigits "1" := ⟨by decide, List.all_eq_true.mp rfl⟩
  have htwo : IsDigits "2" := ⟨by decide, List.all_eq_true.mp rfl⟩
  have hten : IsDigits "10" := ⟨by decide, List.all_eq_true.mp rfl⟩
  have hspecs : List.Forall₂ IsSpec (elements "0-1, ,-2,10-")
      [.closed 0 1, .suffix 2, .openEnded 10] :=
    .cons (.closed hzero hone) (.cons (.suffix htwo) (.cons (.openEnded hten) .nil))
  exact (plan_ranges_meets_grammar _ 10 ⟨true, 2⟩ hfit).1 "0-1, ,-2,10-" _ rfl
    (by decide) hspecs

/-! ## The ranges of an outcome -/

/-- A range of at least one byte within a file of `totalLen` bytes. -/
def ByteRange.Within (range : ByteRange) (totalLen : ℕ) : Prop :=
  range.start ≤ range.stop ∧ range.stop < totalLen

theorem parseOneSpec_within {element : String} {totalLen : ℕ} {range : ByteRange}
    (h : parseOneSpec element totalLen = some (.range range)) : range.Within totalLen := by
  obtain ⟨spec, -, hresult⟩ := parseOneSpec_eq_some h
  rw [Spec.result] at hresult
  split at hresult
  · nomatch hresult
  · next found hresolve =>
      obtain rfl := SpecResult.range.inj hresult
      exact Spec.resolve_ordered hresolve

theorem planSpecs_within {totalLen : ℕ} {pieces : List String}
    {valid ranges : List ByteRange} {saw saw' : Bool}
    (hvalid : ∀ range ∈ valid, range.Within totalLen)
    (h : planSpecs totalLen valid saw pieces = some (ranges, saw')) :
    ∀ range ∈ ranges, range.Within totalLen := by
  induction pieces generalizing valid saw with
  | nil =>
      cases h
      exact hvalid
  | cons piece rest ih =>
      unfold planSpecs at h
      dsimp only at h
      split at h
      · exact ih hvalid h
      · split at h
        · nomatch h
        · exact ih hvalid h
        · next range hparse =>
            refine ih ?_ h
            intro other hother
            rcases List.mem_append.mp hother with hearlier | hlast
            · exact hvalid other hearlier
            · rw [List.mem_singleton.mp hlast]
              exact parseOneSpec_within hparse

/-- The whole file is planned, or what the policy makes of ranges within the file. -/
theorem planRanges_cases (header : String) (totalLen : ℕ) (policy : RangePolicy) :
    planRanges header totalLen policy = .full ∨
      ∃ ranges, (∀ range ∈ ranges, ByteRange.Within range totalLen) ∧
        planRanges header totalLen policy = outcomeOf policy ranges := by
  cases hstripped : stripPrefix header "bytes=" with
  | none =>
      left
      rw [planRanges]
      rw [hstripped]
  | some list =>
      cases hspecs : planSpecs totalLen [] false (split list ',') with
      | none =>
          left
          rw [planRanges]
          rw [hstripped]
          dsimp only
          rw [hspecs]
      | some found =>
          obtain ⟨ranges, sawAnySpec⟩ := found
          rcases sawAnySpec with _ | _
          · left
            rw [planRanges]
            rw [hstripped]
            dsimp only
            rw [hspecs]
            rfl
          · have hwithin := planSpecs_within (by simp) hspecs
            rw [stripPrefix_eq_some.mp hstripped]
            exact Or.inr ⟨ranges, hwithin,
              planRanges_of_planSpecs hspecs fun range hrange => (hwithin range hrange).1⟩

theorem outcomeOf_eq_single {policy : RangePolicy} {ranges : List ByteRange} {range : ByteRange}
    (h : outcomeOf policy ranges = .single range) : ranges = [range] := by
  simp only [outcomeOf] at h
  split at h
  · nomatch h
  · rw [RangeOutcome.single.inj h]
  · split at h
    · nomatch h
    · nomatch h

theorem outcomeOf_eq_multi {policy : RangePolicy} {ranges found : List ByteRange}
    (h : outcomeOf policy found = .multi ranges) :
    ranges = found ∧ 2 ≤ ranges.length ∧ ranges.length ≤ policy.maxParts ∧ Ascending ranges := by
  match found with
  | [] => nomatch h
  | [range] => nomatch h
  | first :: second :: rest =>
      simp only [outcomeOf] at h
      split at h
      · next hallowed =>
          obtain rfl := RangeOutcome.multi.inj h
          exact ⟨rfl, by simp, hallowed.2.1, hallowed.2.2⟩
      · nomatch h

/-- A single range is within the file. -/
theorem planRanges_single {header : String} {totalLen : ℕ} {policy : RangePolicy}
    {range : ByteRange} (h : planRanges header totalLen policy = .single range) :
    range.Within totalLen := by
  rcases planRanges_cases header totalLen policy with hfull | ⟨ranges, hwithin, houtcome⟩
  · nomatch hfull.symm.trans h
  · obtain rfl := outcomeOf_eq_single (houtcome.symm.trans h)
    exact hwithin range List.mem_cons_self

/-- The ranges of a multi-range outcome are within the file, in ascending order
and disjoint. -/
theorem planRanges_multi {header : String} {totalLen : ℕ} {policy : RangePolicy}
    {ranges : List ByteRange} (h : planRanges header totalLen policy = .multi ranges) :
    ranges ≠ [] ∧ (∀ range ∈ ranges, range.Within totalLen) ∧ Ascending ranges := by
  rcases planRanges_cases header totalLen policy with hfull | ⟨found, hwithin, houtcome⟩
  · nomatch hfull.symm.trans h
  · obtain ⟨rfl, htwo, -, hascending⟩ := outcomeOf_eq_multi (houtcome.symm.trans h)
    exact ⟨List.ne_nil_of_length_pos (by omega), hwithin, hascending⟩

/-- There are at least two of them, and no more than the policy allows. -/
theorem planRanges_multi_length {header : String} {totalLen : ℕ} {policy : RangePolicy}
    {ranges : List ByteRange} (h : planRanges header totalLen policy = .multi ranges) :
    2 ≤ ranges.length ∧ ranges.length ≤ policy.maxParts := by
  rcases planRanges_cases header totalLen policy with hfull | ⟨found, -, houtcome⟩
  · nomatch hfull.symm.trans h
  · obtain ⟨-, htwo, hfew, -⟩ := outcomeOf_eq_multi (houtcome.symm.trans h)
    exact ⟨htwo, hfew⟩

/-- No range is within an empty file. -/
theorem planRanges_empty (header : String) (policy : RangePolicy) :
    planRanges header 0 policy = .full ∨ planRanges header 0 policy = .unsatisfiable := by
  cases houtcome : planRanges header 0 policy with
  | full => exact Or.inl rfl
  | unsatisfiable => exact Or.inr rfl
  | single range =>
      have hwithin := planRanges_single houtcome
      rw [ByteRange.Within] at hwithin
      omega
  | multi ranges =>
      obtain ⟨hne, hwithin, -⟩ := planRanges_multi houtcome
      cases ranges with
      | nil => exact absurd rfl hne
      | cons range rest =>
          have hfirst := hwithin range List.mem_cons_self
          rw [ByteRange.Within] at hfirst
          omega

/-- Disjoint ranges hold no more bytes than the file behind the start of the
first. -/
theorem Ascending.sum_length_le {totalLen start : ℕ} {ranges : List ByteRange}
    (hascending : Ascending ranges) (hwithin : ∀ range ∈ ranges, range.Within totalLen)
    (hstart : ∀ range ∈ ranges, start ≤ range.start) (hle : start ≤ totalLen) :
    start + (ranges.map ByteRange.length).sum ≤ totalLen := by
  induction ranges generalizing start with
  | nil => simpa using hle
  | cons range rest ih =>
      obtain ⟨hfirst, hrest⟩ := List.pairwise_cons.mp hascending
      have hrange := hwithin range List.mem_cons_self
      have hfrom := hstart range List.mem_cons_self
      rw [ByteRange.Within] at hrange
      have hlater : range.stop + 1 + (rest.map ByteRange.length).sum ≤ totalLen := ih hrest
        (fun other hother => hwithin other (List.mem_cons_of_mem _ hother))
        (fun other hother => hfirst other hother) (by omega)
      rw [List.map_cons, List.sum_cons]
      rw [ByteRange.length] at *
      omega

end EnvoyFiles.Range
