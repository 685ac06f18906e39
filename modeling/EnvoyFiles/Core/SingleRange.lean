import EnvoyFiles.Core.HeaderSafety
import EnvoyFiles.Core.NotModified
import EnvoyFiles.Core.RangeGrammar

/-!
# One range

A request for bytes `a` to `b` of a file that has them is planned as a 206 with just these
bytes, wherever the request without the range is planned as a 200.
-/

namespace EnvoyFiles

open Text Range Conditional

/-! ## The header -/

/-- The `Range` header that asks for one range. -/
def rangeText (range : ByteRange) : String :=
  "bytes=" ++ (toString range.start ++ "-" ++ toString range.stop)

theorem toString_toList (n : ℕ) : (toString n).toList = Nat.toDigits 10 n := by
  rw [Nat.toString_eq_ofList_toDigits, String.toList_ofList]

theorem isDigits_toString (n : ℕ) : IsDigits (toString n) := by
  have hten : ∀ d < 10, isAsciiDigit (Nat.digitChar d) = true := by decide
  constructor
  · intro hempty
    have hnil := congrArg String.toList hempty
    rw [toString_toList] at hnil
    exact Nat.toDigits_ne_nil hnil
  · intro c hc
    rw [toString_toList] at hc
    obtain ⟨d, hd, rfl⟩ := mem_toDigits (by decide) hc
    exact hten d hd

/-- The digits of a number denote it. -/
theorem decimalValue_toDigits (n : ℕ) : decimalValue (Nat.toDigits 10 n) = n := by
  have hvalue : decimalValue (Nat.toDigits 10 n) =
      Nat.ofDigitChars 10 (Nat.toDigits 10 n) 0 := by
    rw [decimalValue]
    rw [Nat.ofDigitChars_eq_foldl]
    congr 1
    funext value c
    rw [Nat.mul_comm]
  rw [hvalue, Nat.ofDigitChars_ten_toDigits]

theorem toString_injective {n m : ℕ} (h : toString n = toString m) : n = m := by
  have hdigits := congrArg String.toList h
  rw [toString_toList, toString_toList] at hdigits
  rw [← decimalValue_toDigits n, hdigits, decimalValue_toDigits]

theorem parseU64_toString {n : ℕ} (h : n < 2 ^ 64) : parseU64 (toString n) = some n := by
  rw [parseU64]
  rw [toString_toList, decimalValue_toDigits]
  exact if_pos h

section Header

variable {range : ByteRange} {totalLen : ℕ} {policy : RangePolicy}

/-- The characters of a spec are digits and the dash. -/
theorem mem_spec {c : Char}
    (h : c ∈ (toString range.start ++ "-" ++ toString range.stop).toList) :
    isAsciiDigit c = true ∨ c = '-' := by
  rw [String.toList_append, String.toList_append] at h
  rcases List.mem_append.mp h with h | h
  · rcases List.mem_append.mp h with h | h
    · exact Or.inl ((isDigits_toString _).2 c h)
    · exact Or.inr (List.mem_singleton.mp h)
  · exact Or.inl ((isDigits_toString _).2 c h)

theorem isAsciiDigit_not_comma {c : Char} (h : isAsciiDigit c = true) : c ≠ ',' := by
  rintro rfl
  exact absurd h (by decide)

/-- One range inside the file is planned as it is. -/
theorem planRanges_rangeText (horder : range.start ≤ range.stop) (hinside : range.stop < totalLen)
    (hlen : totalLen ≤ 2 ^ 64) :
    planRanges (rangeText range) totalLen policy = .single range := by
  have hparse : parseOneSpec (toString range.start ++ "-" ++ toString range.stop) totalLen =
      some (.range range) := by
    rw [parseOneSpec_closed (isDigits_toString _) (isDigits_toString _),
      parseU64_toString (by omega), parseU64_toString (by omega), Option.bind_some,
      Option.map_some, Spec.result, Spec.resolve]
    rw [if_pos (by omega)]
    dsimp only
    rw [Nat.min_eq_left (by omega)]
  have hsplit : split (toString range.start ++ "-" ++ toString range.stop) ',' =
      [toString range.start ++ "-" ++ toString range.stop] := by
    apply split_of_not_mem
    intro hcomma
    rcases mem_spec hcomma with hdigit | hdash
    · exact isAsciiDigit_not_comma hdigit rfl
    · cases hdash
  have htrim : trim (toString range.start ++ "-" ++ toString range.stop) =
      toString range.start ++ "-" ++ toString range.stop := by
    apply trim_of_solid
    intro c hc
    rcases mem_spec hc with hdigit | rfl
    · exact isAsciiDigit_solid hdigit
    · decide
  have hnonempty : (toString range.start ++ "-" ++ toString range.stop).isEmpty = false := by
    simp
  have hspecs : planSpecs totalLen [] false
      (split (toString range.start ++ "-" ++ toString range.stop) ',') =
        some ([range], true) := by
    rw [hsplit]
    unfold planSpecs
    dsimp only
    rw [htrim, hnonempty, hparse]
    rfl
  exact planRanges_of_planSpecs hspecs (by simpa using horder)

end Header

/-! ## The plan -/

section Plans

variable {crates : Crates} {facts : RequestFacts} {fileMeta : FileMeta} {range : ByteRange}
  {plan : ResponsePlan}

/-- A 200 for the file is behind the conditional headers. -/
theorem planResponse_full (hplan : planResponse crates (facts.withRange none) fileMeta = some plan)
    (hstatus : plan.status = 200) :
    evaluateConditionals crates (effectiveConditionals facts) (validatorsOf fileMeta) =
        some .proceed ∧
      planFull crates facts fileMeta (validatorsOf fileMeta) = some plan := by
  have heffective : effectiveConditionals (facts.withRange none) =
      effectiveConditionals facts := rfl
  rw [planResponse_eq, heffective] at hplan
  split at hplan
  · nomatch hplan
  · cases hplan
    nomatch hstatus
  · obtain ⟨headers, -, rfl⟩ := Option.map_eq_some_iff.mp hplan
    nomatch hstatus
  · next hproceed => exact ⟨hproceed, hplan⟩

/-- Where the plain response can be built, so can the response with one range. -/
theorem planSingle_of_planFull {validators : Validators}
    (h : planFull crates facts fileMeta validators = some plan) :
    ∃ part, planSingle crates facts fileMeta validators range = some part ∧
      headerValues "content-range" part.headers = [contentRange range fileMeta.size] := by
  obtain ⟨contentType, validatorHeaders, encodingHeaders, htype, hvalidators, hencoding, -⟩ :=
    planFull_eq_some h
  rw [planSingle]
  rw [htype, hvalidators, hencoding,
    value_of_valid (printable_contentRange range fileMeta.size).valid]
  refine ⟨_, rfl, ?_⟩
  dsimp only
  rw [headerValues_append, headerValues_append, headerValues_append,
    validatorHeaders_other hvalidators (by decide), encodingHeaders_other hencoding (by decide)]
  rfl

/-- With one range a 200 becomes a 206 with the bytes of the range. -/
theorem planResponse_single
    (hplan : planResponse crates (facts.withRange none) fileMeta = some plan)
    (hstatus : plan.status = 200) (hifRange : facts.conditionals.ifRange = none)
    (hrange : facts.rangeHeader = some (rangeText range)) (horder : range.start ≤ range.stop)
    (hinside : range.stop < fileMeta.size) (hlen : fileMeta.size ≤ 2 ^ 64) :
    ∃ part, planResponse crates facts fileMeta = some part ∧ part.status = 206 ∧
      part.body = bodyUnlessHead facts (.segments [range]) ∧
      headerValues "content-range" part.headers = [contentRange range fileMeta.size] := by
  obtain ⟨hproceed, hfull⟩ := planResponse_full hplan hstatus
  obtain ⟨part, hpart, hcontentRange⟩ := @planSingle_of_planFull _ _ _ range _ _ hfull
  have hok : ifRangeOk crates facts (validatorsOf fileMeta) = some true := by
    rw [ifRangeOk]
    rw [hifRange]
  refine ⟨part, ?_, (planSingle_validators hpart).1, (planSingle_body hpart).1, hcontentRange⟩
  rw [planResponse_eq, hproceed]
  dsimp only
  rw [planProceed]
  rw [hrange]
  dsimp only
  rw [hok]
  simp only [Option.bind_eq_bind, Option.bind_some, if_true]
  rw [planRanges_rangeText horder hinside hlen]
  exact hpart

end Plans

end EnvoyFiles
