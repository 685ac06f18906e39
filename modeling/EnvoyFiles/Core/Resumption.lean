import EnvoyFiles.Core.SingleRange

/-!
# The rest of a file

A client that holds the start of a file asks for the rest of it under the entity tag that
the start came with.  A plan with a part of the file is then one for the version with that
tag, and its part is the rest; where the file is still of that version, the plan is such
a part.
-/

namespace EnvoyFiles

open Text Range Conditional

/-- The `Range` header that asks for everything from a position on. -/
def restText (start : ℕ) : String :=
  "bytes=" ++ (toString start ++ "-")

/-! ## The range -/

section Header

variable {start totalLen : ℕ} {policy : RangePolicy}

/-- What the header asks for, if its position fits into 64 bits. -/
theorem planSpecs_restText :
    planSpecs totalLen [] false (split (toString start ++ "-") ',') =
      (parseU64 (toString start)).map fun first =>
        (((Spec.openEnded first).resolve totalLen).toList, true) := by
  have hchars : ∀ c ∈ (toString start ++ "-").toList, isAsciiDigit c = true ∨ c = '-' := by
    intro c hc
    rw [String.toList_append] at hc
    rcases List.mem_append.mp hc with hc | hc
    · exact Or.inl ((isDigits_toString _).2 c hc)
    · exact Or.inr (List.mem_singleton.mp hc)
  have hsplit : split (toString start ++ "-") ',' = [toString start ++ "-"] := by
    apply split_of_not_mem
    intro hcomma
    rcases hchars _ hcomma with hdigit | hdash
    · exact isAsciiDigit_not_comma hdigit rfl
    · cases hdash
  have htrim : trim (toString start ++ "-") = toString start ++ "-" := by
    apply trim_of_solid
    intro c hc
    rcases hchars c hc with hdigit | rfl
    · exact isAsciiDigit_solid hdigit
    · decide
  have hnonempty : (toString start ++ "-").isEmpty = false := by simp
  rw [hsplit]
  unfold planSpecs
  dsimp only
  rw [htrim, hnonempty, parseOneSpec_openEnded (isDigits_toString _)]
  cases parseU64 (toString start) with
  | none => rfl
  | some first =>
      rw [Option.map_some, Option.map_some, Spec.result]
      cases (Spec.openEnded first).resolve totalLen <;> rfl

/-- Where there is a rest, it is planned. -/
theorem planRanges_restText (hstart : start < totalLen) (hlen : totalLen ≤ 2 ^ 64) :
    planRanges (restText start) totalLen policy = .single ⟨start, totalLen - 1⟩ := by
  have hspecs : planSpecs totalLen [] false (split (toString start ++ "-") ',') =
      some ([⟨start, totalLen - 1⟩], true) := by
    rw [planSpecs_restText, parseU64_toString (by omega), Option.map_some, Spec.resolve]
    rw [if_pos hstart]
    rfl
  refine planRanges_of_planSpecs hspecs fun range hrange => ?_
  rw [List.mem_singleton.mp hrange]
  exact Nat.le_sub_one_of_lt hstart

/-- No other part is. -/
theorem planRanges_restText_cases :
    planRanges (restText start) totalLen policy = .full ∨
      planRanges (restText start) totalLen policy = .unsatisfiable ∨
      start < totalLen ∧
        planRanges (restText start) totalLen policy = .single ⟨start, totalLen - 1⟩ := by
  have hspecs := @planSpecs_restText start totalLen
  rw [planRanges, restText]
  rw [stripPrefix_append]
  dsimp only
  rw [hspecs]
  cases hparse : parseU64 (toString start) with
  | none => exact Or.inl rfl
  | some first =>
      rw [parseU64] at hparse
      rw [toString_toList, decimalValue_toDigits] at hparse
      obtain ⟨-, hfirst⟩ := Option.ite_none_right_eq_some.mp hparse
      obtain rfl := Option.some.inj hfirst
      rw [Option.map_some, Spec.resolve]
      by_cases hstart : start < totalLen
      · rw [if_pos hstart]
        exact Or.inr (Or.inr ⟨hstart, rfl⟩)
      · rw [if_neg hstart]
        exact Or.inr (Or.inl rfl)

end Header

/-! ## The plan -/

section Plans

variable {crates : Crates} (hreads : ReadsValidators crates) {facts : RequestFacts}
  {fileMeta : FileMeta} {plan : ResponsePlan} {tag : String} (htag : IsEtagText tag) {start : ℕ}

include hreads htag in
/-- `If-Range` with a tag permits a part of the version with that tag only. -/
theorem ifRangeMatches_quoted {honour : Bool}
    (h : ifRangeMatches crates (quoted tag) (validatorsOf fileMeta) = some honour) :
    honour = decide (fileMeta.tag = tag) := by
  obtain ⟨isModified, hdecode, hmodified⟩ := hreads.ifRange tag htag
  rw [ifRangeMatches] at h
  rw [hdecode, resourceEtag_eq hreads] at h
  obtain ⟨lastModified, -, rfl⟩ := Option.map_eq_some_iff.mp h
  rw [hmodified _ _ fileMeta.tag_isEtagText]
  simp

include hreads htag in
/-- A part that is planned under a tag is the rest of the version with that tag. -/
theorem planResponse_rest (hplan : planResponse crates facts fileMeta = some plan)
    (hstatus : plan.status = 206) (hrange : facts.rangeHeader = some (restText start))
    (hifRange : facts.conditionals.ifRange = some (quoted tag)) :
    fileMeta.tag = tag ∧ start < fileMeta.size ∧
      plan.body = bodyUnlessHead facts (.segments [⟨start, fileMeta.size - 1⟩]) := by
  have hfull (h : planFull crates facts fileMeta (validatorsOf fileMeta) = some plan) : False := by
    have hok := (planFull_validators h).1
    omega
  rw [planResponse_eq] at hplan
  split at hplan
  · cases hplan
  · cases hplan
    cases hstatus
  · obtain ⟨headers, -, rfl⟩ := Option.map_eq_some_iff.mp hplan
    cases hstatus
  · rw [planProceed] at hplan
    rw [hrange] at hplan
    obtain ⟨honour, hok, hplan⟩ := Option.bind_eq_some_iff.mp hplan
    rw [ifRangeOk] at hok
    rw [hifRange] at hok
    have hsame := ifRangeMatches_quoted hreads htag hok
    split at hplan
    · next hhonoured =>
        rcases @planRanges_restText_cases start fileMeta.size facts.rangePolicy with
          hall | hnone | ⟨hstart, hsingle⟩
        · rw [hall] at hplan
          exact (hfull hplan).elim
        · rw [hnone] at hplan
          obtain ⟨text, -, hplan⟩ := Option.bind_eq_some_iff.mp hplan
          cases hplan
          cases hstatus
        · rw [hsingle] at hplan
          rw [hhonoured] at hsame
          exact ⟨of_decide_eq_true hsame.symm, hstart, (planSingle_body hplan).1⟩
    · exact (hfull hplan).elim

include hreads htag in
/-- Where the file is still of the version with the tag, the rest is planned. -/
theorem planResponse_resumes (hplan : planResponse crates facts fileMeta = some plan)
    (hconditionals : facts.conditionals = { noConditionals with ifRange := some (quoted tag) })
    (hrange : facts.rangeHeader = some (restText start)) (hsame : fileMeta.tag = tag)
    (hstart : start < fileMeta.size) (hlen : fileMeta.size ≤ 2 ^ 64) : plan.status = 206 := by
  have hproceed : evaluateConditionals crates (effectiveConditionals facts)
      (validatorsOf fileMeta) = some .proceed := by
    have hnone : ∀ enabled : Bool, (if enabled then (none : Option String) else none) = none := by
      simp
    simp only [effectiveConditionals, hconditionals, noConditionals, hnone]
    rfl
  rw [planResponse_eq, hproceed] at hplan
  dsimp only at hplan
  rw [planProceed] at hplan
  rw [hrange] at hplan
  obtain ⟨honour, hok, hplan⟩ := Option.bind_eq_some_iff.mp hplan
  rw [ifRangeOk] at hok
  rw [hconditionals] at hok
  rw [ifRangeMatches_quoted hreads htag hok, decide_eq_true hsame, if_pos rfl,
    planRanges_restText hstart hlen] at hplan
  exact (planSingle_validators hplan).1

include hreads htag in
/-- A 304 for a tag is one for the version with that tag. -/
theorem planResponse_current (hplan : planResponse crates facts fileMeta = some plan)
    (hstatus : plan.status = 304) (hetag : facts.etagEnabled = true)
    (hifNoneMatch : facts.conditionals.ifNoneMatch = some (quoted tag)) :
    fileMeta.tag = tag := by
  rw [planResponse_eq] at hplan
  split at hplan
  · cases hplan
  · cases hplan
    cases hstatus
  · next hcondition =>
      obtain ⟨failed, -, hcondition⟩ := Option.bind_eq_some_iff.mp hcondition
      split at hcondition
      · cases hcondition
      · obtain ⟨current, hcurrent, hcondition⟩ := Option.bind_eq_some_iff.mp hcondition
        split at hcondition
        · next hmatches =>
            obtain ⟨passes, hdecode, hpasses⟩ := hreads.ifNoneMatch tag htag
            rw [isNotModified, effectiveConditionals] at hcurrent
            dsimp only at hcurrent
            rw [hetag, if_pos rfl, hifNoneMatch] at hcurrent
            dsimp only at hcurrent
            rw [hdecode, resourceEtag_eq hreads] at hcurrent
            dsimp only at hcurrent
            rw [hpasses _ fileMeta.tag_isEtagText, hmatches] at hcurrent
            simpa using hcurrent
        · cases hcondition
  · rcases (planProceed_validators hplan).1 with hother | hother | hother <;> omega

/-- A part is planned for a range only. -/
theorem rangeHeader_of_partialContent (hplan : planResponse crates facts fileMeta = some plan)
    (hstatus : plan.status = 206) : facts.rangeHeader ≠ none := by
  intro hnone
  rw [planResponse_eq] at hplan
  split at hplan
  · cases hplan
  · cases hplan
    cases hstatus
  · obtain ⟨headers, -, rfl⟩ := Option.map_eq_some_iff.mp hplan
    cases hstatus
  · rw [planProceed] at hplan
    rw [hnone] at hplan
    have hok := (planFull_validators hplan).1
    omega

/-- The tag of a plan is that of the file. -/
theorem planResponse_tag {etag : String} (hplan : planResponse crates facts fileMeta = some plan)
    (hetag : ("etag", etag) ∈ plan.headers) : etag = quoted fileMeta.tag := by
  rcases planResponse_validators hplan _ _ hetag (Or.inl rfl) with ⟨-, htext⟩ | ⟨hname, -⟩
  · rw [htext, makeEtag_eq_quoted]
  · exact absurd hname (by decide)

/-- A plain response with a tag is one of a configuration with tags. -/
theorem planFull_tagged {validators : Validators} {etag : String}
    (hplan : planFull crates facts fileMeta validators = some plan)
    (hetag : ("etag", etag) ∈ plan.headers) : facts.etagEnabled = true := by
  obtain ⟨headers, hheaders, hvalues, -⟩ := planFull_values hplan
  by_contra hdisabled
  obtain ⟨tags, htags, hheaders⟩ := Option.bind_eq_some_iff.mp hheaders
  obtain ⟨dates, hdates, hheaders⟩ := Option.bind_eq_some_iff.mp hheaders
  rw [if_neg hdisabled] at htags
  cases htags
  cases hheaders
  have hnone : headerValues "etag" ([] ++ dates) = [] := by
    rw [headerValues_eq_nil, List.nil_append]
    intro text hmem
    split at hdates
    · obtain ⟨date, -, rfl⟩ := Option.map_eq_some_iff.mp hdates
      simp at hmem
    · cases hdates
      cases hmem
  exact headerValues_eq_nil.mp (hvalues.trans hnone) etag hetag

end Plans

end EnvoyFiles
