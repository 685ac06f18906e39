import EnvoyFiles.Core.ResponsePlan

/-!
# The bodies the planner produces

Every plan has no body, the whole file, one range of it or a multipart body of
several ranges, and a plan with a body announces its length.
-/

namespace EnvoyFiles

open Text Range Conditional

/-- The plan's first `content-length` header has this value. -/
def ResponsePlan.Announces (plan : ResponsePlan) (length : ℕ) : Prop :=
  plan.headers.lookup "content-length" = some (toString length)

instance (plan : ResponsePlan) (length : ℕ) :
    Decidable (plan.Announces length) :=
  inferInstanceAs (Decidable (_ = _))

/-- The number of bytes of a planned body. -/
def BodyPlan.total : BodyPlan → ℕ
  | .empty => 0
  | .whole len => len
  | .segments ranges => (ranges.map ByteRange.length).sum
  | .multipart parts terminator _ =>
      (parts.map fun part => part.header.length + part.range.length).sum +
        terminator.length

/-! ## Looking up the content length -/

/-- None of the headers is a `content-length`. -/
def WithoutLength (headers : List (String × String)) : Prop :=
  ∀ header ∈ headers, header.1 ≠ "content-length"

theorem lookup_withoutLength {headers : List (String × String)}
    (h : WithoutLength headers) (rest : List (String × String)) :
    (headers ++ rest).lookup "content-length" = rest.lookup "content-length" := by
  induction headers with
  | nil => rfl
  | cons header headers ih =>
      obtain ⟨name, text⟩ := header
      have hname : ("content-length" == name) = false := by
        have hne := h _ List.mem_cons_self
        simpa using Ne.symm hne
      rw [List.cons_append, List.lookup_cons, hname]
      exact ih fun header hmem => h header (List.mem_cons_of_mem _ hmem)

theorem WithoutLength.append {first second : List (String × String)}
    (hfirst : WithoutLength first) (hsecond : WithoutLength second) :
    WithoutLength (first ++ second) := by
  intro header hmem
  rcases List.mem_append.mp hmem with hmem | hmem
  · exact hfirst header hmem
  · exact hsecond header hmem

theorem withoutLength_nil : WithoutLength [] := nofun

theorem withoutLength_single {name text : String} (h : name ≠ "content-length") :
    WithoutLength [(name, text)] := by
  intro header hmem
  cases List.mem_singleton.mp hmem
  exact h

theorem pushValidatorHeaders_withoutLength {crates : Crates}
    {facts : RequestFacts} {validators : Validators}
    {headers : List (String × String)}
    (h : pushValidatorHeaders crates facts validators = some headers) :
    WithoutLength headers := by
  obtain ⟨etag, hetag, h⟩ := Option.bind_eq_some_iff.mp h
  obtain ⟨lastModified, hlast, h⟩ := Option.bind_eq_some_iff.mp h
  cases h
  refine WithoutLength.append ?_ ?_
  · split at hetag
    · obtain ⟨text, -, rfl⟩ := Option.map_eq_some_iff.mp hetag
      exact withoutLength_single (by decide)
    · cases hetag
      exact withoutLength_nil
  · split at hlast
    · obtain ⟨text, -, rfl⟩ := Option.map_eq_some_iff.mp hlast
      exact withoutLength_single (by decide)
    · cases hlast
      exact withoutLength_nil

theorem pushEncodingHeaders_withoutLength {facts : RequestFacts}
    {headers : List (String × String)}
    (h : pushEncodingHeaders facts = some headers) : WithoutLength headers := by
  obtain ⟨cacheControl, hcache, h⟩ := Option.bind_eq_some_iff.mp h
  cases h
  refine WithoutLength.append (WithoutLength.append ?_ ?_) ?_
  · split
    · exact withoutLength_single (by decide)
    · exact withoutLength_nil
  · split
    · exact withoutLength_single (by decide)
    · exact withoutLength_nil
  · split at hcache
    · obtain ⟨text, -, rfl⟩ := Option.map_eq_some_iff.mp hcache
      exact withoutLength_single (by decide)
    · cases hcache
      exact withoutLength_nil

/-- The headers end with the only `content-length`. -/
def ResponsePlan.EndsWithLength (plan : ResponsePlan) (length : ℕ) : Prop :=
  ∃ front, WithoutLength front ∧
    plan.headers = front ++ [("content-length", toString length)]

theorem ResponsePlan.EndsWithLength.announces {plan : ResponsePlan} {length : ℕ}
    (h : plan.EndsWithLength length) : plan.Announces length := by
  obtain ⟨front, hfront, hheaders⟩ := h
  rw [ResponsePlan.Announces]
  rw [hheaders]
  exact lookup_withoutLength hfront _

theorem ResponsePlan.EndsWithLength.unique {plan : ResponsePlan} {length : ℕ} {text : String}
    (h : plan.EndsWithLength length) (hmem : ("content-length", text) ∈ plan.headers) :
    text = toString length := by
  obtain ⟨front, hfront, hheaders⟩ := h
  rw [hheaders] at hmem
  rcases List.mem_append.mp hmem with hearlier | hlast
  · exact absurd rfl (hfront _ hearlier)
  · rw [List.mem_singleton, Prod.mk.injEq] at hlast
    exact hlast.2

/-! ## The plans with a body -/

section Plans

variable {crates : Crates} {facts : RequestFacts} {fileMeta : FileMeta}
  {validators : Validators} {plan : ResponsePlan}

theorem planFull_body (h : planFull crates facts fileMeta validators = some plan) :
    plan.body = bodyUnlessHead facts (.whole fileMeta.size) ∧
      plan.EndsWithLength fileMeta.size := by
  obtain ⟨contentType, validatorHeaders, encodingHeaders, -, hvalidators, hencoding, rfl⟩ :=
    planFull_eq_some h
  refine ⟨rfl, ?_⟩
  have hfirst : WithoutLength
      [("content-type", contentType), ("accept-ranges", "bytes")] :=
    (withoutLength_single (by decide)).append (withoutLength_single (by decide))
  exact ⟨_, (hfirst.append (pushValidatorHeaders_withoutLength hvalidators)).append
    (pushEncodingHeaders_withoutLength hencoding), rfl⟩

theorem planSingle_body {range : ByteRange}
    (h : planSingle crates facts fileMeta validators range = some plan) :
    plan.body = bodyUnlessHead facts (.segments [range]) ∧
      plan.EndsWithLength range.length := by
  obtain ⟨contentType, validatorHeaders, encodingHeaders, contentRange, -, hvalidators, hencoding,
    -, rfl⟩ := planSingle_eq_some h
  refine ⟨rfl, ?_⟩
  have hfirst : WithoutLength
      [("content-type", contentType), ("accept-ranges", "bytes")] :=
    (withoutLength_single (by decide)).append (withoutLength_single (by decide))
  have hlast : WithoutLength [("content-range", contentRange)] :=
    withoutLength_single (by decide)
  refine ⟨_, ((hfirst.append (pushValidatorHeaders_withoutLength hvalidators)).append
    (pushEncodingHeaders_withoutLength hencoding)).append hlast, ?_⟩
  simp only [List.append_assoc, List.cons_append, List.nil_append]

theorem planMulti_body {ranges : List ByteRange}
    (h : planMulti crates facts fileMeta validators ranges = some plan) :
    let (parts, terminator, contentLength) :=
      multipartParts ranges facts.contentType fileMeta.size facts.boundary
    plan.body = bodyUnlessHead facts (.multipart parts terminator contentLength) ∧
      plan.EndsWithLength contentLength := by
  obtain ⟨validatorHeaders, encodingHeaders, contentType, hvalidators, hencoding, rfl⟩ :=
    planMulti_eq_some h
  refine ⟨rfl, ?_⟩
  have hfirst : WithoutLength [("accept-ranges", "bytes")] :=
    withoutLength_single (by decide)
  have hlast : WithoutLength [("content-type", contentType)] :=
    withoutLength_single (by decide)
  refine ⟨_, ((hfirst.append (pushValidatorHeaders_withoutLength hvalidators)).append
    (pushEncodingHeaders_withoutLength hencoding)).append hlast, ?_⟩
  simp only [List.append_assoc, List.cons_append, List.nil_append]

/-- What `plan_response` plans to send, and the length it announces. -/
inductive PlansBody (facts : RequestFacts) (fileMeta : FileMeta)
    (plan : ResponsePlan) : Prop where
  | empty : plan.body = .empty → PlansBody facts fileMeta plan
  | whole : plan.body = .whole fileMeta.size → plan.Announces fileMeta.size →
      PlansBody facts fileMeta plan
  | single {rangeHeader : String} {range : ByteRange} :
      planRanges rangeHeader fileMeta.size facts.rangePolicy = .single range →
      plan.body = .segments [range] → plan.Announces range.length →
      PlansBody facts fileMeta plan
  | multi {rangeHeader : String} {ranges : List ByteRange}
      {parts : List MultipartPart} {terminator : Bytes} {contentLength : ℕ} :
      planRanges rangeHeader fileMeta.size facts.rangePolicy = .multi ranges →
      multipartParts ranges facts.contentType fileMeta.size facts.boundary =
        (parts, terminator, contentLength) →
      plan.body = .multipart parts terminator contentLength →
      plan.Announces contentLength → PlansBody facts fileMeta plan

/-- A plan with the body of a `GET`, or none for a `HEAD`. -/
theorem PlansBody.unlessHead {body : BodyPlan}
    (hbody : plan.body = bodyUnlessHead facts body)
    (hget : plan.body = body → PlansBody facts fileMeta plan) :
    PlansBody facts fileMeta plan := by
  rw [bodyUnlessHead] at hbody
  split at hbody
  · exact .empty hbody
  · exact hget hbody

/-- How `plan_response` comes to a plan: it has no body and no length, or it is
one of the three kinds with a body. -/
inductive PlanCase (crates : Crates) (facts : RequestFacts) (fileMeta : FileMeta)
    (validators : Validators) (plan : ResponsePlan) : Prop where
  | bare : plan.body = .empty → WithoutLength plan.headers →
      PlanCase crates facts fileMeta validators plan
  | full : planFull crates facts fileMeta validators = some plan →
      PlanCase crates facts fileMeta validators plan
  | single {rangeHeader : String} {range : ByteRange} :
      facts.rangeHeader = some rangeHeader →
      planRanges rangeHeader fileMeta.size facts.rangePolicy = .single range →
      planSingle crates facts fileMeta validators range = some plan →
      PlanCase crates facts fileMeta validators plan
  | multi {rangeHeader : String} {ranges : List ByteRange} :
      facts.rangeHeader = some rangeHeader →
      planRanges rangeHeader fileMeta.size facts.rangePolicy = .multi ranges →
      planMulti crates facts fileMeta validators ranges = some plan →
      PlanCase crates facts fileMeta validators plan

theorem planProceed_cases
    (h : planProceed crates facts fileMeta validators = some plan) :
    PlanCase crates facts fileMeta validators plan := by
  rw [planProceed] at h
  split at h
  · exact .full h
  · next rangeHeader hheader =>
      obtain ⟨honour, -, h⟩ := Option.bind_eq_some_iff.mp h
      split at h
      · split at h
        · obtain ⟨contentRange, -, h⟩ := Option.bind_eq_some_iff.mp h
          cases h
          exact .bare rfl (withoutLength_single (by decide))
        · next range hranges => exact .single hheader hranges h
        · next ranges hranges => exact .multi hheader hranges h
        · exact .full h
      · exact .full h

theorem planResponse_cases (h : planResponse crates facts fileMeta = some plan) :
    PlanCase crates facts fileMeta (validatorsOf fileMeta) plan := by
  obtain ⟨condition, -, h⟩ := Option.bind_eq_some_iff.mp h
  cases condition with
  | preconditionFailed =>
      cases h
      exact .bare rfl withoutLength_nil
  | notModified =>
      obtain ⟨headers, hheaders, h⟩ := Option.bind_eq_some_iff.mp h
      cases h
      exact .bare rfl (pushValidatorHeaders_withoutLength hheaders)
  | proceed => exact planProceed_cases h

/-- Every plan of the planner has one of four bodies. -/
theorem planResponse_body (h : planResponse crates facts fileMeta = some plan) :
    PlansBody facts fileMeta plan := by
  cases planResponse_cases h with
  | bare hbody _ => exact .empty hbody
  | full hfull =>
      obtain ⟨hbody, hlength⟩ := planFull_body hfull
      exact PlansBody.unlessHead hbody fun hbody => .whole hbody hlength.announces
  | single _ hranges hsingle =>
      obtain ⟨hbody, hlength⟩ := planSingle_body hsingle
      exact PlansBody.unlessHead hbody fun hbody =>
        .single hranges hbody hlength.announces
  | multi _ hranges hmulti =>
      obtain ⟨hbody, hlength⟩ := planMulti_body hmulti
      exact PlansBody.unlessHead hbody fun hbody =>
        .multi hranges rfl hbody hlength.announces

end Plans

/-! ## `HEAD` and `GET` -/

/-- The same request with another method. -/
def RequestFacts.withMethod (facts : RequestFacts) (methodHead : Bool) : RequestFacts :=
  { facts with methodHead }

def ResponsePlan.withoutBody (plan : ResponsePlan) : ResponsePlan :=
  { plan with body := .empty }

section Head

variable {crates : Crates} {facts : RequestFacts} {fileMeta : FileMeta}
  {validators : Validators}

theorem pushValidatorHeaders_withMethod (methodHead : Bool) :
    pushValidatorHeaders crates (facts.withMethod methodHead) validators =
      pushValidatorHeaders crates facts validators := rfl

theorem pushEncodingHeaders_withMethod (methodHead : Bool) :
    pushEncodingHeaders (facts.withMethod methodHead) = pushEncodingHeaders facts := rfl

/-- The body is taken out behind whatever is computed first. -/
theorem bind_withoutBody {α : Type} {x : Option α} {f g : α → Option ResponsePlan}
    (h : ∀ a, g a = (f a).map ResponsePlan.withoutBody) :
    x.bind g = (x.bind f).map ResponsePlan.withoutBody := by
  cases x with
  | none => rfl
  | some a => exact h a

theorem planFull_head :
    planFull crates (facts.withMethod true) fileMeta validators =
      (planFull crates (facts.withMethod false) fileMeta validators).map
        ResponsePlan.withoutBody := by
  simp only [planFull]
  simp only [pushValidatorHeaders_withMethod, pushEncodingHeaders_withMethod]
  apply bind_withoutBody
  intro contentType
  apply bind_withoutBody
  intro validatorHeaders
  apply bind_withoutBody
  intro encodingHeaders
  rfl

theorem planSingle_head {range : ByteRange} :
    planSingle crates (facts.withMethod true) fileMeta validators range =
      (planSingle crates (facts.withMethod false) fileMeta validators range).map
        ResponsePlan.withoutBody := by
  simp only [planSingle]
  simp only [pushValidatorHeaders_withMethod, pushEncodingHeaders_withMethod]
  apply bind_withoutBody
  intro contentType
  apply bind_withoutBody
  intro validatorHeaders
  apply bind_withoutBody
  intro encodingHeaders
  apply bind_withoutBody
  intro contentRangeValue
  rfl

theorem planMulti_head {ranges : List ByteRange} :
    planMulti crates (facts.withMethod true) fileMeta validators ranges =
      (planMulti crates (facts.withMethod false) fileMeta validators ranges).map
        ResponsePlan.withoutBody := by
  simp only [planMulti]
  simp only [pushValidatorHeaders_withMethod, pushEncodingHeaders_withMethod]
  apply bind_withoutBody
  intro validatorHeaders
  apply bind_withoutBody
  intro encodingHeaders
  apply bind_withoutBody
  intro contentType
  rfl

theorem planProceed_head :
    planProceed crates (facts.withMethod true) fileMeta validators =
      (planProceed crates (facts.withMethod false) fileMeta validators).map
        ResponsePlan.withoutBody := by
  have hheader (methodHead : Bool) :
      (facts.withMethod methodHead).rangeHeader = facts.rangeHeader := rfl
  have hifRange (methodHead : Bool) :
      ifRangeOk crates (facts.withMethod methodHead) validators =
        ifRangeOk crates facts validators := rfl
  have hpolicy (methodHead : Bool) :
      (facts.withMethod methodHead).rangePolicy = facts.rangePolicy := rfl
  simp only [planProceed]
  simp only [hheader, hifRange, hpolicy]
  cases facts.rangeHeader with
  | none => exact planFull_head
  | some rangeHeader =>
      dsimp only
      cases ifRangeOk crates facts validators with
      | none => rfl
      | some honour =>
          cases honour with
          | false => exact planFull_head
          | true =>
              simp only [Option.bind_eq_bind, Option.bind_some, if_true]
              cases planRanges rangeHeader fileMeta.size facts.rangePolicy with
              | unsatisfiable => cases value (contentRangeUnsatisfied fileMeta.size) <;> rfl
              | single range => exact planSingle_head
              | multi ranges => exact planMulti_head
              | full => exact planFull_head

/-- The plan for `HEAD` is the plan for `GET` without its body. -/
theorem planResponse_head :
    planResponse crates (facts.withMethod true) fileMeta =
      (planResponse crates (facts.withMethod false) fileMeta).map
        ResponsePlan.withoutBody := by
  have hconditionals (methodHead : Bool) :
      effectiveConditionals (facts.withMethod methodHead) = effectiveConditionals facts := rfl
  rw [planResponse_eq, planResponse_eq]
  simp only [hconditionals, pushValidatorHeaders_withMethod, planProceed_head]
  cases evaluateConditionals crates (effectiveConditionals facts) (validatorsOf fileMeta) with
  | none => rfl
  | some condition =>
      cases condition with
      | preconditionFailed => rfl
      | notModified =>
          rw [Option.map_map]
          rfl
      | proceed => rfl

end Head

/-! ## The announced length -/

/-- The part loop adds the lengths up modulo `2 ^ 64`. -/
theorem multipartLoop_length (contentType : String) (total : ℕ)
    (boundary : String) (index contentLength : ℕ) (ranges : List ByteRange) :
    let (parts, contentLength') :=
      multipartLoop contentType total boundary index contentLength ranges
    contentLength' % 2 ^ 64 =
      (contentLength +
        (parts.map fun part => part.header.length + part.range.length).sum) %
          2 ^ 64 := by
  induction ranges generalizing index contentLength with
  | nil => rfl
  | cons range ranges ih =>
      simp only [multipartLoop, List.map_cons, List.sum_cons]
      rw [ih]
      omega

theorem multipartParts_length {ranges : List ByteRange} {contentType : String}
    {total : ℕ} {boundary : String} {parts : List MultipartPart}
    {terminator : Bytes} {contentLength : ℕ}
    (h : multipartParts ranges contentType total boundary =
      (parts, terminator, contentLength)) :
    contentLength =
      (BodyPlan.multipart parts terminator contentLength).total % 2 ^ 64 := by
  have hloop := multipartLoop_length contentType total boundary 0 0 ranges
  cases h
  simp only [BodyPlan.total]
  simp only at hloop
  omega

/-- A plan with a body announces its length, modulo `2 ^ 64`. -/
theorem planResponse_announces {crates : Crates} {facts : RequestFacts}
    {fileMeta : FileMeta} {plan : ResponsePlan}
    (h : planResponse crates facts fileMeta = some plan)
    (hbody : plan.body ≠ .empty) (htotal : plan.body.total < 2 ^ 64) :
    plan.Announces plan.body.total := by
  cases planResponse_body h with
  | empty hempty => exact absurd hempty hbody
  | whole hwhole hlength =>
      rw [hwhole]
      exact hlength
  | single _ hsegments hlength =>
      rw [hsegments]
      simpa [BodyPlan.total] using hlength
  | multi _ hparts hmultipart hlength =>
      have hmod := multipartParts_length hparts
      rw [← hmultipart, Nat.mod_eq_of_lt htotal] at hmod
      rw [← hmod]
      exact hlength

end EnvoyFiles
