import EnvoyFiles.Core.Range
import EnvoyFiles.Core.Validators

/-!
# The response planner

The model of `envoy-files-core/src/response_plan.rs`.  Header values are kept
as the text they are built from.  A plan is an `Option`: building a header
value or a date can panic, and then there is no plan.
-/

namespace EnvoyFiles

open Text Range Conditional

/-- `HeaderValue::from_bytes` on text: it fails on control characters other
than tab. -/
def headerValueFromBytes (text : String) : Option String :=
  if text.toList.any fun c => (c.toNat < 0x20 && c != '\t') || c.toNat == 0x7f then
    none
  else
    some text

/-- `value`: a header value that the planner expects to be valid. -/
def value (text : String) : Option String :=
  headerValueFromBytes text

/-- Filesystem facts about the resource being served. -/
structure FileMeta where
  size : ℕ
  mtimeUnix : ℤ
  mtimeNanos : ℕ
  isDir : Bool

/-- What the caller sends as the response body. -/
inductive BodyPlan where
  | empty
  | whole (len : ℕ)
  | segments (ranges : List ByteRange)
  | multipart (parts : List MultipartPart) (terminator : Bytes)
      (contentLength : ℕ)

/-- Everything about the request that influences the plan. -/
structure RequestFacts where
  methodHead : Bool
  conditionals : ConditionalHeaders
  rangeHeader : Option String
  contentType : String
  etagEnabled : Bool
  lastModifiedEnabled : Bool
  rangePolicy : RangePolicy
  boundary : String
  contentEncoding : Option String
  addVary : Bool
  cacheControl : Option String

/-- The fully decided response; header names are lowercase and in emission
order. -/
structure ResponsePlan where
  status : ℕ
  headers : List (String × String)
  body : BodyPlan

def pushValidatorHeaders (crates : Crates) (facts : RequestFacts)
    (validators : Validators) : Option (List (String × String)) := do
  let etag ←
    (if facts.etagEnabled then
      (value validators.etag).map fun v => [("etag", v)]
    else
      some [])
  let lastModified ←
    (if facts.lastModifiedEnabled then
      ((formatHttpDate crates validators.lastModifiedUnix).bind value).map
        fun v => [("last-modified", v)]
    else
      some [])
  return etag ++ lastModified

/-- Content-negotiation headers and, when configured, `cache-control`. -/
def pushEncodingHeaders (facts : RequestFacts) :
    Option (List (String × String)) := do
  let encoding :=
    match facts.contentEncoding with
    | some contentEncoding => [("content-encoding", contentEncoding)]
    | none => []
  let vary :=
    if facts.contentEncoding.isSome || facts.addVary then
      [("vary", "Accept-Encoding")]
    else
      []
  let cacheControl ←
    (match facts.cacheControl with
    | some cacheControl =>
        (value cacheControl).map fun v => [("cache-control", v)]
    | none => some [])
  return encoding ++ vary ++ cacheControl

/-- The conditionals that count: those of a disabled validator are dropped. -/
def effectiveConditionals (facts : RequestFacts) : ConditionalHeaders where
  ifNoneMatch := if facts.etagEnabled then facts.conditionals.ifNoneMatch else none
  ifMatch := if facts.etagEnabled then facts.conditionals.ifMatch else none
  ifModifiedSince :=
    if facts.lastModifiedEnabled then facts.conditionals.ifModifiedSince else none
  ifUnmodifiedSince :=
    if facts.lastModifiedEnabled then facts.conditionals.ifUnmodifiedSince else none
  ifRange := facts.conditionals.ifRange

/-- The body of a response, which a `HEAD` request does not get. -/
def bodyUnlessHead (facts : RequestFacts) (body : BodyPlan) : BodyPlan :=
  if facts.methodHead then .empty else body

/-- The 206 response with one range. -/
def planSingle (crates : Crates) (facts : RequestFacts) (fileMeta : FileMeta)
    (validators : Validators) (range : ByteRange) : Option ResponsePlan := do
  let contentType ← value facts.contentType
  let validatorHeaders ← pushValidatorHeaders crates facts validators
  let encodingHeaders ← pushEncodingHeaders facts
  let contentRangeValue ← value (contentRange range fileMeta.size)
  return {
    status := 206
    headers := [("content-type", contentType), ("accept-ranges", "bytes")] ++
      validatorHeaders ++ encodingHeaders ++
      [("content-range", contentRangeValue),
        ("content-length", toString range.length)]
    body := bodyUnlessHead facts (.segments [range]) }

/-- The 206 response with several ranges. -/
def planMulti (crates : Crates) (facts : RequestFacts) (fileMeta : FileMeta)
    (validators : Validators) (ranges : List ByteRange) : Option ResponsePlan := do
  let (parts, terminator, contentLength) :=
    multipartParts ranges facts.contentType fileMeta.size facts.boundary
  let validatorHeaders ← pushValidatorHeaders crates facts validators
  let encodingHeaders ← pushEncodingHeaders facts
  let contentType ← value ("multipart/byteranges; boundary=" ++ facts.boundary)
  return {
    status := 206
    headers := [("accept-ranges", "bytes")] ++ validatorHeaders ++
      encodingHeaders ++
      [("content-type", contentType), ("content-length", toString contentLength)]
    body := bodyUnlessHead facts (.multipart parts terminator contentLength) }

/-- The plain 200 response. -/
def planFull (crates : Crates) (facts : RequestFacts) (fileMeta : FileMeta)
    (validators : Validators) : Option ResponsePlan := do
  let contentType ← value facts.contentType
  let validatorHeaders ← pushValidatorHeaders crates facts validators
  let encodingHeaders ← pushEncodingHeaders facts
  return {
    status := 200
    headers := [("content-type", contentType), ("accept-ranges", "bytes")] ++
      validatorHeaders ++ encodingHeaders ++
      [("content-length", toString fileMeta.size)]
    body := bodyUnlessHead facts (.whole fileMeta.size) }

/-- Whether the `Range` header may be honoured: `If-Range` absent or
matching. -/
def ifRangeOk (crates : Crates) (facts : RequestFacts) (validators : Validators) :
    Option Bool :=
  match facts.conditionals.ifRange with
  | some ifRangeValue => ifRangeMatches crates ifRangeValue validators
  | none => some true

/-- The part of `plan_response` behind the conditional headers. -/
def planProceed (crates : Crates) (facts : RequestFacts) (fileMeta : FileMeta)
    (validators : Validators) : Option ResponsePlan :=
  match facts.rangeHeader with
  | none => planFull crates facts fileMeta validators
  | some rangeHeader => do
      if ← ifRangeOk crates facts validators then
        match planRanges rangeHeader fileMeta.size facts.rangePolicy with
        | .unsatisfiable => do
            let contentRangeValue ← value (contentRangeUnsatisfied fileMeta.size)
            return {
              status := 416
              headers := [("content-range", contentRangeValue)]
              body := .empty }
        | .single range => planSingle crates facts fileMeta validators range
        | .multi ranges => planMulti crates facts fileMeta validators ranges
        | .full => planFull crates facts fileMeta validators
      else
        planFull crates facts fileMeta validators

/-- The validators of a stat-ed file. -/
def validatorsOf (fileMeta : FileMeta) : Validators where
  etag := makeEtag fileMeta.size fileMeta.mtimeUnix fileMeta.mtimeNanos
  lastModifiedUnix := fileMeta.mtimeUnix

/-- Plans the response for one request against one stat-ed file. -/
def planResponse (crates : Crates) (facts : RequestFacts) (fileMeta : FileMeta) :
    Option ResponsePlan := do
  let validators := validatorsOf fileMeta
  match ← evaluateConditionals crates (effectiveConditionals facts) validators with
  | .preconditionFailed => return { status := 412, headers := [], body := .empty }
  | .notModified => do
      let headers ← pushValidatorHeaders crates facts validators
      return { status := 304, headers, body := .empty }
  | .proceed => planProceed crates facts fileMeta validators

/-! ## The plans with a body -/

section Plans

variable {crates : Crates} {facts : RequestFacts} {fileMeta : FileMeta} {validators : Validators}
  {plan : ResponsePlan}

theorem planFull_eq_some (h : planFull crates facts fileMeta validators = some plan) :
    ∃ contentType validatorHeaders encodingHeaders, value facts.contentType = some contentType ∧
      pushValidatorHeaders crates facts validators = some validatorHeaders ∧
      pushEncodingHeaders facts = some encodingHeaders ∧
      plan = ⟨200, [("content-type", contentType), ("accept-ranges", "bytes")] ++
          validatorHeaders ++ encodingHeaders ++ [("content-length", toString fileMeta.size)],
        bodyUnlessHead facts (.whole fileMeta.size)⟩ := by
  obtain ⟨contentType, htype, h⟩ := Option.bind_eq_some_iff.mp h
  obtain ⟨validatorHeaders, hvalidators, h⟩ := Option.bind_eq_some_iff.mp h
  obtain ⟨encodingHeaders, hencoding, h⟩ := Option.bind_eq_some_iff.mp h
  exact ⟨_, _, _, htype, hvalidators, hencoding, (Option.some.inj h).symm⟩

theorem planSingle_eq_some {range : ByteRange}
    (h : planSingle crates facts fileMeta validators range = some plan) :
    ∃ contentType validatorHeaders encodingHeaders contentRangeValue,
      value facts.contentType = some contentType ∧
      pushValidatorHeaders crates facts validators = some validatorHeaders ∧
      pushEncodingHeaders facts = some encodingHeaders ∧
      value (contentRange range fileMeta.size) = some contentRangeValue ∧
      plan = ⟨206, [("content-type", contentType), ("accept-ranges", "bytes")] ++
          validatorHeaders ++ encodingHeaders ++
          [("content-range", contentRangeValue), ("content-length", toString range.length)],
        bodyUnlessHead facts (.segments [range])⟩ := by
  obtain ⟨contentType, htype, h⟩ := Option.bind_eq_some_iff.mp h
  obtain ⟨validatorHeaders, hvalidators, h⟩ := Option.bind_eq_some_iff.mp h
  obtain ⟨encodingHeaders, hencoding, h⟩ := Option.bind_eq_some_iff.mp h
  obtain ⟨contentRangeValue, hrange, h⟩ := Option.bind_eq_some_iff.mp h
  exact ⟨_, _, _, _, htype, hvalidators, hencoding, hrange, (Option.some.inj h).symm⟩

theorem planMulti_eq_some {ranges : List ByteRange}
    (h : planMulti crates facts fileMeta validators ranges = some plan) :
    let (parts, terminator, contentLength) :=
      multipartParts ranges facts.contentType fileMeta.size facts.boundary
    ∃ validatorHeaders encodingHeaders contentType,
      pushValidatorHeaders crates facts validators = some validatorHeaders ∧
      pushEncodingHeaders facts = some encodingHeaders ∧
      plan = ⟨206, [("accept-ranges", "bytes")] ++ validatorHeaders ++ encodingHeaders ++
          [("content-type", contentType), ("content-length", toString contentLength)],
        bodyUnlessHead facts (.multipart parts terminator contentLength)⟩ := by
  obtain ⟨validatorHeaders, hvalidators, h⟩ := Option.bind_eq_some_iff.mp h
  obtain ⟨encodingHeaders, hencoding, h⟩ := Option.bind_eq_some_iff.mp h
  obtain ⟨contentType, -, h⟩ := Option.bind_eq_some_iff.mp h
  exact ⟨_, _, _, hvalidators, hencoding, (Option.some.inj h).symm⟩

/-- The response by the outcome of the conditional headers. -/
theorem planResponse_eq :
    planResponse crates facts fileMeta =
      match evaluateConditionals crates (effectiveConditionals facts) (validatorsOf fileMeta) with
      | none => none
      | some .preconditionFailed => some ⟨412, [], .empty⟩
      | some .notModified =>
          (pushValidatorHeaders crates facts (validatorsOf fileMeta)).map fun headers =>
            ⟨304, headers, .empty⟩
      | some .proceed => planProceed crates facts fileMeta (validatorsOf fileMeta) := by
  unfold planResponse
  dsimp only
  cases evaluateConditionals crates (effectiveConditionals facts) (validatorsOf fileMeta) with
  | none => rfl
  | some condition =>
      cases condition with
      | preconditionFailed => rfl
      | notModified =>
          cases pushValidatorHeaders crates facts (validatorsOf fileMeta) <;> rfl
      | proceed => rfl

end Plans

end EnvoyFiles
