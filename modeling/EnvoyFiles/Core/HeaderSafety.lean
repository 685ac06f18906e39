import EnvoyFiles.Core.Conditionals
import EnvoyFiles.Core.HeaderText

/-!
# Plans that cannot fail

The planner builds its header values from numbers, dates and literals, and from two texts it
is given: the content type and the cache policy.  A plan fails only through these two.
-/

namespace EnvoyFiles

open Text Range Conditional

/-- What the planner takes from other crates can stand in a header: an HTTP date, and the
content type of a known extension. -/
structure Crates.FormatsText (crates : Crates) : Prop where
  date : ∀ unix < 253402300800, ValidHeaderText (crates.fmtHttpDate unix)
  mime : ∀ ext text, crates.mimeFromExt ext = some text → ValidHeaderText text

/-- The texts of a request can stand in a header. -/
structure RequestFacts.ValidTexts (facts : RequestFacts) : Prop where
  boundary : Printable facts.boundary
  contentType : ValidHeaderText facts.contentType
  cacheControl : ∀ text, facts.cacheControl = some text → ValidHeaderText text

theorem plain_formatsText : Crates.plain.FormatsText where
  date _ _ := (by decide : ValidHeaderText "Thu, 01 Jan 1970 00:00:00 GMT")
  mime _ _ := nofun

theorem value_of_valid {s : String} (h : ValidHeaderText s) : value s = some s :=
  value_eq_some.mpr ⟨rfl, h⟩

section Planning

variable {crates : Crates} {facts : RequestFacts} {fileMeta : FileMeta}
  {validators : Validators}

theorem formatHttpDate_valid (hcrates : crates.FormatsText) {unix : ℤ}
    (hmtime : (httpDateFrom unix).isSome) :
    ∃ text, formatHttpDate crates unix = some text ∧ ValidHeaderText text := by
  rw [formatHttpDate]
  rw [httpDateFrom] at hmtime ⊢
  by_cases hrange : 0 ≤ unix ∧ unix < 253402300800
  · rw [if_pos hrange]
    exact ⟨_, rfl, hcrates.date _ (by omega)⟩
  · rw [if_neg hrange] at hmtime
    nomatch hmtime

theorem pushValidatorHeaders_isSome {date : String}
    (hdate : formatHttpDate crates validators.lastModifiedUnix = some date)
    (hvalid : ValidHeaderText date) (hetag : ValidHeaderText validators.etag) :
    ∃ headers, pushValidatorHeaders crates facts validators = some headers := by
  rw [pushValidatorHeaders]
  rw [value_of_valid hetag, hdate, Option.bind_some, value_of_valid hvalid]
  by_cases hetagEnabled : facts.etagEnabled
  · rw [if_pos hetagEnabled]
    by_cases hmodifiedEnabled : facts.lastModifiedEnabled
    · rw [if_pos hmodifiedEnabled]
      exact ⟨_, rfl⟩
    · rw [if_neg hmodifiedEnabled]
      exact ⟨_, rfl⟩
  · rw [if_neg hetagEnabled]
    by_cases hmodifiedEnabled : facts.lastModifiedEnabled
    · rw [if_pos hmodifiedEnabled]
      exact ⟨_, rfl⟩
    · rw [if_neg hmodifiedEnabled]
      exact ⟨_, rfl⟩

/-- The validators of a file whose modification time can be formatted can stand in a
header. -/
theorem pushValidatorHeaders_validatorsOf (hcrates : crates.FormatsText)
    (hmtime : (httpDateFrom fileMeta.mtimeUnix).isSome) :
    ∃ headers, pushValidatorHeaders crates facts (validatorsOf fileMeta) = some headers := by
  obtain ⟨date, hdate, hvalid⟩ := formatHttpDate_valid hcrates hmtime
  exact pushValidatorHeaders_isSome hdate hvalid (printable_makeEtag _ _ _).valid

/-- The encoding headers fail only through the configured cache policy. -/
theorem pushEncodingHeaders_isSome_iff :
    (∃ headers, pushEncodingHeaders facts = some headers) ↔
      ∀ text, facts.cacheControl = some text → ValidHeaderText text := by
  rw [pushEncodingHeaders]
  cases hcache : facts.cacheControl with
  | none =>
      constructor
      · intro _ text htext
        nomatch htext
      · intro _
        exact ⟨_, rfl⟩
  | some cacheControl =>
      constructor
      · rintro ⟨headers, hheaders⟩ text htext
        cases htext
        obtain ⟨cached, hcached, -⟩ := Option.bind_eq_some_iff.mp hheaders
        obtain ⟨v, hv, -⟩ := Option.map_eq_some_iff.mp hcached
        exact (value_eq_some.mp hv).2
      · intro hvalid
        dsimp only
        rw [value_of_valid (hvalid cacheControl rfl)]
        exact ⟨_, rfl⟩

/-- The plain response fails only through the content type and the cache policy. -/
theorem planFull_isSome_iff (hvalidators :
      ∃ headers, pushValidatorHeaders crates facts validators = some headers) :
    (∃ plan, planFull crates facts fileMeta validators = some plan) ↔
      ValidHeaderText facts.contentType ∧
        ∀ text, facts.cacheControl = some text → ValidHeaderText text := by
  obtain ⟨validatorHeaders, hvalidators⟩ := hvalidators
  rw [← pushEncodingHeaders_isSome_iff]
  constructor
  · rintro ⟨plan, hplan⟩
    obtain ⟨contentType, _, encodingHeaders, htype, -, hencoding, -⟩ := planFull_eq_some hplan
    exact ⟨(value_eq_some.mp htype).2, encodingHeaders, hencoding⟩
  · rintro ⟨htype, encodingHeaders, hencoding⟩
    rw [planFull]
    rw [value_of_valid htype, hvalidators, hencoding]
    exact ⟨_, rfl⟩

theorem planSingle_isSome {range : ByteRange}
    (hvalidators : ∃ headers, pushValidatorHeaders crates facts validators = some headers)
    (htype : ValidHeaderText facts.contentType)
    (hcache : ∀ text, facts.cacheControl = some text → ValidHeaderText text) :
    ∃ plan, planSingle crates facts fileMeta validators range = some plan := by
  obtain ⟨validatorHeaders, hvalidators⟩ := hvalidators
  obtain ⟨encodingHeaders, hencoding⟩ := pushEncodingHeaders_isSome_iff.mpr hcache
  rw [planSingle]
  rw [value_of_valid htype, hvalidators, hencoding,
    value_of_valid (printable_contentRange range fileMeta.size).valid]
  exact ⟨_, rfl⟩

theorem planMulti_isSome {ranges : List ByteRange}
    (hvalidators : ∃ headers, pushValidatorHeaders crates facts validators = some headers)
    (hboundary : Printable facts.boundary)
    (hcache : ∀ text, facts.cacheControl = some text → ValidHeaderText text) :
    ∃ plan, planMulti crates facts fileMeta validators ranges = some plan := by
  obtain ⟨validatorHeaders, hvalidators⟩ := hvalidators
  obtain ⟨encodingHeaders, hencoding⟩ := pushEncodingHeaders_isSome_iff.mpr hcache
  have hliteral : Printable "multipart/byteranges; boundary=" := by decide
  rw [planMulti]
  rw [value_of_valid (hliteral.append hboundary).valid, hvalidators, hencoding]
  exact ⟨_, rfl⟩

theorem evaluateConditionals_isSome {headers : ConditionalHeaders}
    (hmtime : (httpDateFrom validators.lastModifiedUnix).isSome) :
    ∃ condition, evaluateConditionals crates headers validators = some condition := by
  obtain ⟨fails, hfails⟩ : ∃ fails, preconditionFails crates headers validators = some fails :=
    tagOrDate_isSome hmtime
  obtain ⟨current, hcurrent⟩ : ∃ current, isNotModified crates headers validators = some current :=
    tagOrDate_isSome hmtime
  rw [evaluateConditionals]
  rw [hfails, hcurrent]
  cases fails with
  | true => exact ⟨_, rfl⟩
  | false =>
      cases current with
      | true => exact ⟨_, rfl⟩
      | false => exact ⟨_, rfl⟩

theorem ifRangeOk_isSome (hmtime : (httpDateFrom validators.lastModifiedUnix).isSome) :
    ∃ ok, ifRangeOk crates facts validators = some ok := by
  obtain ⟨seconds, hseconds⟩ := Option.isSome_iff_exists.mp hmtime
  rw [ifRangeOk]
  split
  · rw [ifRangeMatches]
    rw [hseconds]
    split <;> exact ⟨_, rfl⟩
  · exact ⟨_, rfl⟩

theorem planProceed_isSome
    (hmtime : (httpDateFrom validators.lastModifiedUnix).isSome)
    (hvalidators : ∃ headers, pushValidatorHeaders crates facts validators = some headers)
    (hboundary : Printable facts.boundary) (htype : ValidHeaderText facts.contentType)
    (hcache : ∀ text, facts.cacheControl = some text → ValidHeaderText text) :
    ∃ plan, planProceed crates facts fileMeta validators = some plan := by
  have hfull : ∃ plan, planFull crates facts fileMeta validators = some plan :=
    (planFull_isSome_iff hvalidators).mpr ⟨htype, hcache⟩
  obtain ⟨ok, hok⟩ := @ifRangeOk_isSome crates facts validators hmtime
  rw [planProceed]
  split
  · exact hfull
  · rw [hok]
    change ∃ plan, (if ok then _ else _) = some plan
    cases ok with
    | false => exact hfull
    | true =>
        rw [if_pos rfl]
        split
        · rw [value_of_valid (printable_contentRangeUnsatisfied fileMeta.size).valid]
          exact ⟨_, rfl⟩
        · exact planSingle_isSome hvalidators htype hcache
        · exact planMulti_isSome hvalidators hboundary hcache
        · exact hfull

/-- With valid texts, and a modification time that can be formatted, there is a plan. -/
theorem planResponse_isSome (hcrates : crates.FormatsText)
    (hmtime : (httpDateFrom fileMeta.mtimeUnix).isSome) (hboundary : Printable facts.boundary)
    (htype : ValidHeaderText facts.contentType)
    (hcache : ∀ text, facts.cacheControl = some text → ValidHeaderText text) :
    ∃ plan, planResponse crates facts fileMeta = some plan := by
  have hvalidators :
      ∃ headers, pushValidatorHeaders crates facts (validatorsOf fileMeta) = some headers :=
    pushValidatorHeaders_validatorsOf hcrates hmtime
  obtain ⟨condition, hcondition⟩ :=
    @evaluateConditionals_isSome crates (validatorsOf fileMeta) (effectiveConditionals facts)
      hmtime
  rw [planResponse_eq, hcondition]
  cases condition with
  | preconditionFailed => exact ⟨_, rfl⟩
  | notModified =>
      obtain ⟨headers, hheaders⟩ := hvalidators
      rw [hheaders]
      exact ⟨_, rfl⟩
  | proceed => exact planProceed_isSome hmtime hvalidators hboundary htype hcache

/-- A request without conditional headers and ranges gets the plain response. -/
theorem planResponse_unconditional
    (hconditionals : facts.conditionals = ⟨none, none, none, none, none⟩)
    (hrange : facts.rangeHeader = none) :
    planResponse crates facts fileMeta =
      planFull crates facts fileMeta (validatorsOf fileMeta) := by
  have heffective : effectiveConditionals facts = ⟨none, none, none, none, none⟩ := by
    rw [effectiveConditionals]
    rw [hconditionals]
    simp
  unfold planResponse planProceed
  dsimp only
  rw [heffective, hrange]
  rfl

end Planning

end EnvoyFiles
