import EnvoyFiles.Core.HeaderSafety
import EnvoyFiles.Core.Revalidation

/-!
# Responses without a body for a current copy

A 304 is built on its own, from the validators alone.  It agrees with the response it stands
for in the validators, and leaves out what the planner adds to 200 and 206 responses only.
-/

namespace EnvoyFiles

open Text Range Conditional

/-- The values of a header. -/
def headerValues (name : String) (headers : List (String × String)) : List String :=
  (headers.filter fun header => header.1 == name).map Prod.snd

/-- The request without conditional headers and range. -/
def RequestFacts.unconditional (facts : RequestFacts) : RequestFacts :=
  (facts.withRange none).replay noConditionals

section Values

variable {crates : Crates} {facts : RequestFacts} {fileMeta : FileMeta} {validators : Validators}
  {name : String} {headers : List (String × String)} {plan full : ResponsePlan}

theorem headerValues_append (front back : List (String × String)) :
    headerValues name (front ++ back) = headerValues name front ++ headerValues name back := by
  simp only [headerValues]
  rw [List.filter_append, List.map_append]

theorem headerValues_eq_nil :
    headerValues name headers = [] ↔ ∀ text, (name, text) ∉ headers := by
  rw [headerValues]
  rw [List.map_eq_nil_iff, List.filter_eq_nil_iff]
  constructor
  · intro h text hmem
    exact h _ hmem (beq_self_eq_true name)
  · rintro h ⟨name', text⟩ hmem hsame
    rw [beq_iff_eq] at hsame
    cases hsame
    exact h text hmem

/-- The negotiation headers are those of the facts. -/
theorem encodingHeaders_values (h : pushEncodingHeaders facts = some headers) :
    headerValues "vary" headers =
        (if facts.contentEncoding.isSome || facts.addVary then ["Accept-Encoding"] else []) ∧
      headerValues "cache-control" headers = facts.cacheControl.toList := by
  obtain ⟨cacheControl, hcache, h⟩ := Option.bind_eq_some_iff.mp h
  cases h
  have hcacheControl : cacheControl = facts.cacheControl.toList.map fun text =>
      ("cache-control", text) := by
    cases hconfigured : facts.cacheControl with
    | none =>
        rw [hconfigured] at hcache
        cases hcache
        rfl
    | some text =>
        rw [hconfigured] at hcache
        obtain ⟨v, hv, rfl⟩ := Option.map_eq_some_iff.mp hcache
        rw [(value_eq_some.mp hv).1]
        rfl
  have hnoCache : headerValues "vary" cacheControl = [] := by
    rw [headerValues_eq_nil, hcacheControl]
    simp
  have hcached : headerValues "cache-control" cacheControl = facts.cacheControl.toList := by
    rw [hcacheControl]
    cases facts.cacheControl <;> rfl
  rw [headerValues_append, headerValues_append, headerValues_append, headerValues_append, hnoCache,
    hcached]
  cases facts.contentEncoding with
  | none => cases facts.addVary <;> exact ⟨rfl, rfl⟩
  | some encoding => exact ⟨rfl, rfl⟩

/-- The validator headers are `etag` and `last-modified`. -/
theorem validatorHeaders_other (h : pushValidatorHeaders crates facts validators = some headers)
    (hname : name ∉ ["etag", "last-modified"]) : headerValues name headers = [] := by
  rw [headerValues_eq_nil]
  intro text hmem
  apply hname
  rcases mem_validatorHeaders h hmem with ⟨rfl, -⟩ | ⟨rfl, -⟩
  · decide
  · decide

/-- The encoding headers are `content-encoding`, `vary` and `cache-control`. -/
theorem encodingHeaders_other (h : pushEncodingHeaders facts = some headers)
    (hname : name ∉ ["content-encoding", "vary", "cache-control"]) :
    headerValues name headers = [] := by
  rw [headerValues_eq_nil]
  intro text hmem
  apply hname
  rcases mem_encodingHeaders h hmem with rfl | rfl | rfl
  · decide
  · decide
  · decide

/-- What a plain response carries besides its type and its length. -/
theorem planFull_headerValues (h : planFull crates facts fileMeta validators = some full)
    (hname : name ∉ ["content-type", "accept-ranges", "content-length"]) :
    ∃ validatorHeaders encodingHeaders,
      pushValidatorHeaders crates facts validators = some validatorHeaders ∧
      pushEncodingHeaders facts = some encodingHeaders ∧
      headerValues name full.headers =
        headerValues name validatorHeaders ++ headerValues name encodingHeaders := by
  obtain ⟨contentType, validatorHeaders, encodingHeaders, -, hvalidators, hencoding, rfl⟩ :=
    planFull_eq_some h
  refine ⟨validatorHeaders, encodingHeaders, hvalidators, hencoding, ?_⟩
  simp only [List.mem_cons, List.not_mem_nil, or_false, not_or] at hname
  have hfront : headerValues name [("content-type", contentType), ("accept-ranges", "bytes")] =
      [] := by
    rw [headerValues_eq_nil]
    intro text hmem
    simp only [List.mem_cons, List.not_mem_nil, or_false, Prod.mk.injEq] at hmem
    rcases hmem with ⟨htype, -⟩ | ⟨hranges, -⟩
    · exact hname.1 htype
    · exact hname.2.1 hranges
  have hback : headerValues name [("content-length", toString fileMeta.size)] = [] := by
    rw [headerValues_eq_nil]
    intro text hmem
    rw [List.mem_singleton, Prod.mk.injEq] at hmem
    exact hname.2.2 hmem.1
  rw [headerValues_append, headerValues_append, headerValues_append, hfront, hback,
    List.append_nil, List.nil_append]

/-- The plain response carries the validators, and what the facts say of negotiation. -/
theorem planFull_values (h : planFull crates facts fileMeta validators = some full) :
    ∃ validatorHeaders, pushValidatorHeaders crates facts validators = some validatorHeaders ∧
      headerValues "etag" full.headers = headerValues "etag" validatorHeaders ∧
      headerValues "last-modified" full.headers =
        headerValues "last-modified" validatorHeaders ∧
      headerValues "vary" full.headers =
        (if facts.contentEncoding.isSome || facts.addVary then ["Accept-Encoding"] else []) ∧
      headerValues "cache-control" full.headers = facts.cacheControl.toList := by
  obtain ⟨validatorHeaders, encodingHeaders, hvalidators, hencoding, hetag⟩ :=
    @planFull_headerValues _ _ _ _ "etag" _ h (by decide)
  have hvalues : ∀ name, name ∉ ["content-type", "accept-ranges", "content-length"] →
      headerValues name full.headers =
        headerValues name validatorHeaders ++ headerValues name encodingHeaders := by
    intro name hname
    obtain ⟨validatorHeaders', encodingHeaders', hvalidators', hencoding', hname⟩ :=
      planFull_headerValues h hname
    cases hvalidators.symm.trans hvalidators'
    cases hencoding.symm.trans hencoding'
    exact hname
  obtain ⟨hvary, hcache⟩ := encodingHeaders_values hencoding
  refine ⟨validatorHeaders, hvalidators, ?_, ?_, ?_, ?_⟩
  · rw [hetag, encodingHeaders_other hencoding (by decide), List.append_nil]
  · rw [hvalues _ (by decide), encodingHeaders_other hencoding (by decide), List.append_nil]
  · rw [hvalues _ (by decide), validatorHeaders_other hvalidators (by decide), hvary,
      List.nil_append]
  · rw [hvalues _ (by decide), validatorHeaders_other hvalidators (by decide), hcache,
      List.nil_append]

/-- The plain response carries the content encoding of the facts, and no other. -/
theorem planFull_contentEncoding (h : planFull crates facts fileMeta validators = some full) :
    headerValues "content-encoding" full.headers = facts.contentEncoding.toList := by
  obtain ⟨validatorHeaders, encodingHeaders, hvalidators, hencoding, hvalues⟩ :=
    @planFull_headerValues _ _ _ _ "content-encoding" _ h (by decide)
  rw [hvalues, validatorHeaders_other hvalidators (by decide), List.nil_append]
  obtain ⟨cacheControl, hcache, hencoding⟩ := Option.bind_eq_some_iff.mp hencoding
  cases hencoding
  have hnoCache : headerValues "content-encoding" cacheControl = [] := by
    rw [headerValues_eq_nil]
    intro text hmem
    split at hcache
    · obtain ⟨v, -, rfl⟩ := Option.map_eq_some_iff.mp hcache
      simp at hmem
    · cases hcache
      nomatch hmem
  rw [headerValues_append, headerValues_append, hnoCache, List.append_nil]
  rcases facts.contentEncoding with _ | encoding
  · rcases facts.addVary with _ | _
    · rfl
    · rfl
  · rfl

/-- Only the plain response is a 200. -/
theorem planFull_of_ok (h : planResponse crates facts fileMeta = some plan)
    (hstatus : plan.status = 200) :
    planFull crates facts fileMeta (validatorsOf fileMeta) = some plan := by
  rw [planResponse_eq] at h
  split at h
  · nomatch h
  · cases h
    nomatch hstatus
  · obtain ⟨headers, -, rfl⟩ := Option.map_eq_some_iff.mp h
    nomatch hstatus
  · cases proceed_cases h with
    | unsatisfiable hother _ => nomatch hother.symm.trans hstatus
    | full hfull => exact hfull
    | single hsingle => nomatch (planSingle_validators hsingle).1.symm.trans hstatus
    | multi hmulti => nomatch (planMulti_validators hmulti).1.symm.trans hstatus

/-- A 304 consists of the validators. -/
theorem planResponse_notModified (h : planResponse crates facts fileMeta = some plan)
    (hstatus : plan.status = 304) :
    pushValidatorHeaders crates facts (validatorsOf fileMeta) = some plan.headers ∧
      plan.body = .empty := by
  rw [planResponse_eq] at h
  split at h
  · nomatch h
  · cases h
    nomatch hstatus
  · obtain ⟨headers, hheaders, rfl⟩ := Option.map_eq_some_iff.mp h
    exact ⟨hheaders, rfl⟩
  · rcases (planProceed_validators h).1 with hother | hother | hother <;>
      nomatch hother.symm.trans hstatus

/-- A 304 has the validators of the 200 it stands for, and neither its `vary` nor its
`cache-control`, which go with the body. -/
theorem not_modified_agrees (h : planResponse crates facts fileMeta = some plan)
    (hstatus : plan.status = 304)
    (hfull : planResponse crates facts.unconditional fileMeta = some full) :
    full.status = 200 ∧
      headerValues "etag" plan.headers = headerValues "etag" full.headers ∧
      headerValues "last-modified" plan.headers = headerValues "last-modified" full.headers ∧
      headerValues "vary" plan.headers = [] ∧
      headerValues "cache-control" plan.headers = [] ∧
      headerValues "vary" full.headers =
        (if facts.contentEncoding.isSome || facts.addVary then ["Accept-Encoding"] else []) ∧
      headerValues "cache-control" full.headers = facts.cacheControl.toList := by
  obtain ⟨hheaders, -⟩ := planResponse_notModified h hstatus
  rw [planResponse_unconditional rfl rfl] at hfull
  obtain ⟨validatorHeaders, hvalidators, hetag, hdate, hvary, hcache⟩ := planFull_values hfull
  have hsame : validatorHeaders = plan.headers :=
    Option.some.inj (hvalidators.symm.trans hheaders)
  rw [hsame] at hetag hdate
  have hnoVary : headerValues "vary" plan.headers = [] :=
    validatorHeaders_other hheaders (by decide)
  have hnoCache : headerValues "cache-control" plan.headers = [] :=
    validatorHeaders_other hheaders (by decide)
  exact ⟨(planFull_validators hfull).1, hetag.symm, hdate.symm, hnoVary, hnoCache, hvary, hcache⟩

end Values

/-- A request for a negotiated file, which the client has in its cache. -/
def cachedFacts : RequestFacts :=
  { revalidatedFacts with
    conditionals := { noConditionals with ifNoneMatch := some "\"5-0.7\"" }
    rangeHeader := none
    addVary := true
    cacheControl := some "max-age=60" }

/-- The 304 has the entity tag of the whole file. -/
theorem not_modified_agrees_cached :
    ∃ plan full, planResponse Crates.epoch cachedFacts ⟨5, 0, 7, false⟩ = some plan ∧
      planResponse Crates.epoch cachedFacts.unconditional ⟨5, 0, 7, false⟩ = some full ∧
      headerValues "etag" plan.headers = headerValues "etag" full.headers := by
  have hplanned : (planResponse Crates.epoch cachedFacts ⟨5, 0, 7, false⟩).map
      ResponsePlan.status = some 304 := by decide
  have hwhole : (planResponse Crates.epoch cachedFacts.unconditional ⟨5, 0, 7, false⟩).isSome =
      true := by decide
  obtain ⟨plan, hplan, hstatus⟩ := Option.map_eq_some_iff.mp hplanned
  obtain ⟨full, hfull⟩ := Option.isSome_iff_exists.mp hwhole
  exact ⟨plan, full, hplan, hfull, (not_modified_agrees hplan hstatus hfull).2.1⟩

/-- The 304 loses the `vary` and the `cache-control` of the whole file. -/
theorem not_modified_omits_vary :
    (planResponse Crates.epoch cachedFacts ⟨5, 0, 7, false⟩).map (fun plan =>
        (plan.status, headerValues "vary" plan.headers,
          headerValues "cache-control" plan.headers)) = some (304, [], []) ∧
      (planResponse Crates.epoch cachedFacts.unconditional ⟨5, 0, 7, false⟩).map (fun plan =>
        (plan.status, headerValues "vary" plan.headers,
          headerValues "cache-control" plan.headers)) =
        some (200, ["Accept-Encoding"], ["max-age=60"]) := by
  constructor
  · decide
  · decide

end EnvoyFiles
