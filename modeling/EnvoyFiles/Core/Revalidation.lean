import EnvoyFiles.Core.HeaderSafety
import EnvoyFiles.Core.PlanBodies

/-!
# Revalidation

The validators that a plan carries, sent back in a conditional request, hold for the
version of the file they were made for and for no other.
-/

namespace EnvoyFiles

open Text Range Conditional

/-! ## Entity tags -/

/-- The text of a strong entity tag. -/
def quoted (tag : String) : String :=
  "\"" ++ tag ++ "\""

/-- The ASCII text that may stand between the quotes of an entity tag. -/
def IsEtagText (tag : String) : Prop :=
  ∀ c ∈ tag.toList, 0x21 ≤ c.toNat ∧ c.toNat < 0x7f ∧ c ≠ '"'

instance (tag : String) : Decidable (IsEtagText tag) :=
  List.decidableBAll _ _

/-- What the entity tag of a file has between its quotes. -/
def FileMeta.tag (fileMeta : FileMeta) : String :=
  hex fileMeta.size ++ "-" ++ hex (asU64 fileMeta.mtimeUnix) ++ "." ++
    hex fileMeta.mtimeNanos

/-- The modification time is one that an HTTP date can express. -/
def FileMeta.InDateRange (fileMeta : FileMeta) : Prop :=
  0 ≤ fileMeta.mtimeUnix ∧ fileMeta.mtimeUnix < 253402300800

/-- Two versions of a file that the validators do not tell apart. -/
def SameVersion (a b : FileMeta) : Prop :=
  a.size = b.size ∧ a.mtimeUnix = b.mtimeUnix ∧ a.mtimeNanos = b.mtimeNanos

instance (a b : FileMeta) : Decidable (SameVersion a b) :=
  inferInstanceAs (Decidable (_ ∧ _))

theorem makeEtag_eq_quoted (fileMeta : FileMeta) :
    (validatorsOf fileMeta).etag = quoted fileMeta.tag := by
  rw [validatorsOf, makeEtag, quoted, FileMeta.tag]
  simp only [String.append_assoc]

theorem hex_isEtagText (n : ℕ) : IsEtagText (hex n) := by
  have hsixteen : ∀ d < 16, 0x21 ≤ (Nat.digitChar d).toNat ∧
      (Nat.digitChar d).toNat < 0x7f ∧ Nat.digitChar d ≠ '"' := by decide
  intro c hc
  rw [hex] at hc
  rw [String.toList_ofList] at hc
  obtain ⟨d, hd, rfl⟩ := mem_toDigits (by decide) hc
  exact hsixteen d hd

theorem IsEtagText.append {s t : String} (hs : IsEtagText s) (ht : IsEtagText t) :
    IsEtagText (s ++ t) := by
  intro c hc
  rw [String.toList_append] at hc
  rcases List.mem_append.mp hc with hc | hc
  · exact hs c hc
  · exact ht c hc

theorem FileMeta.tag_isEtagText (fileMeta : FileMeta) : IsEtagText fileMeta.tag := by
  have hdash : IsEtagText "-" := by decide
  have hdot : IsEtagText "." := by decide
  exact ((((hex_isEtagText _).append hdash).append (hex_isEtagText _)).append hdot).append
    (hex_isEtagText _)

theorem hex_free {n : ℕ} {c : Char} (h : ∀ d < 16, Nat.digitChar d ≠ c) :
    c ∉ (hex n).toList := by
  intro hc
  rw [hex] at hc
  rw [String.toList_ofList] at hc
  obtain ⟨d, hd, hdigit⟩ := mem_toDigits (by decide) hc
  exact h d hd hdigit.symm

/-- A tag determines the numbers it is written with: the separators occur in none of them, so
it splits where they stand. -/
theorem FileMeta.tag_eq_iff {a b : FileMeta} :
    a.tag = b.tag ↔ a.size = b.size ∧ asU64 a.mtimeUnix = asU64 b.mtimeUnix ∧
      a.mtimeNanos = b.mtimeNanos := by
  constructor
  · intro h
    have hdash : ("-" : String).toList = ['-'] := rfl
    have hdot : ("." : String).toList = ['.'] := rfl
    simp only [FileMeta.tag] at h
    have hchars := congrArg String.toList h
    simp only [String.toList_append, hdash, hdot, List.append_assoc,
      List.singleton_append] at hchars
    have hnoDash : ∀ d < 16, Nat.digitChar d ≠ '-' := by decide
    have hnoDot : ∀ d < 16, Nat.digitChar d ≠ '.' := by decide
    have hrest : '-' ∉ (hex (asU64 a.mtimeUnix)).toList ++ '.' :: (hex a.mtimeNanos).toList := by
      rw [List.mem_append, List.mem_cons, not_or, not_or]
      exact ⟨hex_free hnoDash, by decide, hex_free hnoDash⟩
    obtain ⟨hsize, -, htime⟩ :=
      (List.append_cons_inj_of_notMem (hex_free hnoDash) hrest).mp hchars
    obtain ⟨hunix, -, hnanos⟩ :=
      (List.append_cons_inj_of_notMem (hex_free hnoDot) (hex_free hnoDot)).mp htime
    exact ⟨hex_injective (String.toList_inj.mp hsize), hex_injective (String.toList_inj.mp hunix),
      hex_injective (String.toList_inj.mp hnanos)⟩
  · rintro ⟨hsize, hunix, hnanos⟩
    simp only [FileMeta.tag]
    rw [hsize, hunix, hnanos]

/-- The bit pattern of an `i64` determines it. -/
theorem asU64_inj {m n : ℤ} (hm : -2 ^ 63 ≤ m ∧ m < 2 ^ 63) (hn : -2 ^ 63 ≤ n ∧ n < 2 ^ 63) :
    asU64 m = asU64 n ↔ m = n := by
  simp only [asU64]
  omega

theorem FileMeta.tag_injective {a b : FileMeta} (ha : a.InDateRange) (hb : b.InDateRange) :
    a.tag = b.tag ↔ SameVersion a b := by
  rw [FileMeta.InDateRange] at ha hb
  rw [FileMeta.tag_eq_iff, asU64_inj (by omega) (by omega), SameVersion]

theorem quoted_inj {tag tag' : String} : quoted tag = quoted tag' ↔ tag = tag' := by
  rw [quoted, quoted, String.append_left_inj, String.append_right_inj]

/-! ## What the crates read -/

/-- What `headers` and `httpdate` document about the validators that the planner
emits: a quoted tag is one strong entity tag, which `If-Match` and `If-Range` compare
strongly and `If-None-Match` weakly; a formatted date is header text and is read back. -/
structure ReadsValidators (crates : Crates) : Prop where
  parseETag : ∀ tag, IsEtagText tag → crates.parseETag (quoted tag) = some (quoted tag)
  ifMatch : ∀ tag, IsEtagText tag →
    ∃ passes, crates.decodeIfMatch (quoted tag) = some passes ∧
      ∀ current, IsEtagText current → passes (quoted current) = decide (current = tag)
  ifNoneMatch : ∀ tag, IsEtagText tag →
    ∃ passes, crates.decodeIfNoneMatch (quoted tag) = some passes ∧
      ∀ current, IsEtagText current → passes (quoted current) = decide (current ≠ tag)
  ifRange : ∀ tag, IsEtagText tag →
    ∃ isModified, crates.decodeIfRange (quoted tag) = some isModified ∧
      ∀ current lastModified, IsEtagText current →
        isModified (some (quoted current)) lastModified = decide (current ≠ tag)
  date : ∀ seconds < 253402300800,
    crates.parseHttpDate (crates.fmtHttpDate seconds) = some seconds
  dateText : ∀ seconds, ValidHeaderText (crates.fmtHttpDate seconds)

/-- No conditional header. -/
def noConditionals : ConditionalHeaders :=
  ⟨none, none, none, none, none⟩

/-- The request with other conditional headers. -/
def RequestFacts.replay (facts : RequestFacts) (conditionals : ConditionalHeaders) :
    RequestFacts :=
  { facts with conditionals }

/-- The request with another `Range` header. -/
def RequestFacts.withRange (facts : RequestFacts) (rangeHeader : Option String) :
    RequestFacts :=
  { facts with rangeHeader }

/-- The planner answers with this status. -/
def Gives (crates : Crates) (facts : RequestFacts) (fileMeta : FileMeta) (status : ℕ) : Prop :=
  ∃ plan, planResponse crates facts fileMeta = some plan ∧ plan.status = status

/-! ## Planned validators -/

section Planned

variable {crates : Crates} {facts : RequestFacts} {fileMeta : FileMeta}
  {validators : Validators} {plan : ResponsePlan}

/-- The validator headers of a plan are those that `push_validator_headers` builds. -/
theorem mem_validatorHeaders {headers : List (String × String)} {name text : String}
    (h : pushValidatorHeaders crates facts validators = some headers)
    (hmem : (name, text) ∈ headers) :
    name = "etag" ∧ text = validators.etag ∨
      name = "last-modified" ∧
        formatHttpDate crates validators.lastModifiedUnix = some text := by
  obtain ⟨etag, hetag, h⟩ := Option.bind_eq_some_iff.mp h
  obtain ⟨lastModified, hlast, h⟩ := Option.bind_eq_some_iff.mp h
  cases h
  rcases List.mem_append.mp hmem with hmem | hmem
  · left
    split at hetag
    · obtain ⟨v, hv, rfl⟩ := Option.map_eq_some_iff.mp hetag
      rw [List.mem_singleton, Prod.mk.injEq] at hmem
      exact ⟨hmem.1, hmem.2.trans (value_eq_some.mp hv).1⟩
    · cases hetag
      nomatch hmem
  · right
    split at hlast
    · obtain ⟨v, hv, rfl⟩ := Option.map_eq_some_iff.mp hlast
      obtain ⟨date, hdate, hvalue⟩ := Option.bind_eq_some_iff.mp hv
      rw [List.mem_singleton, Prod.mk.injEq] at hmem
      rw [hdate, hmem.2, (value_eq_some.mp hvalue).1]
      exact ⟨hmem.1, rfl⟩
    · cases hlast
      nomatch hmem

theorem mem_encodingHeaders {headers : List (String × String)} {name text : String}
    (h : pushEncodingHeaders facts = some headers) (hmem : (name, text) ∈ headers) :
    name = "content-encoding" ∨ name = "vary" ∨ name = "cache-control" := by
  obtain ⟨cacheControl, hcache, h⟩ := Option.bind_eq_some_iff.mp h
  cases h
  rcases List.mem_append.mp hmem with hmem | hmem
  · rcases List.mem_append.mp hmem with hmem | hmem
    · split at hmem
      · simp_all
      · nomatch hmem
    · split at hmem
      · simp_all
      · nomatch hmem
  · split at hcache
    · obtain ⟨v, -, rfl⟩ := Option.map_eq_some_iff.mp hcache
      simp_all
    · cases hcache
      nomatch hmem

/-- The headers of a plan with a body: the validators and the encoding headers stand
between headers with other names. -/
theorem mem_planned {front validatorHeaders encodingHeaders back : List (String × String)}
    {name text : String}
    (hvalidators : pushValidatorHeaders crates facts validators = some validatorHeaders)
    (hencoding : pushEncodingHeaders facts = some encodingHeaders)
    (hothers : ∀ header ∈ front ++ back, header.1 ≠ "etag" ∧ header.1 ≠ "last-modified")
    (hmem : (name, text) ∈ front ++ validatorHeaders ++ encodingHeaders ++ back)
    (hname : name = "etag" ∨ name = "last-modified") :
    name = "etag" ∧ text = validators.etag ∨
      name = "last-modified" ∧
        formatHttpDate crates validators.lastModifiedUnix = some text := by
  have hother : (name, text) ∉ front ++ back := by
    intro hmem
    obtain ⟨hetag, hlast⟩ := hothers _ hmem
    rcases hname with rfl | rfl
    · exact hetag rfl
    · exact hlast rfl
  rw [List.mem_append, not_or] at hother
  rw [List.mem_append, List.mem_append, List.mem_append] at hmem
  rcases hmem with ((hmem | hmem) | hmem) | hmem
  · exact absurd hmem hother.1
  · exact mem_validatorHeaders hvalidators hmem
  · have hencoded := mem_encodingHeaders hencoding hmem
    rcases hname with rfl | rfl
    · exact absurd hencoded (by decide)
    · exact absurd hencoded (by decide)
  · exact absurd hmem hother.2

/-- What `plan_response` does behind the conditional headers: 416, or one of the
plans with a body. -/
inductive ProceedCase (crates : Crates) (facts : RequestFacts) (fileMeta : FileMeta)
    (validators : Validators) (plan : ResponsePlan) : Prop where
  | unsatisfiable {text : String} :
      plan.status = 416 → plan.headers = [("content-range", text)] →
      ProceedCase crates facts fileMeta validators plan
  | full : planFull crates facts fileMeta validators = some plan →
      ProceedCase crates facts fileMeta validators plan
  | single {range : ByteRange} : planSingle crates facts fileMeta validators range = some plan →
      ProceedCase crates facts fileMeta validators plan
  | multi {ranges : List ByteRange} :
      planMulti crates facts fileMeta validators ranges = some plan →
      ProceedCase crates facts fileMeta validators plan

theorem proceed_cases (h : planProceed crates facts fileMeta validators = some plan) :
    ProceedCase crates facts fileMeta validators plan := by
  rw [planProceed] at h
  split at h
  · exact .full h
  · obtain ⟨honour, -, h⟩ := Option.bind_eq_some_iff.mp h
    split at h
    · split at h
      · obtain ⟨text, -, h⟩ := Option.bind_eq_some_iff.mp h
        cases h
        exact .unsatisfiable rfl rfl
      · exact .single h
      · exact .multi h
      · exact .full h
    · exact .full h

/-- The validator headers of a plan are those of the file. -/
def CarriesValidators (crates : Crates) (validators : Validators) (plan : ResponsePlan) :
    Prop :=
  ∀ name text, (name, text) ∈ plan.headers → name = "etag" ∨ name = "last-modified" →
    name = "etag" ∧ text = validators.etag ∨
      name = "last-modified" ∧
        formatHttpDate crates validators.lastModifiedUnix = some text

theorem planFull_validators (h : planFull crates facts fileMeta validators = some plan) :
    plan.status = 200 ∧ CarriesValidators crates validators plan := by
  obtain ⟨contentType, validatorHeaders, encodingHeaders, -, hvalidators, hencoding, rfl⟩ :=
    planFull_eq_some h
  refine ⟨rfl, ?_⟩
  intro name text hmem hname
  apply mem_planned hvalidators hencoding ?_ hmem hname
  simp

theorem planSingle_validators {range : ByteRange}
    (h : planSingle crates facts fileMeta validators range = some plan) :
    plan.status = 206 ∧ CarriesValidators crates validators plan := by
  obtain ⟨contentType, validatorHeaders, encodingHeaders, contentRange, -, hvalidators, hencoding,
    -, rfl⟩ := planSingle_eq_some h
  refine ⟨rfl, ?_⟩
  intro name text hmem hname
  apply mem_planned hvalidators hencoding ?_ hmem hname
  simp

theorem planMulti_validators {ranges : List ByteRange}
    (h : planMulti crates facts fileMeta validators ranges = some plan) :
    plan.status = 206 ∧ CarriesValidators crates validators plan := by
  obtain ⟨validatorHeaders, encodingHeaders, contentType, hvalidators, hencoding, rfl⟩ :=
    planMulti_eq_some h
  refine ⟨rfl, ?_⟩
  intro name text hmem hname
  apply mem_planned hvalidators hencoding ?_ hmem hname
  simp

theorem planProceed_validators (h : planProceed crates facts fileMeta validators = some plan) :
    (plan.status = 200 ∨ plan.status = 206 ∨ plan.status = 416) ∧
      CarriesValidators crates validators plan := by
  cases proceed_cases h with
  | unsatisfiable hstatus hheaders =>
      refine ⟨Or.inr (Or.inr hstatus), ?_⟩
      intro name text hmem hname
      rw [hheaders, List.mem_singleton, Prod.mk.injEq] at hmem
      rcases hname with rfl | rfl
      · exact absurd hmem.1 (by decide)
      · exact absurd hmem.1 (by decide)
  | full hfull =>
      obtain ⟨hstatus, hvalidators⟩ := planFull_validators hfull
      exact ⟨Or.inl hstatus, hvalidators⟩
  | single hsingle =>
      obtain ⟨hstatus, hvalidators⟩ := planSingle_validators hsingle
      exact ⟨Or.inr (Or.inl hstatus), hvalidators⟩
  | multi hmulti =>
      obtain ⟨hstatus, hvalidators⟩ := planMulti_validators hmulti
      exact ⟨Or.inr (Or.inl hstatus), hvalidators⟩

theorem planResponse_validators (h : planResponse crates facts fileMeta = some plan) :
    CarriesValidators crates (validatorsOf fileMeta) plan := by
  obtain ⟨condition, -, h⟩ := Option.bind_eq_some_iff.mp h
  cases condition with
  | preconditionFailed =>
      cases h
      intro name text hmem
      nomatch hmem
  | notModified =>
      obtain ⟨headers, hheaders, h⟩ := Option.bind_eq_some_iff.mp h
      cases h
      intro name text hmem _
      exact mem_validatorHeaders hheaders hmem
  | proceed => exact (planProceed_validators h).2

/-! ### Header names -/

/-- The headers that a plan may carry. -/
def planHeaderNames : List String :=
  ["accept-ranges", "cache-control", "content-encoding", "content-length", "content-range",
    "content-type", "etag", "last-modified", "vary"]

theorem validatorHeaders_names {headers : List (String × String)}
    (h : pushValidatorHeaders crates facts validators = some headers) :
    ∀ header ∈ headers, header.1 ∈ planHeaderNames := by
  rintro ⟨name, text⟩ hmem
  rcases mem_validatorHeaders h hmem with ⟨rfl, -⟩ | ⟨rfl, -⟩
  · exact (by decide : "etag" ∈ planHeaderNames)
  · exact (by decide : "last-modified" ∈ planHeaderNames)

theorem encodingHeaders_names {headers : List (String × String)}
    (h : pushEncodingHeaders facts = some headers) :
    ∀ header ∈ headers, header.1 ∈ planHeaderNames := by
  rintro ⟨name, text⟩ hmem
  rcases mem_encodingHeaders h hmem with rfl | rfl | rfl
  · exact (by decide : "content-encoding" ∈ planHeaderNames)
  · exact (by decide : "vary" ∈ planHeaderNames)
  · exact (by decide : "cache-control" ∈ planHeaderNames)

/-- A plan with a body carries no other header if none stands around the validators and the
encoding headers. -/
theorem planned_names {front validatorHeaders encodingHeaders back : List (String × String)}
    (hvalidators : pushValidatorHeaders crates facts validators = some validatorHeaders)
    (hencoding : pushEncodingHeaders facts = some encodingHeaders)
    (hothers : ∀ header ∈ front ++ back, header.1 ∈ planHeaderNames) :
    ∀ header ∈ front ++ validatorHeaders ++ encodingHeaders ++ back,
      header.1 ∈ planHeaderNames := by
  intro header hmem
  rw [List.mem_append, List.mem_append, List.mem_append] at hmem
  rcases hmem with ((hmem | hmem) | hmem) | hmem
  · exact hothers header (List.mem_append_left _ hmem)
  · exact validatorHeaders_names hvalidators header hmem
  · exact encodingHeaders_names hencoding header hmem
  · exact hothers header (List.mem_append_right _ hmem)

theorem planProceed_names (h : planProceed crates facts fileMeta validators = some plan) :
    ∀ header ∈ plan.headers, header.1 ∈ planHeaderNames := by
  cases proceed_cases h with
  | unsatisfiable _ hheaders =>
      intro header hmem
      rw [hheaders, List.mem_singleton] at hmem
      rw [hmem]
      exact (by decide : "content-range" ∈ planHeaderNames)
  | full hfull =>
      obtain ⟨_, _, _, -, hvalidators, hencoding, rfl⟩ := planFull_eq_some hfull
      apply planned_names hvalidators hencoding
      simp [planHeaderNames]
  | single hsingle =>
      obtain ⟨_, _, _, _, -, hvalidators, hencoding, -, rfl⟩ := planSingle_eq_some hsingle
      apply planned_names hvalidators hencoding
      simp [planHeaderNames]
  | multi hmulti =>
      obtain ⟨_, _, _, hvalidators, hencoding, rfl⟩ := planMulti_eq_some hmulti
      apply planned_names hvalidators hencoding
      simp [planHeaderNames]

/-- Every header of a plan is one of the nine. -/
theorem planResponse_names (h : planResponse crates facts fileMeta = some plan) :
    ∀ header ∈ plan.headers, header.1 ∈ planHeaderNames := by
  obtain ⟨condition, -, h⟩ := Option.bind_eq_some_iff.mp h
  cases condition with
  | preconditionFailed =>
      cases h
      exact nofun
  | notModified =>
      obtain ⟨headers, hheaders, h⟩ := Option.bind_eq_some_iff.mp h
      cases h
      exact validatorHeaders_names hheaders
  | proceed => exact planProceed_names h

end Planned

/-! ## Replayed validators -/

section Replayed

variable {crates : Crates} (hreads : ReadsValidators crates) {facts : RequestFacts}
  (hetag : facts.etagEnabled = true) (hlast : facts.lastModifiedEnabled = true)
  {a b : FileMeta} (ha : a.InDateRange) (hb : b.InDateRange)

theorem httpDateFrom_inRange (h : a.InDateRange) :
    httpDateFrom a.mtimeUnix = some a.mtimeUnix.toNat :=
  if_pos h

include hetag hlast in
theorem effectiveConditionals_replay (conditionals : ConditionalHeaders) :
    effectiveConditionals (facts.replay conditionals) = conditionals := by
  rw [effectiveConditionals, RequestFacts.replay]
  dsimp only
  rw [hetag, hlast]
  rfl

include hreads in
theorem resourceEtag_eq (fileMeta : FileMeta) :
    resourceEtag crates (validatorsOf fileMeta) = some (quoted fileMeta.tag) := by
  rw [resourceEtag]
  rw [makeEtag_eq_quoted]
  exact hreads.parseETag _ fileMeta.tag_isEtagText

include hreads hetag hlast hb in
/-- The status is decided by the two tests of the conditional headers. -/
theorem gives_iff {conditionals : ConditionalHeaders} {failed current : Bool}
    (hfailed : preconditionFails crates conditionals (validatorsOf b) = some failed)
    (hcurrent : isNotModified crates conditionals (validatorsOf b) = some current) :
    (Gives crates (facts.replay conditionals) b 412 ↔ failed = true) ∧
      (Gives crates (facts.replay conditionals) b 304 ↔ failed = false ∧ current = true) := by
  have hplan : planResponse crates (facts.replay conditionals) b =
      if failed then some { status := 412, headers := [], body := .empty }
      else if current then
        (pushValidatorHeaders crates (facts.replay conditionals) (validatorsOf b)).map
          fun headers => { status := 304, headers, body := .empty }
      else planProceed crates (facts.replay conditionals) b (validatorsOf b) := by
    rw [planResponse_eq, effectiveConditionals_replay hetag hlast, evaluateConditionals,
      hfailed, hcurrent]
    cases failed with
    | true => rfl
    | false =>
        cases current with
        | true => rfl
        | false => rfl
  simp only [Gives]
  rw [hplan]
  cases failed with
  | true => simp
  | false =>
      cases current with
      | true =>
          have hformat : formatHttpDate crates (validatorsOf b).lastModifiedUnix =
              some (crates.fmtHttpDate b.mtimeUnix.toNat) :=
            congrArg (Option.map crates.fmtHttpDate) (httpDateFrom_inRange hb)
          have hvalidators : ∃ headers, pushValidatorHeaders crates
              (facts.replay conditionals) (validatorsOf b) = some headers :=
            pushValidatorHeaders_isSome hformat (hreads.dateText _)
              (printable_makeEtag _ _ _).valid
          obtain ⟨headers, hheaders⟩ := hvalidators
          rw [hheaders]
          simp
      | false =>
          have hproceeds : ∀ plan, planProceed crates (facts.replay conditionals) b
              (validatorsOf b) = some plan → plan.status ≠ 412 ∧ plan.status ≠ 304 := by
            intro plan hplan
            obtain ⟨hstatus, -⟩ := planProceed_validators hplan
            omega
          simp only [Bool.false_eq_true, if_false, iff_false, and_false, not_exists, not_and]
          exact ⟨fun plan hplan => (hproceeds plan hplan).1,
            fun plan hplan => (hproceeds plan hplan).2⟩

/-! The tests of a single replayed header. -/

include hreads in
theorem preconditionFails_ifMatch :
    preconditionFails crates { noConditionals with ifMatch := some (quoted a.tag) }
      (validatorsOf b) = some (!decide (b.tag = a.tag)) := by
  obtain ⟨passes, hdecode, hpasses⟩ := hreads.ifMatch _ a.tag_isEtagText
  rw [preconditionFails]
  dsimp only
  rw [hdecode, resourceEtag_eq hreads]
  dsimp only
  rw [hpasses _ b.tag_isEtagText]

include hreads in
theorem isNotModified_ifNoneMatch :
    isNotModified crates { noConditionals with ifNoneMatch := some (quoted a.tag) }
      (validatorsOf b) = some (!decide (b.tag ≠ a.tag)) := by
  obtain ⟨passes, hdecode, hpasses⟩ := hreads.ifNoneMatch _ a.tag_isEtagText
  rw [isNotModified]
  dsimp only
  rw [hdecode, resourceEtag_eq hreads]
  dsimp only
  rw [hpasses _ b.tag_isEtagText]

include hreads hb in
theorem ifRangeMatches_tag :
    ifRangeMatches crates (quoted a.tag) (validatorsOf b) = some (!decide (b.tag ≠ a.tag)) := by
  obtain ⟨isModified, hdecode, hmodified⟩ := hreads.ifRange _ a.tag_isEtagText
  have hdate : httpDateFrom (validatorsOf b).lastModifiedUnix = some b.mtimeUnix.toNat :=
    httpDateFrom_inRange hb
  rw [ifRangeMatches]
  rw [hdecode, hdate, resourceEtag_eq hreads]
  dsimp only
  rw [Option.map_some, hmodified _ _ b.tag_isEtagText]

include hreads ha in
theorem parseHttpDate_planned :
    crates.parseHttpDate (crates.fmtHttpDate a.mtimeUnix.toNat) = some a.mtimeUnix.toNat := by
  apply hreads.date
  rw [FileMeta.InDateRange] at ha
  omega

include hreads ha hb in
theorem preconditionFails_ifUnmodifiedSince :
    preconditionFails crates { noConditionals with
      ifUnmodifiedSince := some (crates.fmtHttpDate a.mtimeUnix.toNat) } (validatorsOf b) =
        some (decide (a.mtimeUnix < b.mtimeUnix)) := by
  have hdate : httpDateFrom (validatorsOf b).lastModifiedUnix = some b.mtimeUnix.toNat :=
    httpDateFrom_inRange hb
  rw [preconditionFails]
  dsimp only [noConditionals]
  rw [Option.bind_some, parseHttpDate_planned hreads ha, hdate]
  rw [FileMeta.InDateRange] at ha hb
  dsimp only
  rw [Option.map_some]
  congr 2
  rw [eq_iff_iff]
  omega

include hreads ha hb in
theorem isNotModified_ifModifiedSince :
    isNotModified crates { noConditionals with
      ifModifiedSince := some (crates.fmtHttpDate a.mtimeUnix.toNat) } (validatorsOf b) =
        some (!decide (a.mtimeUnix < b.mtimeUnix)) := by
  have hdate : httpDateFrom (validatorsOf b).lastModifiedUnix = some b.mtimeUnix.toNat :=
    httpDateFrom_inRange hb
  rw [isNotModified]
  dsimp only [noConditionals]
  rw [Option.bind_some, parseHttpDate_planned hreads ha, hdate]
  rw [FileMeta.InDateRange] at ha hb
  dsimp only
  rw [Option.map_some]
  congr 3
  rw [eq_iff_iff]
  omega

/-! ## Ranges -/

include hetag hlast in
theorem planResponse_proceeds (ifRange : Option String) :
    planResponse crates (facts.replay { noConditionals with ifRange }) b =
      planProceed crates (facts.replay { noConditionals with ifRange }) b (validatorsOf b) := by
  rw [planResponse_eq, effectiveConditionals_replay hetag hlast]
  rfl

include hreads hetag hlast hb in
/-- An `If-Range` with the validator of another version drops the `Range` header, one
with the validator of the same version has no effect. -/
theorem planResponse_ifRange :
    planResponse crates (facts.replay { noConditionals with ifRange := some (quoted a.tag) }) b =
      if b.tag = a.tag then planResponse crates (facts.replay noConditionals) b
      else planResponse crates ((facts.withRange none).replay noConditionals) b := by
  have hwithout : planResponse crates (facts.replay noConditionals) b =
      planProceed crates (facts.replay noConditionals) b (validatorsOf b) :=
    planResponse_proceeds hetag hlast none
  have hfull : planResponse crates ((facts.withRange none).replay noConditionals) b =
      planFull crates (facts.replay noConditionals) b (validatorsOf b) :=
    @planResponse_proceeds crates (facts.withRange none) hetag hlast b none
  rw [planResponse_proceeds hetag hlast, hwithout, hfull]
  have hmatches : ifRangeOk crates
      (facts.replay { noConditionals with ifRange := some (quoted a.tag) }) (validatorsOf b) =
        some (!decide (b.tag ≠ a.tag)) := ifRangeMatches_tag hreads hb
  by_cases hsame : b.tag = a.tag
  · rw [if_pos hsame]
    rw [planProceed]
    rw [hmatches, decide_eq_false (not_not_intro hsame)]
    rfl
  · rw [if_neg hsame]
    rw [planProceed]
    rw [hmatches, decide_eq_true hsame]
    have hheader : ∀ conditionals, (facts.replay conditionals).rangeHeader =
        facts.rangeHeader := fun _ => rfl
    rw [hheader]
    cases facts.rangeHeader with
    | none => rfl
    | some rangeHeader => rfl

include hetag hlast in
/-- Without conditional headers the plan for a range that is not served in full is a
206 or a 416. -/
theorem planResponse_ranged {rangeHeader : String} {plan : ResponsePlan}
    (hheader : facts.rangeHeader = some rangeHeader)
    (hranges : planRanges rangeHeader b.size facts.rangePolicy ≠ .full)
    (hplan : planResponse crates (facts.replay noConditionals) b = some plan) :
    plan.status = 206 ∨ plan.status = 416 := by
  have hproceed : planProceed crates (facts.replay noConditionals) b (validatorsOf b) =
      some plan := (planResponse_proceeds hetag hlast none).symm.trans hplan
  rw [planProceed] at hproceed
  have hfacts : (facts.replay noConditionals).rangeHeader = some rangeHeader := hheader
  rw [hfacts] at hproceed
  obtain ⟨honour, hok, hproceed⟩ := Option.bind_eq_some_iff.mp hproceed
  cases hok
  rw [if_pos rfl] at hproceed
  split at hproceed
  · obtain ⟨text, -, hproceed⟩ := Option.bind_eq_some_iff.mp hproceed
    cases hproceed
    exact Or.inr rfl
  · exact Or.inl (planSingle_validators hproceed).1
  · exact Or.inl (planMulti_validators hproceed).1
  · next hfull => exact absurd hfull hranges

include hetag hlast in
/-- Without a `Range` header the plan is a 200. -/
theorem planResponse_unranged {plan : ResponsePlan}
    (hplan : planResponse crates ((facts.withRange none).replay noConditionals) b = some plan) :
    plan.status = 200 := by
  have hproceed := @planResponse_proceeds crates (facts.withRange none) hetag hlast b none
  exact (planFull_validators (hproceed.symm.trans hplan)).1

/-! ## The replayed validators -/

include hreads hetag hlast ha hb in
/-- The validators planned for one version of a file hold for another exactly if the
two versions agree in what they are made of. -/
theorem validators_revalidate_their_version {issued : RequestFacts} {plan : ResponsePlan}
    (hissued : planResponse crates issued a = some plan) {etag lastModified : String}
    (hE : ("etag", etag) ∈ plan.headers) (hL : ("last-modified", lastModified) ∈ plan.headers) :
    (Gives crates (facts.replay { noConditionals with ifNoneMatch := some etag }) b 304 ↔
        SameVersion a b) ∧
      (¬Gives crates (facts.replay { noConditionals with ifMatch := some etag }) b 412 ↔
        SameVersion a b) ∧
      (planResponse crates (facts.replay { noConditionals with ifRange := some etag }) b =
          if SameVersion a b then planResponse crates (facts.replay noConditionals) b
          else planResponse crates ((facts.withRange none).replay noConditionals) b) ∧
      (∀ rangeHeader ranged, facts.rangeHeader = some rangeHeader →
        planRanges rangeHeader b.size facts.rangePolicy ≠ .full →
        planResponse crates (facts.replay { noConditionals with ifRange := some etag }) b =
          some ranged →
        (ranged.status = 206 ∨ ranged.status = 416 ↔ SameVersion a b)) ∧
      (Gives crates (facts.replay { noConditionals with ifModifiedSince := some lastModified })
        b 304 ↔ b.mtimeUnix ≤ a.mtimeUnix) ∧
      (¬Gives crates (facts.replay
          { noConditionals with ifUnmodifiedSince := some lastModified }) b 412 ↔
        b.mtimeUnix ≤ a.mtimeUnix) := by
  have hcarries := planResponse_validators hissued
  have hetagText : etag = quoted a.tag := by
    rcases hcarries _ _ hE (Or.inl rfl) with ⟨-, htext⟩ | ⟨hname, -⟩
    · rw [htext, makeEtag_eq_quoted]
    · exact absurd hname (by decide)
  have hlastText : lastModified = crates.fmtHttpDate a.mtimeUnix.toNat := by
    rcases hcarries _ _ hL (Or.inr rfl) with ⟨hname, -⟩ | ⟨-, hformat⟩
    · exact absurd hname (by decide)
    · have hdate : httpDateFrom (validatorsOf a).lastModifiedUnix = some a.mtimeUnix.toNat :=
        httpDateFrom_inRange ha
      rw [formatHttpDate] at hformat
      rw [hdate] at hformat
      exact (Option.some.inj hformat).symm
  have htag : b.tag = a.tag ↔ SameVersion a b := by
    rw [eq_comm]
    exact FileMeta.tag_injective ha hb
  rw [hetagText, hlastText]
  have hrange := planResponse_ifRange hreads hetag hlast hb (a := a)
  refine ⟨?_, ?_, ?_, ?_, ?_, ?_⟩
  · rw [(gives_iff hreads hetag hlast hb rfl (isNotModified_ifNoneMatch hreads)).2, ← htag]
    simp
  · rw [(gives_iff hreads hetag hlast hb (preconditionFails_ifMatch hreads) rfl).1, ← htag]
    simp
  · rw [hrange]
    simp only [htag]
  · intro rangeHeader ranged hheader hranges hplan
    rw [hrange] at hplan
    rw [← htag]
    split at hplan
    · next hsame =>
        have hstatus := planResponse_ranged hetag hlast hheader hranges hplan
        exact iff_of_true hstatus hsame
    · next hother =>
        have hstatus := planResponse_unranged hetag hlast hplan
        exact iff_of_false (by omega) hother
  · rw [(gives_iff hreads hetag hlast hb rfl (isNotModified_ifModifiedSince hreads ha hb)).2]
    simp
  · rw [(gives_iff hreads hetag hlast hb
      (preconditionFails_ifUnmodifiedSince hreads ha hb) rfl).1]
    simp

end Replayed

/-- The crates' functions on quoted tags and on the first two seconds of the epoch. -/
def Crates.epoch : Crates :=
  { Crates.plain with
    fmtHttpDate := fun seconds =>
      if seconds = 0 then "Thu, 01 Jan 1970 00:00:00 GMT"
      else if seconds = 1 then "Thu, 01 Jan 1970 00:00:01 GMT"
      else toString seconds
    parseHttpDate := fun text =>
      if text = "Thu, 01 Jan 1970 00:00:00 GMT" then some 0
      else if text = "Thu, 01 Jan 1970 00:00:01 GMT" then some 1
      else some (Nat.ofDigitChars 10 text.toList 0)
    decodeIfMatch := fun raw => some fun tag => tag == raw
    decodeIfNoneMatch := fun raw => some fun tag => tag != raw
    decodeIfRange := fun raw => some fun tag _ => tag != some raw }

theorem quoted_beq (s t : String) : (quoted s == quoted t) = decide (s = t) := by
  by_cases hsame : s = t
  · rw [hsame, beq_self_eq_true, decide_eq_true rfl]
  · rw [decide_eq_false hsame, beq_eq_false_iff_ne]
    exact fun hquoted => hsame (quoted_inj.mp hquoted)

theorem Crates.epoch_readsValidators : ReadsValidators Crates.epoch where
  parseETag _ _ := rfl
  ifMatch tag _ := ⟨fun current => current == quoted tag, rfl,
    fun current _ => quoted_beq current tag⟩
  ifNoneMatch tag _ := by
    refine ⟨fun current => current != quoted tag, rfl, ?_⟩
    intro current _
    change (!(quoted current == quoted tag)) = _
    rw [quoted_beq, ← decide_not]
  ifRange tag _ := by
    refine ⟨fun current _ => current != some (quoted tag), rfl, ?_⟩
    intro current _ _
    change (!(some (quoted current) == some (quoted tag))) = _
    rw [Option.some_beq_some, quoted_beq, ← decide_not]
  date seconds _ := by
    -- A date of the first two seconds is no number.
    have hnumber : ∀ text : String, ',' ∈ text.toList → toString seconds ≠ text := by
      rintro text hmem rfl
      rw [Nat.toString_eq_ofList_toDigits, String.toList_ofList] at hmem
      exact absurd (Nat.isDigit_of_mem_toDigits (by decide) (by decide) hmem) (by decide)
    by_cases hzero : seconds = 0
    · rw [hzero]
      rfl
    · by_cases hone : seconds = 1
      · rw [hone]
        rfl
      · have hformat : Crates.epoch.fmtHttpDate seconds = toString seconds := by
          change (if seconds = 0 then _ else if seconds = 1 then _ else _) = _
          rw [if_neg hzero, if_neg hone]
        rw [hformat]
        change (if toString seconds = _ then _ else if toString seconds = _ then _ else _) = _
        rw [if_neg (hnumber _ (by decide)), if_neg (hnumber _ (by decide)),
          Nat.toString_eq_ofList_toDigits, String.toList_ofList, Nat.ofDigitChars_ten_toDigits]
  dateText seconds := by
    change ValidHeaderText (if _ then _ else if _ then _ else _)
    split
    · decide
    · split
      · decide
      · exact (printable_toString seconds).valid

/-- A request without conditional headers for the start of a file. -/
def revalidatedFacts : RequestFacts where
  methodHead := false
  conditionals := noConditionals
  rangeHeader := some "bytes=0-1"
  contentType := "text/plain"
  etagEnabled := true
  lastModifiedEnabled := true
  rangePolicy := ⟨true, 50⟩
  boundary := "envoyfilesboundary"
  contentEncoding := none
  addVary := false
  cacheControl := none

/-- A file rewritten within a second of the epoch: the old validators do not hold. -/
theorem validators_revalidate_their_version_rewritten :
    ¬Gives Crates.epoch (revalidatedFacts.replay
        { noConditionals with ifNoneMatch := some "\"5-0.7\"" }) ⟨5, 1, 7, false⟩ 304 ∧
      Gives Crates.epoch (revalidatedFacts.replay
        { noConditionals with ifMatch := some "\"5-0.7\"" }) ⟨5, 1, 7, false⟩ 412 := by
  have hissued : (planResponse Crates.epoch revalidatedFacts ⟨5, 0, 7, false⟩).map
      (fun plan => plan.headers.contains ("etag", "\"5-0.7\"") &&
        plan.headers.contains ("last-modified", "Thu, 01 Jan 1970 00:00:00 GMT")) =
          some true := by decide
  obtain ⟨plan, hplan, hheaders⟩ := Option.map_eq_some_iff.mp hissued
  rw [Bool.and_eq_true, List.contains_iff_mem, List.contains_iff_mem] at hheaders
  obtain ⟨hnoneMatch, hmatch, -⟩ := @validators_revalidate_their_version Crates.epoch
    Crates.epoch_readsValidators revalidatedFacts rfl rfl ⟨5, 0, 7, false⟩ ⟨5, 1, 7, false⟩
    (by unfold FileMeta.InDateRange; decide) (by unfold FileMeta.InDateRange; decide)
    revalidatedFacts plan hplan _ _ hheaders.1 hheaders.2
  have hother : ¬SameVersion ⟨5, 0, 7, false⟩ ⟨5, 1, 7, false⟩ := by decide
  refine ⟨fun hgives => hother (hnoneMatch.mp hgives), ?_⟩
  by_contra hnone
  exact hother (hmatch.mp hnone)

end EnvoyFiles
