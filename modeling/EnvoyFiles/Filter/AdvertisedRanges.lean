import EnvoyFiles.Filter.Walk

/-!
# Advertised ranges

Every file that is served whole is advertised with `accept-ranges: bytes`.  The request
with a range of it added finds the same file, and is answered with the range unless the
configuration does not support ranges: then the header is dropped before the response is
planned, and the advertisement stays.
-/

namespace EnvoyFiles.Filter

open Text Range

/-! ## The request with a range -/

/-- A `Range` header for one range is added to the request, somewhere. -/
def AddsRange (range : ByteRange) (headers ranged : List (Bytes × Bytes)) : Prop :=
  ∃ before after, headers = before ++ after ∧
    ranged = before ++ (asBytes "range", asBytes (rangeText range)) :: after

/-- The collected headers with another range. -/
def RawRequestHeaders.withRange (raw : RawRequestHeaders) (range : Option String) :
    RawRequestHeaders :=
  { raw with range }

/-- The request with another range. -/
def RequestData.withRange (data : RequestData) (rangeHeader : Option String) : RequestData :=
  { data with rangeHeader }

section Collecting

variable {raw : RawRequestHeaders} {headers ranged : List (Bytes × Bytes)} {range : ByteRange}

/-- A header fills its slot whatever range has been collected. -/
theorem collectOne_withRange (text : String) (header : Bytes × Bytes) :
    (raw.withRange (some text)).collectOne header =
      (raw.collectOne header).withRange (some text) := by
  obtain ⟨key, value⟩ := header
  rw [RawRequestHeaders.collectOne, RawRequestHeaders.collectOne, RawRequestHeaders.withRange]
  dsimp only
  by_cases hmethod : key = asBytes ":method"
  · rw [if_pos hmethod, if_pos hmethod]
    obtain ⟨method, _, _, _, _, _, _, _, _⟩ := raw
    rcases method with _ | method
    · rfl
    · rfl
  · rw [if_neg hmethod, if_neg hmethod]
    repeat' split
    all_goals rfl

theorem foldl_collectOne_withRange (text : String) (headers : List (Bytes × Bytes)) :
    headers.foldl RawRequestHeaders.collectOne (raw.withRange (some text)) =
      (headers.foldl RawRequestHeaders.collectOne raw).withRange (some text) := by
  induction headers generalizing raw with
  | nil => rfl
  | cons header rest ih =>
      rw [List.foldl_cons, List.foldl_cons, collectOne_withRange, ih]

/-- Collecting does not clear a range. -/
theorem range_of_foldl (headers : List (Bytes × Bytes))
    (h : (headers.foldl RawRequestHeaders.collectOne raw).range = none) : raw.range = none := by
  by_contra hsome
  obtain ⟨text, htext⟩ := Option.ne_none_iff_exists'.mp hsome
  have hraw : raw = raw.withRange (some text) := by
    rw [← htext]
    rfl
  rw [hraw, foldl_collectOne_withRange] at h
  nomatch h

theorem asBytes_rangeText_ne_nil (range : ByteRange) : asBytes (rangeText range) ≠ [] := by
  intro hnil
  have hempty : rangeText range = "" := by
    rw [← fromUtf8Lossy_asBytes (rangeText range), hnil]
    rfl
  have hlength := congrArg String.toList hempty
  rw [rangeText, String.toList_append] at hlength
  nomatch hlength

/-- An added range is collected. -/
theorem collect_addsRange (hadds : AddsRange range headers ranged)
    (hnone : (RawRequestHeaders.collect headers).range = none) :
    RawRequestHeaders.collect ranged =
      (RawRequestHeaders.collect headers).withRange (some (rangeText range)) := by
  obtain ⟨before, after, rfl, rfl⟩ := hadds
  rw [RawRequestHeaders.collect, List.foldl_append] at hnone
  have hslot := range_of_foldl after hnone
  have hnonempty : (asBytes (rangeText range)).isEmpty = false :=
    List.isEmpty_eq_false_iff.mpr (asBytes_rangeText_ne_nil range)
  have hcollect : ∀ raw : RawRequestHeaders, raw.range = none →
      raw.collectOne (asBytes "range", asBytes (rangeText range)) =
        raw.withRange (some (rangeText range)) := by
    intro raw hraw
    have hfill : fillSlot raw.range (asBytes (rangeText range)) = some (rangeText range) := by
      rw [fillSlot, hraw, hnonempty, fromUtf8Lossy_asBytes]
      rfl
    have hother : ∀ name ∈ [":method", ":path", "accept-encoding", "if-none-match",
        "if-modified-since", "if-match", "if-unmodified-since", "if-range"],
        asBytes "range" ≠ asBytes name := by
      decide
    simp only [RawRequestHeaders.collectOne]
    repeat rw [if_neg (hother _ (by simp))]
    rw [if_pos trivial, hfill]
    rfl
  rw [RawRequestHeaders.collect, RawRequestHeaders.collect, List.foldl_append,
    List.foldl_append, List.foldl_cons, hcollect _ hslot, foldl_collectOne_withRange]

end Collecting

/-! ## Responses -/

/-- The stream has ended with this response. -/
structure SendsWhole (s : State) (replyHeaders : List (String × String)) (body : Bytes) :
    Prop where
  answer : ∃ endStream, s.answer = some (.sendResponseHeaders replyHeaders endStream)
  ended : ∃ before last after, s.trace = before ++ .sendResponseData .pump last true :: after ∧
    sentBytes (before ++ [.sendResponseData .pump last true]) = body

/-- The request is answered with the range of the body. -/
def AnswersRange (crates : Crates) (cfg : Config) (env : Env) (range : ByteRange)
    (body : Bytes) : Prop :=
  ∃ replyHeaders endStream, HasStatus replyHeaders 206 ∧
    headerValues "content-range" replyHeaders = [contentRange range body.length] ∧
    Responds crates cfg env (some ⟨.sendResponseHeaders replyHeaders endStream,
      fileSlice body range.start range.length⟩)

/-- If the response advertises ranges, the request with any range of the body added to it is
answered with the range. -/
def HonoursRanges (crates : Crates) (cfg : Config) (store : Store)
    (contents : FileHandle → Bytes) (headers : List (Bytes × Bytes))
    (replyHeaders : List (String × String)) (body : Bytes) : Prop :=
  ("accept-ranges", "bytes") ∈ replyHeaders → ∀ ranged range, AddsRange range headers ranged →
    range.start ≤ range.stop → range.stop < body.length →
      AnswersRange crates cfg (store.serves contents ranged) range body

/-! ## The file of a request with a range -/

section Walks

variable {crates : Crates} {cfg : Config} {store : Store} {data : RequestData} {query : Query}
  {outcome : Outcome} {headers ranged : List (Bytes × Bytes)} {range : ByteRange}

theorem walk_withRange (text : Option String) (n : ℕ) (query : Query) :
    walk crates cfg store (data.withRange text) n query =
      walk crates cfg store data n query := by
  induction n generalizing query with
  | zero => rfl
  | succ n ih =>
      have hleads : query.leads crates cfg store (data.withRange text) =
          query.leads crates cfg store data := rfl
      rw [walk, walk, hleads]
      split
      · rfl
      · exact ih _
      · rfl

/-- The walk does not depend on the range. -/
theorem finds_withRange (text : Option String) :
    Finds crates cfg store (data.withRange text) query outcome ↔
      Finds crates cfg store data query outcome := by
  simp only [Finds, walk_withRange]

/-- With the range the lookup starts at the same query. -/
theorem starts_addsRange (hadds : AddsRange range headers ranged)
    (hnone : (RawRequestHeaders.collect headers).range = none)
    (h : Starts crates cfg headers data query) :
    Starts crates cfg ranged (data.withRange (some (rangeText range))) query := by
  have hcollect := collect_addsRange hadds hnone
  obtain ⟨hrefusal, candidate, rest, haccepts, hquery⟩ := h
  refine ⟨?_, candidate, rest, ?_, hquery⟩
  · rw [refusal] at hrefusal ⊢
    rw [hcollect]
    exact hrefusal
  · obtain ⟨rawPath, relative, trailingSlash, hmounted, hresolve, rfl, hcandidates⟩ := haccepts
    rw [Accepts, hcollect]
    exact ⟨rawPath, relative, trailingSlash, hmounted, hresolve, rfl, hcandidates⟩

theorem Starts.data_eq (h : Starts crates cfg headers data query) :
    ∃ relative trailingSlash,
      data = requestData (RawRequestHeaders.collect headers) relative trailingSlash := by
  obtain ⟨-, -, -, ⟨-, relative, trailingSlash, -, -, hdata, -⟩, -⟩ := h
  exact ⟨relative, trailingSlash, hdata⟩

end Walks

/-! ## Plans -/

section Plans

variable {crates : Crates} {cfg : Config} {store : Store} {contents : FileHandle → Bytes}
  {headers ranged : List (Bytes × Bytes)} {range : ByteRange} {actions : List Action} {s : State}
  {replyHeaders : List (String × String)} {body : Bytes}

/-- The file behind a 200 for a request without a range. -/
structure ServedWhole (crates : Crates) (cfg : Config) (store : Store)
    (headers : List (Bytes × Bytes)) (data : RequestData) (query : Query)
    (opened : StoredFile) (ctx : OpenCtx) (plan : ResponsePlan) : Prop where
  starts : Starts crates cfg headers data query
  finds : Finds crates cfg store data query (.file opened ctx)
  regular : opened.stat.isDir = false
  isGet : data.methodHead = false
  ifRange : data.ifRange = none
  rangeHeader : data.rangeHeader = none
  planned : planResponse crates (requestFacts cfg data opened.stat ctx)
    (fileMeta opened.stat) = some plan
  status : plan.status = 200

variable {data : RequestData} {query : Query} {opened : StoredFile} {ctx : OpenCtx}
  {plan : ResponsePlan}

/-- The facts of a request without a range. -/
theorem requestFacts_withRange (text : String) :
    (requestFacts cfg (data.withRange (some text)) opened.stat ctx).withRange none =
      (requestFacts cfg data opened.stat ctx).withRange none := rfl

theorem ServedWhole.withRange_none
    (h : ServedWhole crates cfg store headers data query opened ctx plan) :
    (requestFacts cfg data opened.stat ctx).withRange none =
      requestFacts cfg data opened.stat ctx := by
  simp only [requestFacts, RequestFacts.withRange, h.rangeHeader, ite_self]

/-- It is planned as a whole. -/
theorem ServedWhole.planFull_eq
    (h : ServedWhole crates cfg store headers data query opened ctx plan) :
    planFull crates (requestFacts cfg data opened.stat ctx) (fileMeta opened.stat)
      (validatorsOf (fileMeta opened.stat)) = some plan :=
  planFull_of_ok h.planned h.status

/-- Every file that is served whole is advertised. -/
theorem ServedWhole.advertises
    (h : ServedWhole crates cfg store headers data query opened ctx plan) :
    ("accept-ranges", "bytes") ∈ responseHeaders plan := by
  obtain ⟨contentType, validatorHeaders, encodingHeaders, -, -, -, rfl⟩ :=
    planFull_eq_some h.planFull_eq
  simp [responseHeaders]

/-- A 200 for a request without a range serves a file whole. -/
theorem served_of_run (hchunk : 1 ≤ cfg.chunkSize)
    (hget : (RawRequestHeaders.collect headers).method = some (asBytes "GET"))
    (hrange : (RawRequestHeaders.collect headers).range = none)
    (hifRange : (RawRequestHeaders.collect headers).ifRange = none)
    (hrun : StreamRun crates cfg (store.serves contents headers) State.initial actions s)
    (hsends : SendsWhole s replyHeaders body) (hstatus : HasStatus replyHeaders 200) :
    ∃ data query opened ctx plan,
      ServedWhole crates cfg store headers data query opened ctx plan ∧
        replyHeaders = responseHeaders plan ∧ body = opened.content := by
  obtain ⟨endStream, hanswer⟩ := hsends.answer
  obtain ⟨before, last, after, htrace, hbody⟩ := hsends.ended
  obtain ⟨sent, hreplies, hsent⟩ := run_replies hchunk hrun hanswer
  obtain ⟨data, query, opened, ctx, plan, hstarts, hfinds, hregular, hplan, rfl, rfl⟩ :=
    hreplies.file
  rw [hasStatus_responseHeaders] at hstatus
  obtain ⟨relative, trailingSlash, hdata⟩ := hstarts.data_eq
  have hmethod : data.methodHead = false := by
    have hmethods : asBytes "GET" ≠ asBytes "HEAD" := by decide
    rw [hdata, requestData, hget]
    exact decide_eq_false fun hhead => hmethods (Option.some.inj hhead)
  have hnoRange : data.rangeHeader = none := by
    rw [hdata, requestData, hrange]
  have hnoIfRange : data.ifRange = none := by
    rw [hdata, requestData, hifRange]
  have hserved : ServedWhole crates cfg store headers data query opened ctx plan :=
    ⟨hstarts, hfinds, hregular, hmethod, hnoIfRange, hnoRange, hplan, hstatus⟩
  refine ⟨data, query, opened, ctx, plan, hserved, rfl, ?_⟩
  have hisGet : (requestFacts cfg data opened.stat ctx).methodHead = false := hmethod
  have hwhole : plannedBody opened.content plan.body = opened.content := by
    rw [(planFull_body hserved.planFull_eq).1, bodyUnlessHead, hisGet]
    rfl
  rw [← hbody, hsent.whole before last after htrace, hwhole]

/-- With ranges switched on, the request with a range gets the range. -/
theorem ServedWhole.answersRange
    (h : ServedWhole crates cfg store headers data query opened ctx plan)
    (hranges : cfg.ranges ≠ .none) (hchunk : 1 ≤ cfg.chunkSize)
    (hcontents : Function.Surjective contents) (hadds : AddsRange range headers ranged)
    (hnone : (RawRequestHeaders.collect headers).range = none)
    (horder : range.start ≤ range.stop) (hinside : range.stop < opened.content.length)
    (hlen : opened.content.length < 2 ^ 64) :
    AnswersRange crates cfg (store.serves contents ranged) range opened.content := by
  have hsize := opened.size_eq h.regular
  have hplan := h.planned
  rw [← h.withRange_none, ← requestFacts_withRange (rangeText range)] at hplan
  have hrange : (requestFacts cfg (data.withRange (some (rangeText range))) opened.stat
      ctx).rangeHeader = some (rangeText range) := if_neg hranges
  obtain ⟨part, hpart, hstatus, hbody, hcontentRange⟩ :=
    planResponse_single hplan h.status h.ifRange hrange horder
      (by rw [fileMeta, hsize]; exact hinside) (by rw [fileMeta, hsize]; exact hlen.le)
  have hsent : plannedBody opened.content part.body =
      fileSlice opened.content range.start range.length := by
    have hisGet : (requestFacts cfg (data.withRange (some (rangeText range))) opened.stat
        ctx).methodHead = false := h.isGet
    rw [hbody, bodyUnlessHead, hisGet]
    exact List.append_nil _
  refine ⟨responseHeaders part, (bodyChunks cfg part.body).isEmpty,
    hasStatus_responseHeaders.mpr hstatus, ?_, ?_⟩
  · rw [← hsize]
    have hother : headerValues "content-range" (responseHeaders part) =
        headerValues "content-range" part.headers := rfl
    rw [hother, hcontentRange]
    rfl
  · apply Replies.responds hchunk hcontents
    apply Replies.found (starts_addsRange hadds hnone h.starts) ((finds_withRange _).mpr h.finds)
    rw [Outcome.response, hpart, Option.map_some, hsent]

/-- With ranges switched off, the header changes nothing. -/
theorem ServedWhole.ignoresRange
    (h : ServedWhole crates cfg store headers data query opened ctx plan)
    (hranges : cfg.ranges = .none) (hadds : AddsRange range headers ranged)
    (hnone : (RawRequestHeaders.collect headers).range = none) :
    Replies crates cfg store ranged ⟨.sendResponseHeaders (responseHeaders plan)
      (bodyChunks cfg plan.body).isEmpty, plannedBody opened.content plan.body⟩ := by
  have hfacts : requestFacts cfg (data.withRange (some (rangeText range))) opened.stat ctx =
      requestFacts cfg data opened.stat ctx := by
    simp only [requestFacts, if_pos hranges]
    rfl
  apply Replies.found (starts_addsRange hadds hnone h.starts) ((finds_withRange _).mpr h.finds)
  rw [Outcome.response, hfacts, h.planned, Option.map_some]

/-- The request with a range is then not answered with the range. -/
theorem ServedWhole.not_answersRange
    (h : ServedWhole crates cfg store headers data query opened ctx plan)
    (hranges : cfg.ranges = .none) (hchunk : 1 ≤ cfg.chunkSize)
    (hadds : AddsRange range headers ranged)
    (hnone : (RawRequestHeaders.collect headers).range = none) :
    ¬AnswersRange crates cfg (store.serves contents ranged) range body := by
  rintro ⟨partHeaders, endStream, hstatus, -, hresponds⟩
  obtain ⟨actions, t, call, hrun, hanswer⟩ :=
    hresponds.reaches nofun [] State.initial (.nil _) rfl
  obtain ⟨sent, hreplies, -⟩ := run_replies hchunk hrun hanswer
  obtain ⟨part, hcall, -⟩ := hresponds.answers _ _ _ hrun hanswer
  cases hcall
  cases hreplies.unique (h.ignoresRange hranges hadds hnone)
  rw [hasStatus_responseHeaders, h.status] at hstatus
  nomatch hstatus

end Plans

/-- Advertised ranges are honoured exactly if the configuration supports ranges. -/
theorem advertised_ranges_honoured_iff {crates : Crates} {cfg : Config} {store : Store}
    {contents : FileHandle → Bytes} {headers : List (Bytes × Bytes)} {actions : List Action}
    {s : State} {replyHeaders : List (String × String)} {body : Bytes}
    (hchunk : 1 ≤ cfg.chunkSize) (hcontents : Function.Surjective contents)
    (hget : (RawRequestHeaders.collect headers).method = some (asBytes "GET"))
    (hrange : (RawRequestHeaders.collect headers).range = none)
    (hifRange : (RawRequestHeaders.collect headers).ifRange = none)
    (hrun : StreamRun crates cfg (store.serves contents headers) State.initial actions s)
    (hsends : SendsWhole s replyHeaders body) (hstatus : HasStatus replyHeaders 200)
    (hbody : body ≠ []) (hlen : body.length < 2 ^ 64) :
    HonoursRanges crates cfg store contents headers replyHeaders body ↔ cfg.ranges ≠ .none := by
  obtain ⟨data, query, opened, ctx, plan, hserved, rfl, rfl⟩ :=
    served_of_run hchunk hget hrange hifRange hrun hsends hstatus
  constructor
  · intro hhonours hranges
    have hadds : AddsRange ⟨0, 0⟩ headers
        (headers ++ [(asBytes "range", asBytes (rangeText ⟨0, 0⟩))]) :=
      ⟨headers, [], (List.append_nil _).symm, rfl⟩
    have hanswers := hhonours hserved.advertises _ _ hadds le_rfl
      (List.length_pos_iff.mpr hbody)
    exact hserved.not_answersRange hranges hchunk hadds hrange hanswers
  · intro hranges _ ranged range hadds horder hinside
    exact hserved.answersRange hranges hchunk hcontents hadds hrange horder hinside hlen

/-! ### Witness and counterexample -/

/-- A file of three bytes. -/
def letterFile : StoredFile :=
  ⟨⟨3, 0, 0, false⟩, [97, 98, 99], letters_size⟩

/-- `/srv` with the file `a`. -/
def letterStore : Store where
  opens path := if path = ⟨"/srv/a"⟩ then .ok letterFile else .error ⟨.notFound, none⟩
  lists _ := .ok []

def rangeConfig (ranges : RangeSupport) : Config :=
  { Config.defaults ⟨"/srv"⟩ with etag := false, lastModified := false, ranges }

def letterHandle : FileHandle :=
  ⟨Encodable.encode [97, 98, 99]⟩

theorem numberedContents_letterHandle : numberedContents letterHandle = letterFile.content := by
  rw [numberedContents, letterHandle, Encodable.encodek, Option.getD_some]
  rfl

def letterOpen : OpenRequest where
  path := ⟨"/srv/a"⟩
  containmentRoot := some ⟨"/srv"⟩
  denySymlinks := false
  prefetchLen := 65536

def letterHeaders : List (String × String) :=
  [(":status", "200"), ("content-type", "application/octet-stream"),
    ("accept-ranges", "bytes"), ("content-length", "3")]

def letterActions : List Action :=
  openedActions (getHeaders "/a") letterHandle letterFile

def letterTrace (ranges : RangeSupport) : Option (List Call) :=
  (replay Crates.plain (rangeConfig ranges) State.initial letterActions).map (·.trace)

/-- The file is sent whole, whatever ranges are supported. -/
theorem letter_run {ranges : RangeSupport}
    (htrace : letterTrace ranges = some [.openStat letterOpen,
      .sendResponseHeaders letterHeaders false, .sendResponseData .pump [97, 98, 99] true])
    (hopen : (step Crates.plain (rangeConfig ranges) State.initial
      (.requestHeaders (getHeaders "/a") [])).map (·.pending) =
        some [.openStat letterOpen ⟨none, "application/octet-stream", false⟩]) :
    ∃ s, StreamRun Crates.plain (rangeConfig ranges)
        (letterStore.serves numberedContents (getHeaders "/a")) State.initial letterActions s ∧
      SendsWhole s letterHeaders [97, 98, 99] := by
  obtain ⟨s, hs, htrace⟩ := Option.map_eq_some_iff.mp htrace
  refine ⟨s, openedActions_run hs hopen rfl numberedContents_letterHandle, ?_, ?_⟩
  · refine ⟨false, ?_⟩
    rw [State.answer, htrace]
    rfl
  · exact ⟨[.openStat letterOpen, .sendResponseHeaders letterHeaders false], [97, 98, 99], [],
      htrace, rfl⟩

theorem advertised_ranges_honoured_iff_single :
    HonoursRanges Crates.plain (rangeConfig .single) letterStore numberedContents
        (getHeaders "/a") letterHeaders [97, 98, 99] ↔
      (rangeConfig .single).ranges ≠ .none := by
  obtain ⟨s, hrun, hsends⟩ := @letter_run .single (by decide) (by decide)
  exact advertised_ranges_honoured_iff (by decide) numberedContents_surjective
    (by decide) (by decide) (by decide) hrun hsends rfl (by decide)
    (by decide)

/-- Without range support the range is advertised, and the whole file sent instead of it. -/
theorem advertised_ranges_ignored :
    ∃ s, StreamRun Crates.plain (rangeConfig .none)
        (letterStore.serves numberedContents (getHeaders "/a")) State.initial letterActions s ∧
      SendsWhole s letterHeaders [97, 98, 99] ∧ HasStatus letterHeaders 200 ∧
      ("accept-ranges", "bytes") ∈ letterHeaders ∧
      ¬AnswersRange Crates.plain (rangeConfig .none) (letterStore.serves numberedContents
        (getHeaders "/a" ++ [(asBytes "range", asBytes "bytes=0-1")])) ⟨0, 1⟩ [97, 98, 99] := by
  obtain ⟨s, hrun, hsends⟩ := @letter_run .none (by decide) (by decide)
  have hget : (RawRequestHeaders.collect (getHeaders "/a")).method = some (asBytes "GET") := by
    decide
  have hrange : (RawRequestHeaders.collect (getHeaders "/a")).range = none := by
    decide
  have hifRange : (RawRequestHeaders.collect (getHeaders "/a")).ifRange = none := by
    decide
  obtain ⟨data, query, opened, ctx, plan, hserved, -, -⟩ :=
    served_of_run (by decide) hget hrange hifRange hrun hsends rfl
  refine ⟨s, hrun, hsends, rfl, by decide, ?_⟩
  have hadds : AddsRange ⟨0, 1⟩ (getHeaders "/a")
      (getHeaders "/a" ++ [(asBytes "range", asBytes "bytes=0-1")]) :=
    ⟨getHeaders "/a", [], (List.append_nil _).symm, by decide⟩
  exact hserved.not_answersRange rfl (by decide) hadds hrange

end EnvoyFiles.Filter
