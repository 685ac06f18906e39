import EnvoyFiles.Core.Resumption
import EnvoyFiles.Filter.EntityTags
import EnvoyFiles.Server.Responses

/-!
# Downloads

A client gets a file in as many responses as it takes, while the file may be replaced
between any two of them.  As long as versions differ in size or in modification time, what
it puts together under one entity tag is the start of a single version; a copy that is not
modified is one of the current version; and where the version is still there, the rest of
it comes in the next response.
-/

namespace EnvoyFiles.Server

open Filter Range

/-! ## What a client gets -/

/-- Some server over the site gives this answer to the request, and the client gets these
bytes behind it before it loses the connection. -/
def Fetches (crates : Crates) (cfg : Config) (site : Site) (headers : List (Bytes × Bytes))
    (call : Call) (received : Bytes) : Prop :=
  ∃ requests actions s index stream, opens actions < CompioEngine.idRange ∧
    ServerRun crates cfg (site.allows requests) initial actions s ∧
    requests index = headers ∧ s.streams[index]? = some stream ∧
    stream.filter.answer = some call ∧ received <+: sentBytes stream.filter.trace

/-- The request leads to a regular file. -/
def LeadsTo (crates : Crates) (cfg : Config) (store : Store) (headers : List (Bytes × Bytes))
    (file : StoredFile) : Prop :=
  ∃ data query ctx, Starts crates cfg headers data query ∧
    Finds crates cfg store data query (.file file ctx)

/-- The files that requests lead to, each on the filesystem of its time. -/
def versions (crates : Crates) (cfg : Config) (served : Set (Site × List (Bytes × Bytes))) :
    Set StoredFile :=
  {file | ∃ site headers, (site, headers) ∈ served ∧
    LeadsTo crates cfg (site.store cfg) headers file}

/-- Files with the same size and modification time have the same content. -/
structure Versioned (files : Set StoredFile) : Prop where
  /-- A modification time is an `i64`. -/
  range : ∀ file ∈ files, -2 ^ 63 ≤ file.stat.mtimeUnix ∧ file.stat.mtimeUnix < 2 ^ 63
  content : ∀ file ∈ files, ∀ other ∈ files,
    SameVersion (fileMeta file.stat) (fileMeta other.stat) → file.content = other.content

/-- The request asks for the rest of a file from a position on, under an entity tag. -/
structure AsksRest (headers : List (Bytes × Bytes)) (etag : String) (start : ℕ) : Prop where
  range : (RawRequestHeaders.collect headers).range = some (restText start)
  ifRange : (RawRequestHeaders.collect headers).ifRange = some etag

/-- The request is a `GET` that is under no other condition than `If-Range`. -/
structure PlainGet (headers : List (Bytes × Bytes)) : Prop where
  method : (RawRequestHeaders.collect headers).method = some (Text.asBytes "GET")
  ifNoneMatch : (RawRequestHeaders.collect headers).ifNoneMatch = none
  ifModifiedSince : (RawRequestHeaders.collect headers).ifModifiedSince = none
  ifMatch : (RawRequestHeaders.collect headers).ifMatch = none
  ifUnmodifiedSince : (RawRequestHeaders.collect headers).ifUnmodifiedSince = none

/-- What a client holds under an entity tag: what it got of a whole file, and what it got
later of the rest that it asked for. -/
inductive Holds (crates : Crates) (cfg : Config) (served : Set (Site × List (Bytes × Bytes))) :
    String → Bytes → Prop where
  | whole {site : Site} {headers : List (Bytes × Bytes)} {replyHeaders : List (String × String)}
      {endStream : Bool} {etag : String} {received : Bytes} : (site, headers) ∈ served →
      Fetches crates cfg site headers (.sendResponseHeaders replyHeaders endStream) received →
      HasStatus replyHeaders 200 → ("etag", etag) ∈ replyHeaders →
      Holds crates cfg served etag received
  | resumed {site : Site} {headers : List (Bytes × Bytes)}
      {replyHeaders : List (String × String)} {endStream : Bool} {etag : String}
      {got received : Bytes} : Holds crates cfg served etag got → (site, headers) ∈ served →
      AsksRest headers etag got.length →
      Fetches crates cfg site headers (.sendResponseHeaders replyHeaders endStream) received →
      HasStatus replyHeaders 206 → Holds crates cfg served etag (got ++ received)

section Versions

variable {files : Set StoredFile} {file other : StoredFile} {crates : Crates} {cfg : Config}
  {store : Store} {headers : List (Bytes × Bytes)}

/-- Versions with one tag have one content. -/
theorem Versioned.content_eq (h : Versioned files) (hfile : file ∈ files) (hother : other ∈ files)
    (htag : (fileMeta file.stat).tag = (fileMeta other.stat).tag) :
    file.content = other.content :=
  h.content file hfile other hother
    ((sameVersion_iff (h.range file hfile) (h.range other hother)).mp htag)

theorem LeadsTo.size (h : LeadsTo crates cfg store headers file) :
    file.stat.size = file.content.length := by
  obtain ⟨data, query, ctx, -, n, hwalk⟩ := h
  exact file.size_eq (walk_file hwalk)

/-- What has the start of a file and its size is the file. -/
theorem LeadsTo.whole {got : Bytes} (h : LeadsTo crates cfg store headers file)
    (hgot : got <+: file.content) (hsize : got.length = file.stat.size) : got = file.content :=
  hgot.eq_of_length (hsize.trans h.size)

end Versions

/-! ## Responses -/

section Fetched

variable {crates : Crates} {cfg : Config} {site : Site} {headers : List (Bytes × Bytes)}
  {replyHeaders : List (String × String)} {endStream : Bool} {received sent : Bytes}
  {content : Bytes} {facts : RequestFacts} {plan : ResponsePlan}

/-- Behind response headers stands the plan for a file that the request leads to. -/
theorem replies_planned
    (h : Filter.Replies crates cfg (site.store cfg) headers
      ⟨.sendResponseHeaders replyHeaders endStream, sent⟩) :
    ∃ file ctx relative trailingSlash plan,
      LeadsTo crates cfg (site.store cfg) headers file ∧
      planResponse crates (requestFacts cfg
        (requestData (RawRequestHeaders.collect headers) relative trailingSlash) file.stat ctx)
        (fileMeta file.stat) = some plan ∧
      replyHeaders = responseHeaders plan ∧ sent = plannedBody file.content plan.body := by
  obtain ⟨data, query, file, ctx, plan, hstarts, hfinds, -, hplan, hreply, hsent⟩ := h.file
  obtain ⟨relative, trailingSlash, rfl⟩ := hstarts.data_eq
  exact ⟨file, ctx, relative, trailingSlash, plan, ⟨_, query, ctx, hstarts, hfinds⟩, hplan,
    hreply, hsent⟩

theorem Fetches.planned (hchunk : 1 ≤ cfg.chunkSize)
    (h : Fetches crates cfg site headers (.sendResponseHeaders replyHeaders endStream) received) :
    ∃ file ctx relative trailingSlash plan,
      LeadsTo crates cfg (site.store cfg) headers file ∧
      planResponse crates (requestFacts cfg
        (requestData (RawRequestHeaders.collect headers) relative trailingSlash) file.stat ctx)
        (fileMeta file.stat) = some plan ∧
      replyHeaders = responseHeaders plan ∧ received <+: plannedBody file.content plan.body := by
  obtain ⟨requests, actions, s, index, stream, hdrawn, hrun, rfl, hstream, hanswer, hreceived⟩ := h
  obtain ⟨handle, location, alone, halone⟩ := (server_isolated hdrawn hrun).alone hstream
  obtain ⟨sent, hreplies, hsends⟩ := run_replies hchunk (run_serves_store halone) hanswer
  obtain ⟨file, ctx, relative, trailingSlash, plan, hleads, hplan, hreply, rfl⟩ :=
    replies_planned hreplies
  exact ⟨file, ctx, relative, trailingSlash, plan, hleads, hplan, hreply,
    hreceived.trans hsends.part⟩

theorem mem_responseHeaders {etag : String} (h : ("etag", etag) ∈ responseHeaders plan) :
    ("etag", etag) ∈ plan.headers := by
  rcases List.mem_cons.mp h with hstatus | hmem
  · exact absurd (congrArg Prod.fst hstatus) (by decide : "etag" ≠ ":status")
  · exact hmem

theorem requestFacts_rangeHeader {data : RequestData} {stat : FileStat} {ctx : OpenCtx}
    (h : cfg.ranges ≠ .none) :
    (requestFacts cfg data stat ctx).rangeHeader = data.rangeHeader :=
  if_neg h

/-- Where the planner gets a range, it is that of the request. -/
theorem rangeHeader_eq {data : RequestData} {stat : FileStat} {ctx : OpenCtx}
    (h : (requestFacts cfg data stat ctx).rangeHeader ≠ none) :
    (requestFacts cfg data stat ctx).rangeHeader = data.rangeHeader :=
  requestFacts_rangeHeader fun hnone => h (if_pos hnone)

/-- The response to a request is the one to what it finds. -/
theorem replies_found {store : Store} {data : RequestData} {query : Query} {outcome : Outcome}
    {response : Response} (h : Filter.Replies crates cfg store headers response)
    (hstarts : Starts crates cfg headers data query)
    (hfinds : Finds crates cfg store data query outcome) :
    outcome.response crates cfg data = some response := by
  cases h with
  | refused hrefusal _ => cases hrefusal.symm.trans hstarts.1
  | found hstarts' hfinds' hresponse =>
      obtain ⟨rfl, rfl⟩ := hstarts.unique hstarts'
      cases hfinds.unique hfinds'
      exact hresponse

/-- A part of the body that a `GET` gets is a part of the planned one. -/
theorem plannedBody_unlessHead {body : BodyPlan}
    (h : received <+: plannedBody content (bodyUnlessHead facts body)) :
    received <+: plannedBody content body := by
  rw [bodyUnlessHead] at h
  split at h
  · rw [List.prefix_nil.mp h]
    exact List.nil_prefix
  · exact h

/-- The rest of a file is what stands from the position on. -/
theorem plannedBody_rest {start : ℕ} (hstart : start < content.length) :
    plannedBody content (.segments [⟨start, content.length - 1⟩]) = content.drop start := by
  rw [plannedBody]
  rw [List.flatMap_singleton, fileSlice, ByteRange.length]
  dsimp only
  rw [List.take_of_length_le]
  rw [List.length_drop]
  omega

end Fetched

/-! ## The versions that a client holds -/

section Held

variable {crates : Crates} {cfg : Config} {served : Set (Site × List (Bytes × Bytes))}
  {etag : String} {got received : Bytes} {site : Site} {headers : List (Bytes × Bytes)}
  {replyHeaders : List (String × String)} {endStream : Bool} {file : StoredFile}
  {requests : ℕ → List (Bytes × Bytes)} {s : Server} {actions : List Action} {index : ℕ}
  {stream : Stream}

/-- A client that holds something under a tag has got it from a configuration with tags. -/
theorem Holds.etagEnabled (hchunk : 1 ≤ cfg.chunkSize) (h : Holds crates cfg served etag got) :
    cfg.etag = true := by
  induction h with
  | whole _ hfetches hstatus hetag =>
      obtain ⟨file, ctx, relative, trailingSlash, plan, -, hplan, rfl, -⟩ := hfetches.planned hchunk
      have hfull := planFull_of_ok hplan (hasStatus_responseHeaders.mp hstatus)
      exact planFull_tagged hfull (mem_responseHeaders hetag)
  | resumed _ _ _ _ _ ih => exact ih

/-- What a client holds under a tag is the start of a version with that tag: a further part
comes only while the file is of such a version, and starts where what it got ends. -/
theorem Holds.version (hreads : ReadsValidators crates) (hchunk : 1 ≤ cfg.chunkSize)
    (hversions : Versioned (versions crates cfg served)) (h : Holds crates cfg served etag got) :
    ∃ file ∈ versions crates cfg served, etag = quoted (fileMeta file.stat).tag ∧
      got <+: file.content := by
  induction h with
  | @whole site headers replyHeaders endStream etag received hserved hfetches hstatus hetag =>
      obtain ⟨file, ctx, relative, trailingSlash, plan, hleads, hplan, rfl, hreceived⟩ :=
        hfetches.planned hchunk
      have hfull := planFull_of_ok hplan (hasStatus_responseHeaders.mp hstatus)
      rw [(planFull_body hfull).1] at hreceived
      exact ⟨file, ⟨site, headers, hserved, hleads⟩,
        planResponse_tag hplan (mem_responseHeaders hetag), plannedBody_unlessHead hreceived⟩
  | @resumed site headers replyHeaders endStream etag got received _ hserved hasks hfetches
      hstatus ih =>
      obtain ⟨file, hfile, rfl, hgot⟩ := ih
      obtain ⟨other, ctx, relative, trailingSlash, plan, hleads, hplan, rfl, hreceived⟩ :=
        hfetches.planned hchunk
      have hpartial := hasStatus_responseHeaders.mp hstatus
      have hrange : (requestFacts cfg (requestData (RawRequestHeaders.collect headers) relative
          trailingSlash) other.stat ctx).rangeHeader = some (restText got.length) :=
        (rangeHeader_eq (rangeHeader_of_partialContent hplan hpartial)).trans hasks.range
      obtain ⟨htag, hstart, hbody⟩ := planResponse_rest hreads (FileMeta.tag_isEtagText _) hplan
        hpartial hrange hasks.ifRange
      have hcontent : other.content = file.content :=
        hversions.content_eq ⟨site, headers, hserved, hleads⟩ hfile htag
      have hlength : got.length < other.content.length := hleads.size ▸ hstart
      have hsize : (fileMeta other.stat).size = other.content.length := hleads.size
      rw [hbody, hsize] at hreceived
      have hpart := plannedBody_unlessHead hreceived
      rw [plannedBody_rest hlength, hcontent] at hpart
      refine ⟨file, hfile, rfl, ?_⟩
      obtain ⟨rest, hrest⟩ := hgot
      rw [← hrest, List.drop_left] at hpart
      rw [← hrest]
      exact (List.prefix_append_right_inj got).mpr hpart

/-- Whatever responses a download took, and however often the file was replaced between
them, what the client holds is the start of one version, the one with the tag, and all of it
once it has its size. -/
theorem resumed_download_is_one_version (hreads : ReadsValidators crates)
    (hchunk : 1 ≤ cfg.chunkSize) (hversions : Versioned (versions crates cfg served))
    (h : Holds crates cfg served etag got) :
    ∃ file ∈ versions crates cfg served, etag = quoted (fileMeta file.stat).tag ∧
      got <+: file.content ∧ (got.length = file.stat.size → got = file.content) := by
  obtain ⟨file, ⟨site, headers, hserved, hleads⟩, htag, hgot⟩ :=
    h.version hreads hchunk hversions
  exact ⟨file, ⟨site, headers, hserved, hleads⟩, htag, hgot, hleads.whole hgot⟩

/-- A copy that a 304 leaves to the client is one of the file that its request finds now. -/
theorem not_modified_copy_is_current (hreads : ReadsValidators crates)
    (hchunk : 1 ≤ cfg.chunkSize) (hversions : Versioned (versions crates cfg served))
    (h : Holds crates cfg served etag got) (hserved : (site, headers) ∈ served)
    (hasks : (RawRequestHeaders.collect headers).ifNoneMatch = some etag)
    (hfetches : Fetches crates cfg site headers (.sendResponseHeaders replyHeaders endStream)
      received)
    (hstatus : HasStatus replyHeaders 304) :
    ∃ file, LeadsTo crates cfg (site.store cfg) headers file ∧ got <+: file.content ∧
      (got.length = file.stat.size → got = file.content) := by
  have hetag : cfg.etag = true := h.etagEnabled hchunk
  obtain ⟨held, hheld, rfl, hgot⟩ := h.version hreads hchunk hversions
  obtain ⟨file, ctx, relative, trailingSlash, plan, hleads, hplan, rfl, -⟩ :=
    hfetches.planned hchunk
  have htag := planResponse_current hreads (FileMeta.tag_isEtagText _) hplan
    (hasStatus_responseHeaders.mp hstatus) hetag hasks
  have hcontent : file.content = held.content :=
    hversions.content_eq ⟨site, headers, hserved, hleads⟩ hheld htag
  rw [← hcontent] at hgot
  exact ⟨file, hleads, hgot, hleads.whole hgot⟩

/-- Where the version is still there, the rest of it comes in one response: without faults, a
stream that is asked for it and has ended has sent all that the client lacks. -/
theorem resumed_download_completes (hreads : ReadsValidators crates) (hchunk : 1 ≤ cfg.chunkSize)
    (hranges : cfg.ranges ≠ .none) (hversions : Versioned (versions crates cfg served))
    (h : Holds crates cfg served etag got) (hserved : (site, requests index) ∈ served)
    (hasks : AsksRest (requests index) etag got.length) (hplain : PlainGet (requests index))
    (hleads : LeadsTo crates cfg (site.store cfg) (requests index) file)
    (hsame : etag = quoted (fileMeta file.stat).tag) (hrest : got.length < file.stat.size)
    (hlen : file.stat.size ≤ 2 ^ 64) (hfault : ∀ error, ¬site.fault error)
    (hdrawn : opens actions < CompioEngine.idRange)
    (hrun : ServerRun crates cfg (site.allows requests) initial actions s)
    (hstream : s.streams[index]? = some stream) (hdone : stream.filter.phase = .done) :
    ∃ replyHeaders endStream,
      stream.filter.answer = some (.sendResponseHeaders replyHeaders endStream) ∧
        HasStatus replyHeaders 206 ∧ got ++ sentBytes stream.filter.trace = file.content := by
  obtain ⟨handle, location, alone, halone⟩ := (server_isolated hdrawn hrun).alone hstream
  obtain ⟨call, hanswer, hreplies⟩ := done_replies hchunk hfault halone hdone
  obtain ⟨data, query, ctx, hstarts, hfinds⟩ := id hleads
  obtain ⟨plan, hplan, hcall⟩ := Option.map_eq_some_iff.mp (replies_found hreplies hstarts hfinds)
  obtain ⟨rfl, hsent⟩ := Response.mk.inj hcall
  obtain ⟨relative, trailingSlash, rfl⟩ := hstarts.data_eq
  obtain ⟨held, hheld, htag, hgot⟩ := h.version hreads hchunk hversions
  have hcontent : file.content = held.content := by
    refine hversions.content_eq ⟨site, requests index, hserved, hleads⟩ hheld ?_
    exact quoted_inj.mp (hsame.symm.trans htag)
  have hrange : (requestFacts cfg (requestData (RawRequestHeaders.collect (requests index))
      relative trailingSlash) file.stat ctx).rangeHeader = some (restText got.length) :=
    (requestFacts_rangeHeader hranges).trans hasks.range
  have hconditionals : (requestFacts cfg (requestData (RawRequestHeaders.collect
      (requests index)) relative trailingSlash) file.stat ctx).conditionals =
        { noConditionals with ifRange := some (quoted (fileMeta file.stat).tag) } := by
    rw [requestFacts, requestData]
    dsimp only
    rw [hplain.ifNoneMatch, hplain.ifModifiedSince, hplain.ifMatch, hplain.ifUnmodifiedSince,
      hasks.ifRange, hsame]
    rfl
  have hget : (requestFacts cfg (requestData (RawRequestHeaders.collect
      (requests index)) relative trailingSlash) file.stat ctx).methodHead = false := by
    have hmethods : Text.asBytes "GET" ≠ Text.asBytes "HEAD" := by decide
    rw [requestFacts, requestData]
    rw [hplain.method]
    exact decide_eq_false fun heq => hmethods (Option.some.inj heq)
  have hpartial : plan.status = 206 :=
    planResponse_resumes hreads (FileMeta.tag_isEtagText _) hplan hconditionals hrange rfl hrest
      hlen
  obtain ⟨-, -, hbody⟩ := planResponse_rest hreads (FileMeta.tag_isEtagText _) hplan hpartial
    hrange (congrArg Conditional.ConditionalHeaders.ifRange hconditionals)
  have hsize : (fileMeta file.stat).size = file.content.length := hleads.size
  rw [bodyUnlessHead, hget, hsize] at hbody
  have hlength : got.length < file.content.length := hleads.size ▸ hrest
  refine ⟨_, _, hanswer, hasStatus_responseHeaders.mpr hpartial, ?_⟩
  rw [← hsent, hbody]
  simp only [Bool.false_eq_true, if_false]
  rw [plannedBody_rest hlength]
  rw [hcontent] at hlength ⊢
  obtain ⟨rest, hall⟩ := hgot
  rw [← hall, List.drop_left]

end Held

/-! ### Witnesses -/

section Witness

variable {crates : Crates} {cfg : Config} {site : Site} {headers : List (Bytes × Bytes)}
  {file : StoredFile} {actions : List Action} {call : Call} {received sent : Bytes}

/-- What a walk finds has opened. -/
theorem walk_opens {store : Store} {data : RequestData} {query : Query} {n : ℕ} {ctx : OpenCtx}
    (h : walk crates cfg store data n query = some (.file file ctx)) :
    ∃ path, store.opens path = .ok file := by
  have hreaction : ∀ (reaction : Reaction) (phase : Phase),
      reaction.leads phase ≠ some (.inl (.file file ctx)) := by
    intro reaction phase hleads
    cases reaction <;> cases hleads
  induction n generalizing query with
  | zero => cases h
  | succ n ih =>
      rw [walk] at h
      split at h
      · next outcome hleads =>
          cases h
          cases query with
          | opens phase path ctx' =>
              unfold Query.leads at hleads
              dsimp only at hleads
              split at hleads
              · exact absurd hleads (hreaction _ _)
              · next opened hopens =>
                  split at hleads
                  · split at hleads
                    · exact absurd hleads (hreaction _ _)
                    · exact absurd hleads (hreaction _ _)
                  · cases hleads
                    exact ⟨path, hopens⟩
          | lists phase path =>
              unfold Query.leads at hleads
              dsimp only at hleads
              split at hleads <;> cases hleads
      · exact ih h
      · cases h

theorem LeadsTo.stored (h : LeadsTo crates cfg (site.store cfg) headers file) :
    file.stat.isDir = false ∧ ∃ location, file = site.stored location := by
  obtain ⟨data, query, ctx, -, n, hwalk⟩ := h
  obtain ⟨path, hopens⟩ := walk_opens hwalk
  refine ⟨walk_file hwalk, ?_⟩
  rw [Site.store] at hopens
  dsimp only at hopens
  split at hopens
  · cases hopens
  · next opened _ => exact ⟨opened.file, (Except.ok.inj hopens).symm⟩

theorem smallSite_stored {location : Location}
    (h : (smallSite.stored location).stat.isDir = false) :
    (smallSite.stored location).stat = ⟨3, 0, 0, false⟩ ∧
      (smallSite.stored location).content = [1, 2, 3] := by
  unfold Site.stored at h ⊢
  split at h
  · next file hfile =>
      cases smallSite_file hfile
      exact ⟨rfl, rfl⟩
  · cases h
  · cases h

/-- Every request that is made finds the small filesystem. -/
def smallServed : Set (Site × List (Bytes × Bytes)) :=
  {request | request.1 = smallSite}

theorem LeadsTo.small (h : LeadsTo crates cfg (smallSite.store cfg) headers file) :
    file.stat = ⟨3, 0, 0, false⟩ ∧ file.content = [1, 2, 3] := by
  obtain ⟨hfile, location, rfl⟩ := h.stored
  exact smallSite_stored hfile

theorem smallServed_versioned : Versioned (versions crates cfg smallServed) where
  range file hfile := by
    obtain ⟨site, headers, rfl, hleads⟩ := hfile
    rw [hleads.small.1]
    decide
  content file hfile other hother _ := by
    obtain ⟨site, headers, rfl, hleads⟩ := hfile
    obtain ⟨site, headers', rfl, hleads'⟩ := hother
    rw [hleads.small.2, hleads'.small.2]

/-- A `GET` of the whole file is answered from what the open has prefetched. -/
def wholeActions : List Action :=
  [.newStream, .callback 0 (.requestHeaders (getHeaders "/a") []),
    .claimId 0, .sendOpen 0, .takeCommand, .finishOpen 0 smallFileOs 7,
    .callback 0 .commit, .callback 0 (.scheduled [])]

/-- The request for what stands behind the first byte. -/
def restHeaders : List (Bytes × Bytes) :=
  getHeaders "/a" ++ [(Text.asBytes "range", Text.asBytes (restText 1)),
    (Text.asBytes "if-range", Text.asBytes "\"3-0.0\"")]

/-- Its file is open, and the read is on its way. -/
def readingActions : List Action :=
  [.newStream, .callback 0 (.requestHeaders restHeaders []),
    .claimId 0, .sendOpen 0, .takeCommand, .finishOpen 0 smallFileOs 7,
    .callback 0 .commit, .callback 0 (.scheduled []), .submit 0, .takeCommand]

/-- The read returns what it asks for. -/
def readActions : List Action :=
  [.finishRead 0 fun _ position want => .ok ((([1, 2, 3] : Bytes).drop position).take want),
    .callback 0 .commit, .callback 0 (.scheduled [])]

/-- The request for the file if it is not the one with the tag. -/
def revalidationHeaders : List (Bytes × Bytes) :=
  getHeaders "/a" ++ [(Text.asBytes "if-none-match", Text.asBytes "\"3-0.0\"")]

def revalidationActions : List Action :=
  [.newStream, .callback 0 (.requestHeaders revalidationHeaders []),
    .claimId 0, .sendOpen 0, .takeCommand, .finishOpen 0 smallFileOs 7,
    .callback 0 .commit, .callback 0 (.scheduled [])]

/-- A server that answers one client. -/
def answered (actions : List Action) : Option Server :=
  actions.foldlM (step Crates.epoch (Config.defaults ⟨"/srv"⟩)) initial

/-- The reply headers of the first stream, and the bytes sent behind them. -/
def replied (s : Server) : Option (List (String × String) × Bytes) :=
  s.streams[0]?.bind fun stream =>
    match stream.filter.answer with
    | some (.sendResponseHeaders replyHeaders _) =>
        some (replyHeaders, sentBytes stream.filter.trace)
    | _ => none

theorem answered_run {s : Server} (h : answered actions = some s) :
    ServerRun Crates.epoch (Config.defaults ⟨"/srv"⟩) (fun _ _ => True) initial actions s :=
  Transition.Run.of_foldlM (fun _ _ => trivial) h

theorem whole_allowed {s : Server} (h : answered wholeActions = some s) :
    ServerRun Crates.epoch (Config.defaults ⟨"/srv"⟩) (smallSite.allows fun _ => getHeaders "/a")
      initial wholeActions s := by
  refine (answered_run h).mono_of_mem ?_
  intro u action haction _
  simp only [wholeActions, List.mem_cons, List.not_mem_nil, or_false] at haction
  rcases haction with rfl | rfl | rfl | rfl | rfl | rfl | rfl | rfl
  all_goals trivial

theorem revalidation_allowed {s : Server} (h : answered revalidationActions = some s) :
    ServerRun Crates.epoch (Config.defaults ⟨"/srv"⟩)
      (smallSite.allows fun _ => revalidationHeaders) initial revalidationActions s := by
  refine (answered_run h).mono_of_mem ?_
  intro u action haction _
  simp only [revalidationActions, List.mem_cons, List.not_mem_nil, or_false] at haction
  rcases haction with rfl | rfl | rfl | rfl | rfl | rfl | rfl | rfl
  all_goals trivial

theorem reading_allowed {s : Server} (h : answered readingActions = some s) :
    ServerRun Crates.epoch (Config.defaults ⟨"/srv"⟩) (smallSite.allows fun _ => restHeaders)
      initial readingActions s := by
  refine (answered_run h).mono_of_mem ?_
  intro u action haction _
  simp only [readingActions, List.mem_cons, List.not_mem_nil, or_false] at haction
  rcases haction with rfl | rfl | rfl | rfl | rfl | rfl | rfl | rfl | rfl | rfl
  all_goals trivial

/-- The read of the one file gets its bytes. -/
theorem read_allowed {u s : Server}
    (hfile : (u.reactor.reading[0]?.bind fun read => read.1.file.map fun file =>
      file.location) = some ["srv", "a"])
    (h : readActions.foldlM (step Crates.epoch (Config.defaults ⟨"/srv"⟩)) u = some s) :
    ServerRun Crates.epoch (Config.defaults ⟨"/srv"⟩) (smallSite.allows fun _ => restHeaders)
      u readActions s := by
  obtain ⟨v, hstep, hrest⟩ := Option.bind_eq_some_iff.mp h
  refine .cons ?_ hstep ?_
  · intro task onDone file htask hopen call position want
    rw [htask, Option.bind_some, hopen, Option.map_some] at hfile
    rw [Option.some.inj hfile]
    refine ⟨.data (List.prefix_refl _) id, fun error herror => ?_⟩
    cases herror
  · have hplain : ServerRun Crates.epoch (Config.defaults ⟨"/srv"⟩) (fun _ _ => True) v _ s :=
      Transition.Run.of_foldlM (fun _ _ => trivial) hrest
    refine hplain.mono_of_mem ?_
    intro w action haction _
    simp only [List.mem_cons, List.not_mem_nil, or_false] at haction
    rcases haction with rfl | rfl
    all_goals trivial

theorem fetches_of_run {s : Server} {replyHeaders : List (String × String)}
    (hrun : ServerRun Crates.epoch (Config.defaults ⟨"/srv"⟩) (smallSite.allows fun _ => headers)
      initial actions s)
    (hdrawn : opens actions < CompioEngine.idRange) (hreplied : replied s = some (replyHeaders, sent))
    (hreceived : received <+: sent) :
    ∃ endStream, Fetches Crates.epoch (Config.defaults ⟨"/srv"⟩) smallSite headers
      (.sendResponseHeaders replyHeaders endStream) received := by
  obtain ⟨stream, hstream, hreplied⟩ := Option.bind_eq_some_iff.mp hreplied
  split at hreplied
  · next replyHeaders' endStream hanswer =>
      cases hreplied
      exact ⟨endStream, fun _ => headers, actions, s, 0, stream, hdrawn, hrun, rfl, hstream,
        hanswer, hreceived⟩
  · cases hreplied

/-- A client that lost the connection behind the first byte holds this byte. -/
theorem small_holds :
    Holds Crates.epoch (Config.defaults ⟨"/srv"⟩) smallServed "\"3-0.0\"" [1] := by
  have hfacts : ((answered wholeActions).bind fun s => (replied s).map fun reply =>
      (reply.1.lookup ":status", reply.1.contains ("etag", "\"3-0.0\""), reply.2)) =
        some (some "200", true, [1, 2, 3]) := by
    decide
  obtain ⟨s, hs, hfacts⟩ := Option.bind_eq_some_iff.mp hfacts
  obtain ⟨⟨replyHeaders, sent⟩, hreplied, hfacts⟩ := Option.map_eq_some_iff.mp hfacts
  simp only [Prod.mk.injEq, List.contains_iff_mem] at hfacts
  obtain ⟨hstatus, hetag, rfl⟩ := hfacts
  have hfirst : ([1] : Bytes) <+: [1, 2, 3] := ⟨[2, 3], rfl⟩
  obtain ⟨endStream, hfetches⟩ := fetches_of_run (whole_allowed hs) (by decide) hreplied hfirst
  exact .whole rfl hfetches hstatus hetag

theorem rest_asks : AsksRest restHeaders "\"3-0.0\"" 1 where
  range := by decide
  ifRange := by decide

/-- What its next request leads to. -/
theorem rest_answered :
    ∃ s replyHeaders stream, ServerRun Crates.epoch (Config.defaults ⟨"/srv"⟩)
        (smallSite.allows fun _ => restHeaders) initial (readingActions ++ readActions) s ∧
      replied s = some (replyHeaders, [2, 3]) ∧ HasStatus replyHeaders 206 ∧
      s.streams[0]? = some stream ∧ stream.filter.phase = .done := by
  have hfacts : ((answered readingActions).bind fun u =>
      (readActions.foldlM (step Crates.epoch (Config.defaults ⟨"/srv"⟩)) u).bind fun s =>
        (replied s).bind fun reply => s.streams[0]?.map fun stream =>
          (u.reactor.reading[0]?.bind fun read => read.1.file.map fun file => file.location,
            reply.1.lookup ":status", reply.2, stream.filter.phase.stage)) =
      some (some ["srv", "a"], some "206", [2, 3], .ended) := by
    decide
  obtain ⟨u, hu, hfacts⟩ := Option.bind_eq_some_iff.mp hfacts
  obtain ⟨s, hs, hfacts⟩ := Option.bind_eq_some_iff.mp hfacts
  obtain ⟨⟨replyHeaders, sent⟩, hreplied, hfacts⟩ := Option.bind_eq_some_iff.mp hfacts
  obtain ⟨stream, hstream, hfacts⟩ := Option.map_eq_some_iff.mp hfacts
  simp only [Prod.mk.injEq] at hfacts
  obtain ⟨hfile, hstatus, rfl, hstage⟩ := hfacts
  exact ⟨s, replyHeaders, stream, (reading_allowed hu).append (read_allowed hfile hs), hreplied,
    hstatus, hstream, phase_done_of_stage hstage⟩

theorem resumed_download_is_one_version_resumed :
    ∃ file ∈ versions Crates.epoch (Config.defaults ⟨"/srv"⟩) smallServed,
      "\"3-0.0\"" = quoted (fileMeta file.stat).tag ∧ [1] ++ [2, 3] <+: file.content ∧
        (([1] ++ [2, 3] : Bytes).length = file.stat.size → [1] ++ [2, 3] = file.content) := by
  obtain ⟨s, replyHeaders, stream, hrun, hreplied, hstatus, -, -⟩ := rest_answered
  obtain ⟨endStream, hfetches⟩ := fetches_of_run hrun (by decide) hreplied (List.prefix_refl _)
  exact resumed_download_is_one_version Crates.epoch_readsValidators (by decide)
    smallServed_versioned (.resumed small_holds rfl rest_asks hfetches hstatus)

theorem not_modified_copy_is_current_revalidated :
    ∃ file, LeadsTo Crates.epoch (Config.defaults ⟨"/srv"⟩)
        (smallSite.store (Config.defaults ⟨"/srv"⟩)) revalidationHeaders file ∧
      [1] <+: file.content ∧ (([1] : Bytes).length = file.stat.size → [1] = file.content) := by
  have hfacts : ((answered revalidationActions).bind fun s => (replied s).map fun reply =>
      (reply.1.lookup ":status", reply.2)) = some (some "304", []) := by
    decide
  obtain ⟨s, hs, hfacts⟩ := Option.bind_eq_some_iff.mp hfacts
  obtain ⟨⟨replyHeaders, sent⟩, hreplied, hfacts⟩ := Option.map_eq_some_iff.mp hfacts
  obtain ⟨hstatus, rfl⟩ := Prod.mk.inj hfacts
  obtain ⟨endStream, hfetches⟩ := fetches_of_run (revalidation_allowed hs) (by decide) hreplied
    (List.prefix_refl _)
  exact not_modified_copy_is_current Crates.epoch_readsValidators (by decide)
    smallServed_versioned small_holds rfl (by decide) hfetches hstatus

theorem resumed_download_completes_rest :
    ∃ s stream replyHeaders endStream file, ServerRun Crates.epoch (Config.defaults ⟨"/srv"⟩)
        (smallSite.allows fun _ => restHeaders) initial (readingActions ++ readActions) s ∧
      s.streams[0]? = some stream ∧
      stream.filter.answer = some (.sendResponseHeaders replyHeaders endStream) ∧
      HasStatus replyHeaders 206 ∧
      LeadsTo Crates.epoch (Config.defaults ⟨"/srv"⟩)
        (smallSite.store (Config.defaults ⟨"/srv"⟩)) restHeaders file ∧
      [1] ++ sentBytes stream.filter.trace = file.content := by
  obtain ⟨s, replyHeaders, stream, hrun, hreplied, -, hstream, hdone⟩ := rest_answered
  obtain ⟨endStream, hfetches⟩ := fetches_of_run hrun (by decide) hreplied (List.prefix_refl _)
  obtain ⟨file, -, -, -, -, hleads, -, -, -⟩ := hfetches.planned (by decide)
  obtain ⟨hstat, -⟩ := hleads.small
  have hplain : PlainGet restHeaders :=
    ⟨by decide, by decide, by decide, by decide, by decide⟩
  have htag : "\"3-0.0\"" = quoted (fileMeta file.stat).tag := by
    rw [hstat]
    decide
  have hserved : (smallSite, restHeaders) ∈ smallServed := rfl
  obtain ⟨answerHeaders, ends, hanswer, hstatus, hall⟩ :=
    resumed_download_completes Crates.epoch_readsValidators (by decide) (by decide)
      smallServed_versioned small_holds hserved rest_asks hplain hleads htag
      (by rw [hstat]; decide) (by rw [hstat]; decide) (fun _ hfault => hfault) (by decide) hrun
      hstream hdone
  exact ⟨s, stream, answerHeaders, ends, file, hrun, hstream, hanswer, hstatus, hleads, hall⟩

end Witness

end EnvoyFiles.Server
