import EnvoyFiles.Filter.Walk

/-!
# Content negotiation and caches

Which of two requests for one path gets an encoded variant depends on what each accepts.
A response is marked with `vary` if it is encoded or if the path itself is served and the
request accepts an encoding, so a request that accepts none, and one that ends in a
directory, is answered without the mark.
-/

namespace EnvoyFiles.Filter

open Text

/-! ## Two requests -/

/-- The requests have the same headers apart from `accept-encoding`. -/
def SameButEncoding (headers headers' : List (Bytes × Bytes)) : Prop :=
  headers.filter (fun header => header.1 ≠ asBytes "accept-encoding") =
    headers'.filter fun header => header.1 ≠ asBytes "accept-encoding"

/-- The collected headers without `accept-encoding`. -/
def RawRequestHeaders.unencoded (raw : RawRequestHeaders) : RawRequestHeaders :=
  { raw with acceptEncoding := none }

section Collecting

variable {raw : RawRequestHeaders} {headers headers' : List (Bytes × Bytes)}

theorem collectOne_acceptEncoding (value : Bytes) :
    (raw.collectOne (asBytes "accept-encoding", value)).unencoded = raw.unencoded := by
  have hother : ∀ name ∈ [":method", ":path"], asBytes "accept-encoding" ≠ asBytes name := by
    decide
  simp only [RawRequestHeaders.collectOne]
  rw [if_neg (hother _ (by simp)), if_neg (hother _ (by simp)), if_pos trivial]
  rfl

theorem collectOne_unencoded {header : Bytes × Bytes}
    (h : header.1 ≠ asBytes "accept-encoding") :
    raw.unencoded.collectOne header = (raw.collectOne header).unencoded := by
  obtain ⟨key, value⟩ := header
  simp only [RawRequestHeaders.collectOne, RawRequestHeaders.unencoded]
  by_cases hmethod : key = asBytes ":method"
  · simp only [if_pos hmethod]
    obtain ⟨method, _, _, _, _, _, _, _, _⟩ := raw
    rcases method with _ | method
    · rfl
    · rfl
  · simp only [if_neg hmethod, if_neg h]
    repeat' split
    all_goals rfl

/-- Without `accept-encoding` the same is collected as from the other headers. -/
theorem foldl_unencoded (headers : List (Bytes × Bytes)) :
    (headers.foldl RawRequestHeaders.collectOne raw).unencoded =
      (headers.filter fun header => header.1 ≠ asBytes "accept-encoding").foldl
        RawRequestHeaders.collectOne raw.unencoded := by
  induction headers generalizing raw with
  | nil => rfl
  | cons header rest ih =>
      by_cases hkey : header.1 = asBytes "accept-encoding"
      · obtain ⟨key, value⟩ := header
        rw [List.filter_cons_of_neg (by simpa using hkey), List.foldl_cons, ih]
        change key = _ at hkey
        rw [hkey, collectOne_acceptEncoding]
      · rw [List.filter_cons_of_pos (by simpa using hkey), List.foldl_cons, List.foldl_cons, ih,
          collectOne_unencoded hkey]

theorem collect_sameButEncoding (h : SameButEncoding headers headers') :
    (RawRequestHeaders.collect headers).unencoded =
      (RawRequestHeaders.collect headers').unencoded := by
  rw [RawRequestHeaders.collect, RawRequestHeaders.collect, foldl_unencoded, foldl_unencoded, h]

end Collecting

/-! ## What is found -/

/-- An outcome that is not marked: it is not encoded, and it does not vary. -/
def Outcome.Plain : Outcome → Prop
  | .reply _ headers => headers = [] ∨ ∃ location, headers = [("location", location)]
  | .page _ => True
  | .file _ ctx => ctx.encoding = none ∧ ctx.addVary = false

/-- A query for what stands for a directory. -/
def Query.InIndex : Query → Prop
  | .opens (.resolvingIndex _ _) _ ctx => ctx.encoding = none ∧ ctx.addVary = false
  | .opens _ _ _ => False
  | .lists _ _ => True

/-- An answer that leads to an unmarked outcome. -/
def LeadsPlain : Outcome ⊕ Query → Prop :=
  Sum.elim Outcome.Plain Query.InIndex

section Directories

variable {crates : Crates} {cfg : Config} {store : Store} {data : RequestData} {phase : Phase}
  {query : Query} {outcome : Outcome} {next : Outcome ⊕ Query} {n : ℕ}

theorem nextIndex_plain {dirFs : PathBuf} {pending : List (PathBuf × String)}
    (h : (Reaction.nextIndex cfg dirFs pending).leads phase = some next) : LeadsPlain next := by
  rcases pending with _ | ⟨entry, rest⟩
  · simp only [Reaction.nextIndex, Reaction.fallback] at h
    split at h
    · cases h
      trivial
    · cases h
      exact Or.inl rfl
    · cases h
      exact Or.inl rfl
  · cases h
    exact ⟨rfl, rfl⟩

theorem atDirectory_plain (h : (Reaction.atDirectory crates cfg data).leads phase = some next) :
    LeadsPlain next := by
  rw [Reaction.atDirectory] at h
  split at h
  · cases h
    exact Or.inr ⟨_, rfl⟩
  · split at h
    · cases h
      exact Or.inl rfl
    · exact nextIndex_plain h

/-- Below a directory every outcome is unmarked. -/
theorem leads_plain (hindex : query.InIndex)
    (h : query.leads crates cfg store data = some next) : LeadsPlain next := by
  rcases query with ⟨phase, path, ctx⟩ | ⟨phase, path⟩
  · rcases phase with _ | pending | ⟨dirFs, pending⟩ | st | _
    · exact hindex.elim
    · exact hindex.elim
    · simp only [Query.leads] at h
      split at h
      · exact nextIndex_plain h
      · split at h
        · split at h
          · exact nextIndex_plain h
          · exact atDirectory_plain h
        · cases h
          exact hindex
    · exact hindex.elim
    · exact hindex.elim
  · simp only [Query.leads] at h
    split at h
    · cases h
      exact Or.inl rfl
    · cases h
      trivial

theorem walk_plain (hindex : query.InIndex)
    (h : walk crates cfg store data n query = some outcome) : outcome.Plain := by
  induction n generalizing query with
  | zero => cases h
  | succ n ih =>
      rw [walk] at h
      split at h
      · next found hleads =>
          cases h
          exact leads_plain hindex hleads
      · next next hleads =>
          apply ih ?_ h
          exact leads_plain hindex hleads
      · cases h

end Directories

/-- The candidate of an accepted encoding. -/
def variantCandidate (crates : Crates) (cfg : Config) (relative : String)
    (encoding : Encoding) : Candidate where
  fsPath := cfg.root.join (relative ++ encoding.fileSuffix)
  encoding := some encoding.contentEncoding
  contentType := configuredContentType crates cfg relative
  addVary := true

/-- An accepted encoding has a variant that is a regular file. -/
def HasVariant (cfg : Config) (store : Store) (relative : String) (encodings : List Encoding) :
    Prop :=
  ∃ encoding ∈ encodings, (store.regular (cfg.root.join (relative ++ encoding.fileSuffix))).isSome

section Candidates

variable {crates : Crates} {cfg : Config} {store : Store} {data : RequestData} {phase : Phase}
  {candidate next identity : Candidate} {rest pending : List Candidate} {path : PathBuf}
  {ctx : OpenCtx} {opened : StoredFile} {outcome : Outcome} {encodings : List Encoding}

theorem buildFileCandidates_eq {relative : String} {trailingSlash : Bool}
    {accept : Option String} :
    buildFileCandidates crates cfg relative trailingSlash accept =
      (acceptedEncodings crates cfg trailingSlash accept).map
          (variantCandidate crates cfg relative) ++
        [⟨cfg.root.join relative, none, configuredContentType crates cfg relative,
          !(acceptedEncodings crates cfg trailingSlash accept).isEmpty⟩] := by
  simp only [buildFileCandidates, List.isEmpty_map]
  rfl

theorem regular_eq_some (h : store.regular path = some opened) :
    store.opens path = .ok opened ∧ opened.stat.isDir = false := by
  rw [Store.regular, Option.filter_eq_some_iff] at h
  obtain ⟨hfound, hfile⟩ := h
  rw [Bool.not_eq_true'] at hfile
  cases hopens : store.opens path with
  | error error => cases (found_of_error hopens).symm.trans hfound
  | ok file =>
      cases (found_of_ok hopens).symm.trans hfound
      exact ⟨rfl, hfile⟩

/-- What does not open as a regular file is missing or a directory. -/
theorem regular_eq_none (h : store.regular path = none) :
    (∃ error, store.opens path = .error error) ∨
      ∃ file, store.opens path = .ok file ∧ file.stat.isDir = true := by
  cases hopens : store.opens path with
  | error error => exact Or.inl ⟨error, rfl⟩
  | ok file =>
      refine Or.inr ⟨file, rfl, ?_⟩
      by_contra hfile
      rw [Bool.not_eq_true] at hfile
      nomatch h.symm.trans (regular_of_file hopens hfile)

theorem leads_regular (h : store.regular path = some opened) :
    (Query.opens phase path ctx).leads crates cfg store data =
      some (.inl (.file opened ctx)) := by
  obtain ⟨hopens, hfile⟩ := regular_eq_some h
  exact leads_of_file hopens hfile

/-- A variant that is no regular file leads to the next candidate. -/
theorem leads_variant (hencoded : candidate.encoding.isSome)
    (h : store.regular candidate.fsPath = none) :
    (Query.first candidate (next :: pending)).leads crates cfg store data =
      some (.inr (.first next pending)) := by
  rcases regular_eq_none h with ⟨error, hopens⟩ | ⟨file, hopens, hdir⟩
  · exact leads_of_error hopens
  · rw [Query.first, leads_of_directory hopens hdir]
    exact if_pos hencoded

/-- The candidates of a request find an encoded variant, or what the path itself finds. -/
theorem finds_variants
    (hcandidates : encodings.map (variantCandidate crates cfg data.relative) ++ [identity] =
      candidate :: rest)
    (h : Finds crates cfg store data (.first candidate rest) outcome) :
    (HasVariant cfg store data.relative encodings ∧
        ∃ opened encoding contentType,
          outcome = .file opened ⟨some encoding, contentType, true⟩) ∨
      (¬HasVariant cfg store data.relative encodings ∧
        Finds crates cfg store data (.first identity []) outcome) := by
  induction encodings generalizing candidate rest with
  | nil =>
      cases hcandidates
      refine Or.inr ⟨?_, h⟩
      rintro ⟨encoding, hmem, -⟩
      nomatch hmem
  | cons encoding encodings ih =>
      obtain ⟨rfl, hrest⟩ := List.cons.inj hcandidates
      by_cases hregular : (store.regular
          (cfg.root.join (data.relative ++ encoding.fileSuffix))).isSome = true
      · obtain ⟨opened, hopened⟩ := Option.isSome_iff_exists.mp hregular
        refine Or.inl ⟨⟨encoding, List.mem_cons_self, hregular⟩, opened,
          encoding.contentEncoding, configuredContentType crates cfg data.relative, ?_⟩
        exact (finds_ends (leads_regular hopened)).mp h
      · rw [Option.not_isSome_iff_eq_none] at hregular
        have hnonempty : rest ≠ [] := by
          rw [← hrest]
          exact List.append_ne_nil_of_right_ne_nil _ (List.cons_ne_nil _ _)
        obtain ⟨next, pending, rfl⟩ := List.exists_cons_of_ne_nil hnonempty
        have hvariant : HasVariant cfg store data.relative (encoding :: encodings) ↔
            HasVariant cfg store data.relative encodings := by
          simp only [HasVariant, List.exists_mem_cons_iff, hregular, Option.isSome_none,
            Bool.false_eq_true, false_or]
        rw [hvariant]
        exact ih hrest ((finds_next (leads_variant rfl hregular)).mp h)

/-- The path itself is served as a regular file, or what is found is unmarked. -/
theorem finds_identity {contentType : String} {addVary : Bool}
    (h : Finds crates cfg store data (.first ⟨path, none, contentType, addVary⟩ []) outcome) :
    (∃ opened, store.regular path = some opened ∧
        outcome = .file opened ⟨none, contentType, addVary⟩) ∨
      (store.regular path = none ∧ outcome.Plain) := by
  by_cases hregular : store.regular path = none
  · refine Or.inr ⟨hregular, ?_⟩
    have hleads : ∀ next, (Query.first ⟨path, none, contentType, addVary⟩ []).leads crates cfg
        store data = some next → LeadsPlain next := by
      intro next hnext
      rcases regular_eq_none hregular with ⟨error, hopens⟩ | ⟨file, hopens, hdir⟩
      · rw [Query.first, leads_of_error hopens] at hnext
        cases hnext
        exact Or.inl rfl
      · rw [Query.first, leads_of_directory hopens hdir] at hnext
        exact atDirectory_plain hnext
    obtain ⟨n, hwalk⟩ := h
    rcases n with _ | n
    · cases hwalk
    · rw [walk] at hwalk
      split at hwalk
      · next found hfound =>
          cases hwalk
          exact hleads _ hfound
      · next query hquery => exact walk_plain (hleads _ hquery) hwalk
      · cases hwalk
  · obtain ⟨opened, hopened⟩ := Option.ne_none_iff_exists'.mp hregular
    exact Or.inl ⟨opened, hopened, (finds_ends (leads_regular hopened)).mp h⟩

end Candidates

/-! ## Responses -/

/-- The headers of a response, its status among them. -/
def Call.headers : Call → List (String × String)
  | .sendResponse status headers _ => (":status", toString status) :: headers
  | .sendResponseHeaders headers _ => headers
  | _ => []

/-- The response tells caches that it depends on `accept-encoding`. -/
def Call.Varies (call : Call) : Prop :=
  "Accept-Encoding" ∈ headerValues "vary" call.headers

section Responses

variable {crates : Crates} {cfg : Config} {store : Store} {data : RequestData}
  {headers headers' : List (Bytes × Bytes)} {outcome : Outcome} {call : Call} {sent : Bytes}

/-- The negotiation headers of a file that is served with a 200. -/
theorem file_headers {opened : StoredFile} {ctx : OpenCtx}
    (h : (Outcome.file opened ctx).response crates cfg data = some ⟨call, sent⟩)
    (hstatus : HasStatus call.headers 200) :
    headerValues "content-encoding" call.headers = ctx.encoding.toList ∧
      (call.Varies ↔ ctx.encoding.isSome ∨ ctx.addVary = true) := by
  obtain ⟨plan, hplan, hcall⟩ := Option.map_eq_some_iff.mp h
  cases hcall
  have hfull := planFull_of_ok hplan (hasStatus_responseHeaders.mp hstatus)
  constructor
  · exact planFull_contentEncoding hfull
  · obtain ⟨-, -, -, -, hvary, -⟩ := planFull_values hfull
    change "Accept-Encoding" ∈ headerValues "vary" plan.headers ↔ _
    rw [hvary, ← Bool.or_eq_true]
    change _ ∈ (if (ctx.encoding.isSome || ctx.addVary) = true then _ else _) ↔ _
    split
    · next hmarked => simp [hmarked]
    · next hunmarked => simp [hunmarked]

/-- An unmarked outcome is answered without negotiation headers. -/
theorem plain_headers (hplain : outcome.Plain)
    (h : outcome.response crates cfg data = some ⟨call, sent⟩)
    (hstatus : HasStatus call.headers 200) :
    headerValues "content-encoding" call.headers = [] ∧ ¬call.Varies := by
  rcases outcome with ⟨status, replyHeaders⟩ | entries | ⟨opened, ctx⟩
  · cases h
    rcases hplain with rfl | ⟨location, rfl⟩
    · exact ⟨rfl, List.not_mem_nil⟩
    · exact ⟨rfl, List.not_mem_nil⟩
  · obtain ⟨html, -, hcall⟩ := Option.map_eq_some_iff.mp h
    cases hcall
    exact ⟨rfl, List.not_mem_nil⟩
  · obtain ⟨hencoding, hvaries⟩ := file_headers h hstatus
    rw [hplain.1] at hencoding hvaries
    rw [hplain.2] at hvaries
    refine ⟨hencoding, ?_⟩
    rw [hvaries]
    simp

/-- The negotiation headers of a 200: it is encoded if an accepted encoding has a variant,
and else it varies if the path itself is served and some encoding is accepted. -/
theorem replies_negotiated (h : Replies crates cfg store headers ⟨call, sent⟩)
    (hstatus : HasStatus call.headers 200) :
    ∃ data encodings, acceptedRequest crates cfg headers = some (data, encodings) ∧
      ((HasVariant cfg store data.relative encodings ∧
          headerValues "content-encoding" call.headers ≠ [] ∧ call.Varies) ∨
        (¬HasVariant cfg store data.relative encodings ∧
          headerValues "content-encoding" call.headers = [] ∧
          (call.Varies ↔
            encodings ≠ [] ∧ store.regular (requestDir cfg data) ≠ none))) := by
  cases h with
  | refused hrefusal hanswer =>
      obtain ⟨status, replyHeaders, rfl, hrefused⟩ := refusal_reply hrefusal
      cases hanswer
      rw [toString_injective (Option.some.inj hstatus)] at hrefused
      exact absurd hrefused (by decide)
  | @found data query outcome _ hstarts hfinds hresponse =>
      obtain ⟨-, candidate, rest, haccepts, rfl⟩ := hstarts
      obtain ⟨rawPath, relative, trailingSlash, hmounted, hresolve, hdata, hcandidates⟩ :=
        haccepts
      have hrelative : data.relative = relative := by rw [hdata, requestData]
      have hrequest : acceptedRequest crates cfg headers = some (data,
          acceptedEncodings crates cfg trailingSlash
            (RawRequestHeaders.collect headers).acceptEncoding) := by
        simp only [acceptedRequest, hmounted, Option.bind_some, hresolve, hdata]
      refine ⟨data, _, hrequest, ?_⟩
      rw [buildFileCandidates_eq, ← hrelative] at hcandidates
      rcases finds_variants hcandidates.symm hfinds with
        ⟨hvariant, opened, encoding, contentType, rfl⟩ | ⟨hvariant, hidentity⟩
      · obtain ⟨hencoding, hvaries⟩ := file_headers hresponse hstatus
        rw [hencoding]
        exact Or.inl ⟨hvariant, List.cons_ne_nil _ _, hvaries.mpr (Or.inl rfl)⟩
      · refine Or.inr ⟨hvariant, ?_⟩
        rcases finds_identity hidentity with ⟨opened, hregular, rfl⟩ | ⟨hnone, hplain⟩
        · obtain ⟨hencoding, hvaries⟩ := file_headers hresponse hstatus
          refine ⟨hencoding, ?_⟩
          rw [hvaries, requestDir, hregular]
          simp
        · obtain ⟨hencoding, hvaries⟩ := plain_headers hplain hresponse hstatus
          refine ⟨hencoding, ?_⟩
          rw [requestDir, hnone]
          simp [hvaries]

/-- Requests that differ in `accept-encoding` only ask for the same path. -/
theorem acceptedRequest_data {data' : RequestData} {encodings encodings' : List Encoding}
    (hsame : SameButEncoding headers headers')
    (h : acceptedRequest crates cfg headers = some (data, encodings))
    (h' : acceptedRequest crates cfg headers' = some (data', encodings')) : data' = data := by
  have hcollect := collect_sameButEncoding hsame
  obtain ⟨rawPath, relative, trailingSlash, hmounted, hresolve, rfl, -⟩ :=
    acceptedRequest_resolved h
  obtain ⟨rawPath', relative', trailingSlash', hmounted', hresolve', rfl, -⟩ :=
    acceptedRequest_resolved h'
  have hpath : (RawRequestHeaders.collect headers).unencoded.path =
      (RawRequestHeaders.collect headers').unencoded.path := by
    rw [hcollect]
  change (RawRequestHeaders.collect headers).path = (RawRequestHeaders.collect headers').path
    at hpath
  rw [← hpath, hmounted] at hmounted'
  cases hmounted'
  rw [hresolve] at hresolve'
  cases hresolve'
  change requestData (RawRequestHeaders.collect headers').unencoded relative trailingSlash =
    requestData (RawRequestHeaders.collect headers).unencoded relative trailingSlash
  rw [hcollect]

end Responses

/-! ## Visible negotiation -/

/-- The first request gets a variant, and the response to the second does not tell: it
accepts no encoding that has one, and either none at all or the path itself is not a
regular file. -/
def HidesVariant (crates : Crates) (cfg : Config) (store : Store)
    (headers headers' : List (Bytes × Bytes)) : Prop :=
  ∃ data encodings encodings', acceptedRequest crates cfg headers = some (data, encodings) ∧
    acceptedRequest crates cfg headers' = some (data, encodings') ∧
      HasVariant cfg store data.relative encodings ∧
      ¬HasVariant cfg store data.relative encodings' ∧
      (encodings' = [] ∨ store.regular (requestDir cfg data) = none)

/-- Where two responses are encoded differently, both say that they depend on it. -/
def NegotiationVisible (call call' : Call) : Prop :=
  headerValues "content-encoding" call.headers ≠ headerValues "content-encoding" call'.headers →
    call.Varies ∧ call'.Varies

section Visible

variable {crates : Crates} {cfg : Config} {store : Store} {headers headers' : List (Bytes × Bytes)}
  {data : RequestData} {encodings encodings' : List Encoding} {call call' : Call}
  {sent sent' : Bytes}

theorem HidesVariant.of_requests (h : HidesVariant crates cfg store headers headers')
    (hrequest : acceptedRequest crates cfg headers = some (data, encodings))
    (hrequest' : acceptedRequest crates cfg headers' = some (data, encodings')) :
    HasVariant cfg store data.relative encodings ∧
      ¬HasVariant cfg store data.relative encodings' ∧
      (encodings' = [] ∨ store.regular (requestDir cfg data) = none) := by
  obtain ⟨_, _, _, hfirst, hsecond, hhidden⟩ := h
  cases hfirst.symm.trans hrequest
  cases hsecond.symm.trans hrequest'
  exact hhidden

/-- The response to a request without a variant is marked exactly if it hides none. -/
theorem varies_iff_not_hides
    (hrequest : acceptedRequest crates cfg headers = some (data, encodings))
    (hrequest' : acceptedRequest crates cfg headers' = some (data, encodings'))
    (hvariant : HasVariant cfg store data.relative encodings)
    (hvariant' : ¬HasVariant cfg store data.relative encodings')
    (hvaries : call'.Varies ↔ encodings' ≠ [] ∧ store.regular (requestDir cfg data) ≠ none) :
    call'.Varies ↔ ¬HidesVariant crates cfg store headers headers' := by
  rw [hvaries]
  constructor
  · rintro ⟨haccepts, hregular⟩ hhides
    obtain ⟨-, -, hempty | hnone⟩ := hhides.of_requests hrequest hrequest'
    · exact haccepts hempty
    · exact hregular hnone
  · intro hshows
    constructor
    · intro hempty
      exact hshows ⟨_, _, _, hrequest, hrequest', hvariant, hvariant', Or.inl hempty⟩
    · intro hnone
      exact hshows ⟨_, _, _, hrequest, hrequest', hvariant, hvariant', Or.inr hnone⟩

/-- Negotiation is visible in two responses unless one of them hides the variant of the
other. -/
theorem visible_iff (hsame : SameButEncoding headers headers')
    (h : Replies crates cfg store headers ⟨call, sent⟩) (hstatus : HasStatus call.headers 200)
    (h' : Replies crates cfg store headers' ⟨call', sent'⟩)
    (hstatus' : HasStatus call'.headers 200) :
    NegotiationVisible call call' ↔
      ¬HidesVariant crates cfg store headers headers' ∧
        ¬HidesVariant crates cfg store headers' headers := by
  obtain ⟨data, encodings, hrequest, hcases⟩ := replies_negotiated h hstatus
  obtain ⟨data', encodings', hrequest', hcases'⟩ := replies_negotiated h' hstatus'
  obtain rfl := acceptedRequest_data hsame hrequest hrequest'
  rw [NegotiationVisible]
  rcases hcases with ⟨hvariant, hencoded, hvaries⟩ | ⟨hvariant, hidentity, hvaries⟩
  · have hshows' : ¬HidesVariant crates cfg store headers' headers := fun hhides =>
      (hhides.of_requests hrequest' hrequest).2.1 hvariant
    rcases hcases' with ⟨hvariant', -, hvaries'⟩ | ⟨hvariant', hidentity', hvaries'⟩
    · have hshows : ¬HidesVariant crates cfg store headers headers' := fun hhides =>
        (hhides.of_requests hrequest hrequest').2.1 hvariant'
      exact ⟨fun _ => ⟨hshows, hshows'⟩, fun _ _ => ⟨hvaries, hvaries'⟩⟩
    · have hiff := varies_iff_not_hides hrequest hrequest' hvariant hvariant' hvaries'
      rw [hidentity']
      constructor
      · intro hvisible
        exact ⟨hiff.mp (hvisible hencoded).2, hshows'⟩
      · rintro ⟨hshows, -⟩ -
        exact ⟨hvaries, hiff.mpr hshows⟩
  · have hshows : ¬HidesVariant crates cfg store headers headers' := fun hhides =>
      hvariant (hhides.of_requests hrequest hrequest').1
    rcases hcases' with ⟨hvariant', hencoded', hvaries'⟩ | ⟨hvariant', hidentity', -⟩
    · have hiff := varies_iff_not_hides hrequest' hrequest hvariant' hvariant hvaries
      rw [hidentity]
      constructor
      · intro hvisible
        exact ⟨hshows, hiff.mp (hvisible hencoded'.symm).1⟩
      · rintro ⟨-, hshows'⟩ -
        exact ⟨hiff.mpr hshows', hvaries'⟩
    · have hshows' : ¬HidesVariant crates cfg store headers' headers := fun hhides =>
        hvariant' (hhides.of_requests hrequest' hrequest).1
      rw [hidentity, hidentity']
      exact ⟨fun _ => ⟨hshows, hshows'⟩, fun _ hdiffer => absurd rfl hdiffer⟩

end Visible

/-- Negotiation is visible to caches in any two responses to a path, for `GET` and `HEAD`
alike, exactly if neither request hides the variant of the other. -/
theorem negotiation_visible_iff {crates : Crates} {cfg : Config} {store : Store}
    {contents contents' : FileHandle → Bytes} {headers headers' : List (Bytes × Bytes)}
    {actions actions' : List Action} {s s' : State} {call call' : Call}
    (hchunk : 1 ≤ cfg.chunkSize) (hsame : SameButEncoding headers headers')
    (hrun : StreamRun crates cfg (store.serves contents headers) State.initial actions s)
    (hanswer : s.answer = some call) (hstatus : HasStatus call.headers 200)
    (hrun' : StreamRun crates cfg (store.serves contents' headers') State.initial actions' s')
    (hanswer' : s'.answer = some call') (hstatus' : HasStatus call'.headers 200) :
    NegotiationVisible call call' ↔
      ¬HidesVariant crates cfg store headers headers' ∧
        ¬HidesVariant crates cfg store headers' headers := by
  obtain ⟨sent, hreplies, -⟩ := run_replies hchunk hrun hanswer
  obtain ⟨sent', hreplies', -⟩ := run_replies hchunk hrun' hanswer'
  exact visible_iff hsame hreplies hstatus hreplies' hstatus'

/-! ### Witness and counterexample -/

theorem gzip_size : (⟨2, 0, 0, false⟩ : FileStat).isDir = false →
    (⟨2, 0, 0, false⟩ : FileStat).size = ([31, 139] : Bytes).length := by
  intro _
  rfl

/-- `/srv` with the file `a` and its variant `a.gz`. -/
def variantStore : Store where
  opens path :=
    if path = ⟨"/srv/a"⟩ then .ok ⟨⟨3, 0, 0, false⟩, [97, 98, 99], letters_size⟩
    else if path = ⟨"/srv/a.gz"⟩ then .ok ⟨⟨2, 0, 0, false⟩, [31, 139], gzip_size⟩
    else .error ⟨.notFound, none⟩
  lists _ := .ok []

def gzipHeaders : List (Bytes × Bytes) :=
  getHeaders "/a" ++ [(asBytes "accept-encoding", asBytes "gzip")]

/-- The status, content encoding and `vary` of the response. -/
def negotiated (headers : List (Bytes × Bytes)) (file : StoredFile) :
    Option (Option String × List String × List String) :=
  (replay Crates.plain (Config.defaults ⟨"/srv"⟩) State.initial
    (openedActions headers ⟨0⟩ file)).bind fun s => s.answer.map fun call =>
      (call.headers.lookup ":status", headerValues "content-encoding" call.headers,
        headerValues "vary" call.headers)

theorem negotiated_run {headers : List (Bytes × Bytes)} {file : StoredFile}
    {request : OpenRequest} {ctx : OpenCtx} {encodings vary : List String}
    (h : negotiated headers file = some (some "200", encodings, vary))
    (hpending : (step Crates.plain (Config.defaults ⟨"/srv"⟩) State.initial
      (.requestHeaders headers [])).map (·.pending) = some [.openStat request ctx])
    (hopens : variantStore.opens request.path = .ok file) :
    ∃ s call, StreamRun Crates.plain (Config.defaults ⟨"/srv"⟩)
        (variantStore.serves (fun _ => file.content) headers) State.initial
        (openedActions headers ⟨0⟩ file) s ∧
      s.answer = some call ∧ HasStatus call.headers 200 ∧
      headerValues "content-encoding" call.headers = encodings ∧
      headerValues "vary" call.headers = vary := by
  obtain ⟨s, hs, h⟩ := Option.bind_eq_some_iff.mp h
  obtain ⟨call, hanswer, h⟩ := Option.map_eq_some_iff.mp h
  obtain ⟨hstatus, hothers⟩ := Prod.mk.inj h
  obtain ⟨hencoding, hvary⟩ := Prod.mk.inj hothers
  exact ⟨s, call, openedActions_run hs hpending hopens rfl, hanswer, hstatus, hencoding, hvary⟩

/-- The variant is served to the client that accepts it, and marked. -/
theorem gzip_run : ∃ s call, StreamRun Crates.plain (Config.defaults ⟨"/srv"⟩)
      (variantStore.serves (fun _ => [31, 139]) gzipHeaders) State.initial
      (openedActions gzipHeaders ⟨0⟩ ⟨⟨2, 0, 0, false⟩, [31, 139], fun _ => rfl⟩) s ∧
    s.answer = some call ∧ HasStatus call.headers 200 ∧
    headerValues "content-encoding" call.headers = ["gzip"] ∧
    headerValues "vary" call.headers = ["Accept-Encoding"] := by
  apply @negotiated_run gzipHeaders ⟨⟨2, 0, 0, false⟩, [31, 139], fun _ => rfl⟩
    ⟨⟨"/srv/a.gz"⟩, some ⟨"/srv"⟩, false, 65536⟩ ⟨some "gzip", "application/octet-stream", true⟩
  · decide +kernel
  · decide +kernel
  · rfl

/-- The file is served to the client that sends no `accept-encoding`, and not marked. -/
theorem identity_run : ∃ s call, StreamRun Crates.plain (Config.defaults ⟨"/srv"⟩)
      (variantStore.serves (fun _ => [97, 98, 99]) (getHeaders "/a")) State.initial
      (openedActions (getHeaders "/a") ⟨0⟩ ⟨⟨3, 0, 0, false⟩, [97, 98, 99], fun _ => rfl⟩) s ∧
    s.answer = some call ∧ HasStatus call.headers 200 ∧
    headerValues "content-encoding" call.headers = [] ∧
    headerValues "vary" call.headers = [] := by
  apply @negotiated_run (getHeaders "/a") ⟨⟨3, 0, 0, false⟩, [97, 98, 99], fun _ => rfl⟩
    ⟨⟨"/srv/a"⟩, some ⟨"/srv"⟩, false, 65536⟩ ⟨none, "application/octet-stream", false⟩
  · decide
  · decide
  · rfl

theorem sameButEncoding_gzip : SameButEncoding gzipHeaders (getHeaders "/a") := by
  rw [SameButEncoding]
  decide

theorem negotiation_visible_iff_gzip :
    ∃ call call', headerValues "content-encoding" call.headers = ["gzip"] ∧
      headerValues "content-encoding" call'.headers = [] ∧
      (NegotiationVisible call call' ↔
        ¬HidesVariant Crates.plain (Config.defaults ⟨"/srv"⟩) variantStore gzipHeaders
            (getHeaders "/a") ∧
          ¬HidesVariant Crates.plain (Config.defaults ⟨"/srv"⟩) variantStore (getHeaders "/a")
            gzipHeaders) := by
  obtain ⟨s, call, hrun, hanswer, hstatus, hencoding, -⟩ := gzip_run
  obtain ⟨s', call', hrun', hanswer', hstatus', hencoding', -⟩ := identity_run
  exact ⟨call, call', hencoding, hencoding', negotiation_visible_iff (by decide)
    sameButEncoding_gzip hrun hanswer hstatus hrun' hanswer' hstatus'⟩

/-- A cache is not told that the plain file has a variant. -/
theorem negotiation_hidden :
    ¬∀ headers headers' contents contents' actions actions' s s' call call',
      SameButEncoding headers headers' →
      (RawRequestHeaders.collect headers).method = some (asBytes "GET") →
      StreamRun Crates.plain (Config.defaults ⟨"/srv"⟩) (variantStore.serves contents headers)
        State.initial actions s →
      s.answer = some call → HasStatus call.headers 200 →
      StreamRun Crates.plain (Config.defaults ⟨"/srv"⟩) (variantStore.serves contents' headers')
        State.initial actions' s' →
      s'.answer = some call' → HasStatus call'.headers 200 → NegotiationVisible call call' := by
  intro hvisible
  obtain ⟨s, call, hrun, hanswer, hstatus, hencoding, -⟩ := gzip_run
  obtain ⟨s', call', hrun', hanswer', hstatus', hencoding', hvary⟩ := identity_run
  have hget : (RawRequestHeaders.collect gzipHeaders).method = some (asBytes "GET") := by
    decide
  have hboth := hvisible _ _ _ _ _ _ _ _ _ _ sameButEncoding_gzip hget hrun hanswer hstatus
    hrun' hanswer' hstatus'
  have hdiffer : headerValues "content-encoding" call.headers ≠
      headerValues "content-encoding" call'.headers := by
    rw [hencoding, hencoding']
    decide
  have hvaries := (hboth hdiffer).2
  rw [Call.Varies, hvary] at hvaries
  nomatch hvaries

end EnvoyFiles.Filter
