import EnvoyFiles.Filter.Negotiation
import EnvoyFiles.Filter.OpenedPaths

/-!
# Where redirects lead

The location of a redirect is put together from the mount prefix, the decoded path of a
directory and the slashes around it.  It stays on the origin of the request unless two of
the slashes come to stand at its start: for the root itself where nothing is mounted, and
for every directory below the prefix `/`.
-/

namespace EnvoyFiles.Filter

open Text Path

/-! ## Locations -/

/-- A reference to a path of the same origin: it starts with exactly one slash, and it has
no backslash and no control character. -/
structure SameOrigin (location : String) : Prop where
  slash : location.toList.head? = some '/'
  notNetwork : location.toList[1]? ≠ some '/'
  characters : ∀ c ∈ location.toList, c ≠ '\\' ∧ 0x20 ≤ c.toNat

/-- The location of the directory starts with two slashes. -/
def DoublesSlash (cfg : Config) (relative : String) : Prop :=
  cfg.stripPrefix = none ∧ relative = "" ∨ cfg.stripPrefix = some "/"

section Locations

variable {cfg : Config} {policy : PathPolicy} {front back relative : String}

/-- What follows a reference leads to another origin only if two slashes meet at the
start. -/
theorem sameOrigin_append_iff (hfront : SameOrigin front)
    (hback : ∀ c ∈ back.toList, c ≠ '\\' ∧ 0x20 ≤ c.toNat) :
    SameOrigin (front ++ back) ↔ ¬(front = "/" ∧ back.toList.head? = some '/') := by
  obtain ⟨rest, hrest⟩ : ∃ rest, front.toList = '/' :: rest := by
    obtain ⟨hhead, -, -⟩ := hfront
    cases hchars : front.toList with
    | nil =>
        rw [hchars] at hhead
        nomatch hhead
    | cons c rest =>
        rw [hchars] at hhead
        cases hhead
        exact ⟨rest, rfl⟩
  have hslash : front = "/" ↔ rest = [] := by
    rw [← String.toList_inj, hrest, toList_slash, List.cons_inj_right]
  have hsecond : (front ++ back).toList[1]? = (rest ++ back.toList).head? := by
    rw [String.toList_append, hrest, List.head?_eq_getElem?]
    rfl
  rw [hslash]
  constructor
  · rintro h ⟨rfl, hhead⟩
    apply h.notNetwork
    rw [hsecond, List.nil_append, hhead]
  · intro h
    refine ⟨?_, ?_, ?_⟩
    · rw [String.toList_append, hrest]
      rfl
    · rw [hsecond]
      by_cases hempty : rest = []
      · rw [hempty, List.nil_append]
        exact fun hhead => h ⟨hempty, hhead⟩
      · rw [List.head?_append_of_ne_nil _ hempty]
        have hnotNetwork := hfront.notNetwork
        rw [hrest, List.getElem?_cons_succ, ← List.head?_eq_getElem?] at hnotNetwork
        exact hnotNetwork
    · intro c hc
      rw [String.toList_append, List.mem_append] at hc
      rcases hc with hc | hc
      · exact hfront.characters c hc
      · exact hback c hc

theorem sameOrigin_slash : SameOrigin "/" :=
  ⟨by decide, by decide, forall_chars (by decide)⟩

theorem slashed_characters (hrelative : SafeRelative policy relative) :
    ∀ c ∈ (relative ++ "/").toList, c ≠ '\\' ∧ 0x20 ≤ c.toNat := by
  intro c hc
  rw [String.toList_append, toList_slash, List.mem_append, List.mem_singleton] at hc
  rcases hc with hc | rfl
  · exact ⟨(hrelative.characters c hc).1, (hrelative.characters c hc).2.2⟩
  · decide

theorem slashed_head (hrelative : SafeRelative policy relative) :
    (relative ++ "/").toList.head? = some '/' ↔ relative = "" := by
  constructor
  · intro hhead
    by_contra hne
    rw [String.toList_append,
      List.head?_append_of_ne_nil _ (fun hnil => hne (String.toList_eq_nil_iff.mp hnil))] at hhead
    exact hrelative.notAbsolute hhead
  · rintro rfl
    decide

/-- Below a prefix that stays on the origin, so does the location of a directory, unless
it starts with two slashes. -/
theorem sameOrigin_location_iff (hstrip : ∀ pre, cfg.stripPrefix = some pre → SameOrigin pre)
    (hrelative : SafeRelative policy relative) :
    SameOrigin (urlFor cfg relative ++ "/") ↔ ¬DoublesSlash cfg relative := by
  have hslashed := slashed_characters hrelative
  have hreemitted : reemitted relative = "/" ++ (relative ++ "/") := String.append_assoc
  rw [location_eq, DoublesSlash]
  cases hmount : cfg.stripPrefix with
  | none =>
      rw [Option.getD_none, String.empty_append, hreemitted,
        sameOrigin_append_iff sameOrigin_slash hslashed, slashed_head hrelative]
      simp
  | some pre =>
      have hcharacters : ∀ c ∈ (reemitted relative).toList, c ≠ '\\' ∧ 0x20 ≤ c.toNat := by
        intro c hc
        rw [hreemitted, String.toList_append, toList_slash, List.mem_append,
          List.mem_singleton] at hc
        rcases hc with rfl | hc
        · decide
        · exact hslashed c hc
      rw [Option.getD_some, sameOrigin_append_iff (hstrip pre hmount) hcharacters]
      simp [reemitted_head]

end Locations

/-! ## Answers with a location -/

/-- The locations that a call sends. -/
def Call.locations (call : Call) : List String :=
  headerValues "location" call.headers

/-- A redirect to a directory of one of the requests. -/
def RedirectsTo (crates : Crates) (cfg : Config) (requests : List (Bytes × Bytes) → Prop)
    (location : String) : Prop :=
  ∃ headers data candidates, requests headers ∧ refusal cfg headers = none ∧
    Accepts crates cfg headers data candidates ∧ data.trailingSlash = false ∧
    cfg.redirectTrailingSlash = true ∧ location = urlFor cfg data.relative ++ "/"

section Answers

variable {crates : Crates} {cfg : Config} {env : Env} {data : RequestData} {s : State}
  {call : Call} {location : String}

theorem locations_reply (status : ℕ) (headers : List (String × String)) (body : Option Bytes) :
    (Call.sendResponse status headers body).locations = headerValues "location" headers := by
  simp only [Call.locations, headerValues]
  rw [Call.headers, List.filter_cons_of_neg (by simp)]

/-- The response of a file has no location. -/
theorem locations_plan {facts : RequestFacts} {fileMeta : FileMeta} {plan : ResponsePlan}
    {endStream : Bool} (h : planResponse crates facts fileMeta = some plan) :
    (Call.sendResponseHeaders (responseHeaders plan) endStream).locations = [] := by
  apply headerValues_eq_nil.mpr
  intro text hmem
  rcases List.mem_cons.mp hmem with hstatus | hplanned
  · exact absurd (congrArg Prod.fst hstatus)
      (by decide : "location" ≠ ":status")
  · exact absurd (planResponse_names h _ hplanned) (by decide : "location" ∉ planHeaderNames)

/-- Only the redirect of a directory has a location. -/
theorem react_locations {phase : Phase} {event : IoEvent} {reaction : Reaction}
    (hreact : react crates cfg data phase event = some reaction)
    (hanswer : reaction.answer cfg = some call) (hlocation : location ∈ call.locations) :
    data.trailingSlash = false ∧ cfg.redirectTrailingSlash = true ∧
      location = urlFor cfg data.relative ++ "/" := by
  cases react_cases hreact with
  | redirect hslash hredirect =>
      cases hanswer
      rw [locations_reply] at hlocation
      exact ⟨hslash, hredirect, List.mem_singleton.mp hlocation⟩
  | missing =>
      cases hanswer
      rw [locations_reply] at hlocation
      nomatch hlocation
  | denied _ =>
      cases hanswer
      rw [locations_reply] at hlocation
      nomatch hlocation
  | failed =>
      cases hanswer
      rw [locations_reply] at hlocation
      nomatch hlocation
  | page _ =>
      cases hanswer
      rw [locations_reply] at hlocation
      nomatch hlocation
  | serve _ hplan =>
      cases hanswer
      rw [locations_plan hplan] at hlocation
      nomatch hlocation
  | _ => nomatch hanswer

theorem refusal_locations {headers : List (Bytes × Bytes)} {reaction : Reaction}
    (hrefusal : refusal cfg headers = some reaction) (hanswer : reaction.answer cfg = some call) :
    call.locations = [] := by
  simp only [refusal] at hrefusal
  split at hrefusal
  · cases hrefusal
    cases hanswer
    rw [locations_reply]
    rfl
  · split at hrefusal
    · cases hrefusal
      cases hanswer
      rw [locations_reply]
      rfl
    · split at hrefusal
      · cases hrefusal
        cases hanswer
        rw [locations_reply]
        rfl
      · cases hrefusal

/-- Every answer with a location redirects to a directory of a request. -/
theorem locations_lookupRule (crates : Crates) (cfg : Config) (env : Env) :
    LookupRule crates cfg env
      (fun data _ _ => ∃ headers candidates, env.requests headers ∧
        refusal cfg headers = none ∧ Accepts crates cfg headers data candidates)
      (fun reaction => ∀ call, reaction.answer cfg = some call →
        ∀ location ∈ call.locations, RedirectsTo crates cfg env.requests location) where
  refuse := by
    intro headers reaction _ hrefusal call hanswer location hlocation
    rw [refusal_locations hrefusal hanswer] at hlocation
    nomatch hlocation
  start := by
    intro headers data candidate rest hrequests hrefusal haccepts
    exact ⟨headers, candidate :: rest, hrequests, hrefusal, haccepts⟩
  next := by
    intro _ _ _ _ _ _ _ _ hplace _ _ _
    exact hplace
  answer := by
    rintro data phase op event reaction call' - hplace - hreact - call hanswer location hlocation
    obtain ⟨headers, candidates, hrequests, hrefusal, haccepts⟩ := hplace
    obtain ⟨hslash, hredirect, hurl⟩ := react_locations hreact hanswer hlocation
    exact ⟨headers, data, candidates, hrequests, hrefusal, haccepts, hslash, hredirect, hurl⟩

/-- A response is started by one call. -/
theorem answer_of_mem {actions : List Action}
    (hrun : StreamRun crates cfg env State.initial actions s) (hmem : call ∈ s.trace)
    (hstarts : call.startsResponse = true) : s.answer = some call := by
  have honce := (responseProtocol_of_stageRun (run_obeys hrun)).responseOnce
  obtain ⟨before, after, htrace⟩ := List.append_of_mem hmem
  rw [htrace, List.countP_append, List.countP_cons_of_pos hstarts] at honce
  have hnone : before.countP Call.startsResponse = 0 := by omega
  rw [State.answer, htrace, List.find?_append,
    List.find?_eq_none.mpr (List.countP_eq_zero.mp hnone), Option.none_or,
    List.find?_cons_of_pos hstarts]

theorem startsResponse_of_location (hlocation : location ∈ call.locations) :
    call.startsResponse = true := by
  cases call with
  | sendResponse status headers body => rfl
  | sendResponseHeaders headers endStream => rfl
  | _ => nomatch hlocation

/-- Every location that a run sends redirects to a directory of a request. -/
theorem run_locations {actions : List Action}
    (hrun : StreamRun crates cfg env State.initial actions s) (hmem : call ∈ s.trace)
    (hlocation : location ∈ call.locations) : RedirectsTo crates cfg env.requests location := by
  have hanswer := answer_of_mem hrun hmem (startsResponse_of_location hlocation)
  obtain ⟨w, reaction, -, hgood, hreaction, -⟩ :=
    (lookup_rule (locations_lookupRule crates cfg env) hrun).answer_good hanswer
  exact hgood call hreaction location hlocation

end Answers

/-! ## Requests of directories -/

/-- The request is redirected to two slashes where its path is a directory. -/
def RedirectsDoubled (crates : Crates) (cfg : Config) (headers : List (Bytes × Bytes)) : Prop :=
  cfg.redirectTrailingSlash = true ∧ refusal cfg headers = none ∧ ∃ data encodings,
    acceptedRequest crates cfg headers = some (data, encodings) ∧ data.trailingSlash = false ∧
      DoublesSlash cfg data.relative

/-- The store in which every path is a directory. -/
def directories : Store where
  opens _ := .ok ⟨⟨0, 0, 0, true⟩, [], directory_size⟩
  lists _ := .ok []

section Directories

variable {crates : Crates} {cfg : Config} {data : RequestData} {headers : List (Bytes × Bytes)}
  {encodings : List Encoding}

theorem directories_redirect {candidate : Candidate} {rest : List Candidate}
    (hslash : data.trailingSlash = false) (hredirect : cfg.redirectTrailingSlash = true)
    (hidentity : candidate.encoding = none) :
    (Query.first candidate rest).leads crates cfg directories data =
      some (.inl (.reply 301 [("location", urlFor cfg data.relative ++ "/")])) := by
  have hleads := @leads_of_directory crates cfg directories data (.resolvingFile rest)
    candidate.fsPath candidate.openCtx _ rfl rfl
  have hplain : ¬candidate.openCtx.encoding.isSome = true := by
    change ¬candidate.encoding.isSome = true
    rw [hidentity]
    exact Bool.false_ne_true
  rw [if_neg hplain, Reaction.atDirectory, hslash, hredirect] at hleads
  exact hleads

/-- Where every path is a directory, the variants are passed over and the path itself is
redirected. -/
theorem directories_find {candidate : Candidate} {rest : List Candidate}
    (hslash : data.trailingSlash = false) (hredirect : cfg.redirectTrailingSlash = true)
    (hidentity : ∃ other ∈ candidate :: rest, other.encoding = none) :
    Finds crates cfg directories data (.first candidate rest)
      (.reply 301 [("location", urlFor cfg data.relative ++ "/")]) := by
  induction rest generalizing candidate with
  | nil =>
      obtain ⟨other, hother, hnone⟩ := hidentity
      rw [List.mem_singleton] at hother
      rw [hother] at hnone
      exact (finds_ends (directories_redirect hslash hredirect hnone)).mpr rfl
  | cons next rest ih =>
      by_cases hencoding : candidate.encoding = none
      · exact (finds_ends (directories_redirect hslash hredirect hencoding)).mpr rfl
      · have hleads := @leads_of_directory crates cfg directories data
          (.resolvingFile (next :: rest)) candidate.fsPath candidate.openCtx _ rfl rfl
        have hvariant : candidate.openCtx.encoding.isSome = true :=
          Option.isSome_iff_ne_none.mpr hencoding
        rw [if_pos hvariant] at hleads
        refine (finds_next hleads).mpr (ih ?_)
        obtain ⟨other, hother, hnone⟩ := hidentity
        rcases List.mem_cons.mp hother with rfl | hother
        · exact absurd hnone hencoding
        · exact ⟨other, hother, hnone⟩

/-- The path itself is one of the candidates. -/
theorem acceptedRequest_identity
    (h : acceptedRequest crates cfg headers = some (data, encodings)) :
    ∃ candidate rest, Accepts crates cfg headers data (candidate :: rest) ∧
      ∃ other ∈ candidate :: rest, other.encoding = none := by
  obtain ⟨rawPath, relative, trailingSlash, hmounted, hresolve, rfl, -⟩ :=
    acceptedRequest_resolved h
  have haccepts : Accepts crates cfg headers
      (requestData (RawRequestHeaders.collect headers) relative trailingSlash)
      (buildFileCandidates crates cfg relative trailingSlash
        (RawRequestHeaders.collect headers).acceptEncoding) :=
    ⟨rawPath, relative, trailingSlash, hmounted, hresolve, rfl, rfl⟩
  have hidentity : ∃ other ∈ buildFileCandidates crates cfg relative trailingSlash
      (RawRequestHeaders.collect headers).acceptEncoding, other.encoding = none :=
    ⟨_, List.mem_append_right _ (List.mem_singleton_self _), rfl⟩
  cases hcandidates : buildFileCandidates crates cfg relative trailingSlash
      (RawRequestHeaders.collect headers).acceptEncoding with
  | nil =>
      rw [hcandidates] at hidentity
      obtain ⟨_, hmem, -⟩ := hidentity
      nomatch hmem
  | cons candidate rest =>
      rw [hcandidates] at haccepts hidentity
      exact ⟨candidate, rest, haccepts, hidentity⟩

/-- A request without a trailing slash may be redirected. -/
theorem redirect_reached (hredirect : cfg.redirectTrailingSlash = true)
    (hrefusal : refusal cfg headers = none)
    (haccepted : acceptedRequest crates cfg headers = some (data, encodings))
    (hslash : data.trailingSlash = false) :
    ∃ actions s call, StreamRun crates cfg (asking headers) State.initial actions s ∧
      call ∈ s.trace ∧ urlFor cfg data.relative ++ "/" ∈ call.locations := by
  obtain ⟨candidate, rest, haccepts, hidentity⟩ := acceptedRequest_identity haccepted
  have hstarts : Starts crates cfg headers data (.first candidate rest) :=
    ⟨hrefusal, candidate, rest, haccepts, rfl⟩
  have hfinds := @directories_find crates cfg data candidate rest hslash hredirect hidentity
  obtain ⟨actions, s, call, hrun, hanswer⟩ := lookup_reaches walk_lookupRule
    (walk_lookupRank numberedContents_surjective hstarts hfinds rfl) (.nil _) rfl
  refine ⟨actions, s, call, ?_, List.mem_of_find?_eq_some hanswer, ?_⟩
  · apply hrun.mono_of_mem
    intro u action _ hok
    cases action with
    | requestHeaders other reentry => exact hok
    | complete index completion => exact fun _ _ => trivial
    | _ => trivial
  · obtain ⟨w, reaction, -, hgood, hreaction, -⟩ :=
      (lookup_rule walk_lookupRule hrun).answer_good hanswer
    rcases hgood with hsome | ⟨data', first, outcome, hstarts', hfinds', hrealizes⟩
    · nomatch hrefusal.symm.trans hsome
    · obtain ⟨rfl, rfl⟩ := hstarts.unique hstarts'
      cases hfinds.unique hfinds'
      cases hrealizes
      cases hreaction
      rw [locations_reply]
      exact List.mem_singleton_self _

/-- Every location that is sent for a request stays on the origin, unless the request is
redirected to two slashes. -/
theorem redirects_stay_iff (hstrip : ∀ pre, cfg.stripPrefix = some pre → SameOrigin pre)
    (headers : List (Bytes × Bytes)) :
    (∀ actions s, StreamRun crates cfg (asking headers) State.initial actions s →
        ∀ call ∈ s.trace, ∀ location ∈ call.locations, SameOrigin location) ↔
      ¬RedirectsDoubled crates cfg headers := by
  have hlocation {data : RequestData} {rawPath : String} {slash : Bool}
      (hresolve : resolveRequestPath rawPath (pathPolicy cfg) = .ok data.relative slash) :
      SameOrigin (urlFor cfg data.relative ++ "/") ↔ ¬DoublesSlash cfg data.relative := by
    obtain ⟨segments, hjoin, hsegments, -⟩ := resolved_segments hresolve
    have hrelative := (safeRelative_join fun segment hmem => (hsegments segment hmem).1).1
    rw [← hjoin] at hrelative
    exact sameOrigin_location_iff hstrip hrelative
  constructor
  · rintro hstays ⟨hredirect, hrefusal, data, encodings, haccepted, hslash, hdoubles⟩
    obtain ⟨actions, s, call, hrun, hmem, hsent⟩ :=
      redirect_reached hredirect hrefusal haccepted hslash
    obtain ⟨rawPath, relative, slash, -, hresolve, rfl, -⟩ := acceptedRequest_resolved haccepted
    exact (hlocation hresolve).mp (hstays actions s hrun call hmem _ hsent) hdoubles
  · intro hdoubled actions s hrun call hmem location hsent
    obtain ⟨_, data, candidates, rfl, hrefusal, haccepts, hslash, hredirect, rfl⟩ :=
      run_locations hrun hmem hsent
    obtain ⟨encodings, haccepted, -⟩ :=
      @acceptedRequest_of_accepts crates cfg directories _ data candidates haccepts
    obtain ⟨rawPath, relative, slash, -, hresolve, rfl, -⟩ := haccepts
    apply (hlocation hresolve).mpr
    intro hdoubles
    exact hdoubled ⟨hredirect, hrefusal, _, encodings, haccepted, hslash, hdoubles⟩

end Directories

/-- The directory `/srv` is redirected to the location `//` where it is requested as `/.`. -/
theorem root_redirects_doubled :
    ∃ actions s call, StreamRun Crates.plain (Config.defaults ⟨"/srv"⟩) (asking (getHeaders "/."))
        State.initial actions s ∧
      call ∈ s.trace ∧ "//" ∈ call.locations ∧ ¬SameOrigin "//" := by
  have haccepted : (acceptedRequest Crates.plain (Config.defaults ⟨"/srv"⟩)
      (getHeaders "/.")).map (fun request => (request.1.relative, request.1.trailingSlash)) =
      some ("", false) := by
    decide
  have hrefusal : (refusal (Config.defaults ⟨"/srv"⟩) (getHeaders "/.")).isNone = true := by
    decide
  obtain ⟨⟨data, encodings⟩, hrequest, hsame⟩ := Option.map_eq_some_iff.mp haccepted
  obtain ⟨hrelative, hslash⟩ := Prod.mk.inj hsame
  obtain ⟨actions, s, call, hrun, hmem, hsent⟩ :=
    redirect_reached rfl (Option.isNone_iff_eq_none.mp hrefusal) hrequest hslash
  rw [hrelative] at hsent
  exact ⟨actions, s, call, hrun, hmem, hsent, fun h => h.notNetwork (by decide)⟩

/-- The root mounted at `/static`. -/
def staticConfig : Config :=
  { Config.defaults ⟨"/srv"⟩ with stripPrefix := some "/static" }

/-- Below `/static`, no redirect leaves the origin. -/
theorem redirects_stay_static :
    ¬RedirectsDoubled Crates.plain staticConfig (getHeaders "/static/.") ∧
      ∀ actions s, StreamRun Crates.plain staticConfig (asking (getHeaders "/static/."))
          State.initial actions s →
        ∀ call ∈ s.trace, ∀ location ∈ call.locations, SameOrigin location := by
  have hdoubled : ¬RedirectsDoubled Crates.plain staticConfig (getHeaders "/static/.") := by
    rintro ⟨-, -, data, encodings, -, -, ⟨hnone, -⟩ | hslash⟩
    · nomatch hnone
    · exact absurd (Option.some.inj hslash) (by decide : "/static" ≠ "/")
  refine ⟨hdoubled, (redirects_stay_iff ?_ _).mpr hdoubled⟩
  intro pre hpre
  cases hpre
  exact ⟨by decide, by decide, forall_chars (by decide)⟩

end EnvoyFiles.Filter
