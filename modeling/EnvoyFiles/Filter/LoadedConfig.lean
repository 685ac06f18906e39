import EnvoyFiles.Core.HeaderSafety
import EnvoyFiles.Filter.ConfigLoader
import EnvoyFiles.Filter.Redirects

/-!
# Requests under a loaded configuration

A configuration carries its content types and its cache policy as free text from the
document it is loaded from.  A request panics when such a text cannot stand in a header.
-/

namespace EnvoyFiles

namespace Mime

/-- The override of an extension: the first whose key names it. -/
def overrideFor (overrides : List (String × String)) (ext : String) : Option String :=
  (overrides.find? fun (key, _) =>
    Text.eqIgnoreAsciiCase ((Text.stripPrefix key ".").getD key) ext).map (·.2)

theorem contentTypeFor_eq (crates : Crates) (path : String)
    (overrides : List (String × String)) (defaultContentType : String) :
    contentTypeFor crates path overrides defaultContentType =
      match extractExtension path with
      | none => defaultContentType
      | some ext =>
          (overrideFor overrides ext).getD
            ((crates.mimeFromExt (Text.toAsciiLowercase ext)).getD defaultContentType) := by
  simp only [contentTypeFor, overrideFor]
  cases extractExtension path with
  | none => rfl
  | some ext =>
      dsimp only
      split
      · next heq =>
          rw [heq]
          rfl
      · next heq =>
          rw [heq]
          rfl

end Mime

namespace Filter

open Text Path

/-- A name whose content type a response can carry: a path that a request resolves to, or
an index file. -/
inductive ServedName (cfg : Config) : String → Prop where
  | requested {rawPath path relative : String} {trailingSlash : Bool} :
      mountedPath cfg rawPath = some path →
      resolveRequestPath path (pathPolicy cfg) = .ok relative trailingSlash →
      ServedName cfg relative
  | index {name : String} :
      cfg.directory ≠ .deny → name ∈ cfg.indexFiles → ServedName cfg name

/-- The texts of the configuration that reach a header can stand there. -/
structure HeaderSafe (cfg : Config) : Prop where
  cacheControl : ∀ text, cfg.cacheControl = some text → ValidHeaderText text
  defaultContentType : ValidHeaderText cfg.defaultContentType
  overrides : ∀ name ext text, ServedName cfg name → Mime.extractExtension name = some ext →
    Mime.overrideFor cfg.mimeOverrides ext = some text → ValidHeaderText text

/-- What the planner is asked about under a request: the request's data, and what the open
that finds a file carries. -/
inductive Planned (crates : Crates) (cfg : Config) (headers : List (Bytes × Bytes)) :
    RequestData → OpenCtx → Prop where
  | candidate {data : RequestData} {candidates : List Candidate} {candidate : Candidate} :
      refusal cfg headers = none → Accepts crates cfg headers data candidates →
      candidate ∈ candidates → Planned crates cfg headers data candidate.openCtx
  | index {data : RequestData} {candidates : List Candidate} {fsPath : PathBuf}
      {contentType : String} :
      refusal cfg headers = none → Accepts crates cfg headers data candidates →
      cfg.directory ≠ .deny →
      (fsPath, contentType) ∈ indexCandidates crates cfg (requestDir cfg data) →
      Planned crates cfg headers data ⟨none, contentType, false⟩

/-- Every request gets a plan for every file whose modification time can be formatted. -/
def PlansAlways (crates : Crates) (cfg : Config) : Prop :=
  ∀ headers data ctx stat, Planned crates cfg headers data ctx →
    (httpDateFrom stat.mtimeUnix).isSome →
    ∃ plan, planResponse crates (requestFacts cfg data stat ctx) (fileMeta stat) = some plan

section Plans

variable {crates : Crates} {cfg : Config} {headers : List (Bytes × Bytes)}
  {data : RequestData} {ctx : OpenCtx} {name rawPath path relative : String}
  {trailingSlash : Bool}

theorem mem_buildFileCandidates {candidate : Candidate} {accept : Option String}
    (h : candidate ∈ buildFileCandidates crates cfg relative trailingSlash accept) :
    candidate.contentType = configuredContentType crates cfg relative := by
  rw [buildFileCandidates] at h
  rcases List.mem_append.mp h with h | h
  · obtain ⟨encoding, -, rfl⟩ := List.mem_map.mp h
    rfl
  · rw [List.mem_singleton.mp h]

/-- The planner is only given content types that are configured for served names. -/
theorem Planned.contentType (h : Planned crates cfg headers data ctx) :
    ∃ name, ServedName cfg name ∧ ctx.contentType = configuredContentType crates cfg name := by
  cases h with
  | candidate _ haccepts hmem =>
      obtain ⟨rawPath, relative, trailingSlash, hmounted, hresolve, -, rfl⟩ := haccepts
      exact ⟨relative, .requested hmounted hresolve, mem_buildFileCandidates hmem⟩
  | index _ _ hdirectory hmem =>
      obtain ⟨name, hname, heq⟩ := List.mem_map.mp hmem
      cases heq
      exact ⟨name, .index hdirectory hname, rfl⟩

/-- The content type of a served name is valid when the configured texts are. -/
theorem contentType_valid (hcrates : crates.FormatsText) (hsafe : HeaderSafe cfg)
    (hname : ServedName cfg name) : ValidHeaderText (configuredContentType crates cfg name) := by
  rw [configuredContentType]
  rw [Mime.contentTypeFor_eq]
  cases hext : Mime.extractExtension name with
  | none => exact hsafe.defaultContentType
  | some ext =>
      dsimp only
      cases hoverride : Mime.overrideFor cfg.mimeOverrides ext with
      | some text => exact hsafe.overrides name ext text hname hext hoverride
      | none =>
          cases hmime : crates.mimeFromExt (toAsciiLowercase ext) with
          | some text => exact hcrates.mime _ text hmime
          | none => exact hsafe.defaultContentType

theorem printable_boundary (data : RequestData) (stat : FileStat) (ctx : OpenCtx) :
    Printable (requestFacts cfg data stat ctx).boundary := by
  have hliteral : Printable "envoyfilesboundary" := by decide
  exact (hliteral.append (printable_hex16 _)).append (printable_hex16 _)

theorem plansAlways_of_headerSafe (hcrates : crates.FormatsText) (hsafe : HeaderSafe cfg) :
    PlansAlways crates cfg := by
  intro headers data ctx stat hplanned hmtime
  obtain ⟨name, hname, hcontentType⟩ := hplanned.contentType
  apply planResponse_isSome hcrates hmtime (printable_boundary data stat ctx)
  · change ValidHeaderText ctx.contentType
    rw [hcontentType]
    exact contentType_valid hcrates hsafe hname
  · exact hsafe.cacheControl

/-! ## Plain requests -/

/-- The raw headers of a plain `GET`. -/
theorem collect_getHeaders (path : String) :
    RawRequestHeaders.collect (getHeaders path) =
      { RawRequestHeaders.default with
        method := some (asBytes "GET")
        path := if path = "" then none else some path } := by
  have hmethod : (RawRequestHeaders.default.collectOne (asBytes ":method", asBytes "GET")) =
      { RawRequestHeaders.default with method := some (asBytes "GET") } := by
    decide
  have hpath : ∀ raw : RawRequestHeaders, raw.collectOne (asBytes ":path", asBytes path) =
      { raw with path := fillSlot raw.path (asBytes path) } := by
    intro raw
    have hne : asBytes ":path" ≠ asBytes ":method" := by decide
    unfold RawRequestHeaders.collectOne
    dsimp only
    rw [if_neg hne, if_pos rfl]
  rw [RawRequestHeaders.collect, getHeaders]
  rw [List.foldl_cons, List.foldl_cons, List.foldl_nil, hmethod, hpath]
  rw [fillSlot]
  by_cases hempty : path = ""
  · rw [if_pos hempty, hempty]
    rfl
  · rw [if_neg hempty, fromUtf8Lossy_asBytes]
    have hbytes : (asBytes path).isEmpty = false := by
      rw [List.isEmpty_eq_false_iff]
      exact fun h => hempty (asBytes_eq_nil.mp h)
    rw [hbytes]
    rfl

/-- A path that resolves is asked for by a plain `GET`. -/
theorem accepts_getHeaders (hmounted : mountedPath cfg rawPath = some path)
    (hresolve : resolveRequestPath path (pathPolicy cfg) = .ok relative trailingSlash) :
    refusal cfg (getHeaders rawPath) = none ∧
      Accepts crates cfg (getHeaders rawPath)
        (requestData (RawRequestHeaders.collect (getHeaders rawPath)) relative trailingSlash)
        (buildFileCandidates crates cfg relative trailingSlash none) := by
  have hraw : (RawRequestHeaders.collect (getHeaders rawPath)).path.getD "" = rawPath := by
    rw [collect_getHeaders]
    by_cases hempty : rawPath = ""
    · rw [if_pos hempty, hempty]
      rfl
    · rw [if_neg hempty]
      rfl
  have hmethod : (RawRequestHeaders.collect (getHeaders rawPath)).method =
      some (asBytes "GET") := by rw [collect_getHeaders]
  have haccept : (RawRequestHeaders.collect (getHeaders rawPath)).acceptEncoding = none := by
    rw [collect_getHeaders]
    rfl
  constructor
  · unfold refusal
    dsimp only
    rw [hmethod, hraw, hmounted]
    dsimp only
    rw [hresolve]
    exact if_neg fun h => h.2 rfl
  · refine ⟨path, relative, trailingSlash, ?_, hresolve, rfl, ?_⟩
    · rw [hraw]
      exact hmounted
    · rw [haccept]

/-- The request of the root directory resolves under every configuration. -/
theorem root_resolves (cfg : Config) :
    ∃ rawPath path, mountedPath cfg rawPath = some path ∧
      resolveRequestPath path (pathPolicy cfg) = .ok "" true := by
  refine ⟨_, _, mountedPath_location cfg "", ?_⟩
  rw [pathPolicy]
  cases cfg.serveDotfiles <;> decide

/-- Every served name is asked about by some plain request. -/
theorem ServedName.planned (crates : Crates) (hname : ServedName cfg name) :
    ∃ rawPath relative trailingSlash ctx,
      Planned crates cfg (getHeaders rawPath)
        (requestData (RawRequestHeaders.collect (getHeaders rawPath)) relative trailingSlash)
        ctx ∧
      ctx.contentType = configuredContentType crates cfg name := by
  cases hname with
  | @requested rawPath path _ trailingSlash hmounted hresolve =>
      obtain ⟨hrefusal, haccepts⟩ := @accepts_getHeaders crates _ _ _ _ _ hmounted hresolve
      refine ⟨rawPath, name, trailingSlash, _, .candidate hrefusal haccepts
        (List.mem_append_right _ (List.mem_singleton_self _)), rfl⟩
  | index hdirectory hmem =>
      obtain ⟨rawPath, path, hmounted, hresolve⟩ := root_resolves cfg
      obtain ⟨hrefusal, haccepts⟩ := @accepts_getHeaders crates _ _ _ _ _ hmounted hresolve
      exact ⟨rawPath, "", true, _, .index hrefusal haccepts hdirectory
        (List.mem_map_of_mem hmem), rfl⟩

/-- If served names can be answered, their content type and the cache policy are valid. -/
theorem PlansAlways.valid (hcrates : crates.FormatsText) (h : PlansAlways crates cfg)
    (hname : ServedName cfg name) :
    ValidHeaderText (configuredContentType crates cfg name) ∧
      ∀ text, cfg.cacheControl = some text → ValidHeaderText text := by
  obtain ⟨rawPath, relative, trailingSlash, ctx, hplanned, hcontentType⟩ :=
    hname.planned crates
  have hplan := h _ _ ctx ⟨0, 0, 0, false⟩ hplanned rfl
  rw [planResponse_unconditional] at hplan
  · have hvalid := (planFull_isSome_iff ?_).mp hplan
    · rw [← hcontentType]
      exact hvalid
    · exact pushValidatorHeaders_validatorsOf hcrates rfl
  · rw [collect_getHeaders]
    rfl
  · rw [collect_getHeaders]
    rw [requestFacts]
    dsimp only
    split
    · rfl
    · rfl

theorem headerSafe_of_plansAlways (hcrates : crates.FormatsText) (h : PlansAlways crates cfg) :
    HeaderSafe cfg := by
  obtain ⟨rawPath, path, hmounted, hresolve⟩ := root_resolves cfg
  obtain ⟨hdefault, hcache⟩ := h.valid hcrates (.requested hmounted hresolve)
  refine ⟨hcache, hdefault, ?_⟩
  intro name ext text hname hext hoverride
  obtain ⟨hvalid, -⟩ := h.valid hcrates hname
  rw [configuredContentType] at hvalid
  rw [Mime.contentTypeFor_eq, hext] at hvalid
  dsimp only at hvalid
  rw [hoverride] at hvalid
  exact hvalid

end Plans

/-- A document cannot load into a configuration under which a request panics, exactly if the
texts of the configuration can stand in headers. -/
theorem loaded_config_plans_always_iff {crates : Crates} (hcrates : crates.FormatsText)
    (loader : Loader) (raw : Bytes) :
    (∀ cfg, Config.parse loader raw = .ok cfg → PlansAlways crates cfg) ↔
      ∀ cfg, Config.parse loader raw = .ok cfg → HeaderSafe cfg := by
  constructor
  · intro h cfg hload
    exact headerSafe_of_plansAlways hcrates (h cfg hload)
  · intro h cfg hload
    exact plansAlways_of_headerSafe hcrates (h cfg hload)

/-- A loader of one document, below a filesystem of directories. -/
def documentLoader (doc : Yaml) : Loader where
  loadFromStr _ := .ok [doc]
  canonicalize root := .ok ⟨root⟩
  isDir _ := true
  debugStr := id
  debugPath := PathBuf.raw

/-- The document of a text is what the loader reads, whatever the text is. -/
theorem parse_document {doc : Yaml} {text : String} {cfg : Config}
    (h : Config.ofDocument (documentLoader doc) doc = .ok cfg) :
    Config.parse (documentLoader doc) (asBytes text) = .ok cfg := by
  rw [Config.parse_eq_ok]
  refine ⟨doc, ?_, Config.ofDocument_eq_ok.mp h⟩
  rw [Config.loadDocument]
  rw [fromUtf8_eq_some.mpr rfl]
  rfl

theorem loaded_config_plans_always_iff_root :
    ∃ cfg, Config.parse (documentLoader (.hash [(.string "root", .string "/srv")]))
        (asBytes "root: /srv") = .ok cfg ∧ PlansAlways Crates.plain cfg := by
  have hload : Config.parse (documentLoader (.hash [(.string "root", .string "/srv")]))
      (asBytes "root: /srv") = .ok (Config.defaults ⟨"/srv"⟩) := parse_document rfl
  refine ⟨_, hload, ?_⟩
  refine (loaded_config_plans_always_iff plain_formatsText _ _).mpr ?_ _ hload
  intro cfg hcfg
  cases hload.symm.trans hcfg
  exact ⟨nofun, by decide, nofun⟩

/-- A block scalar keeps its line break: the document loads, and the first request for a file
panics. -/
theorem loaded_cache_control_panics :
    ∃ cfg s,
      Config.parse
          (documentLoader (.hash
            [(.string "root", .string "/srv"), (.string "cache_control", .string "max-age=60\n")]))
          (asBytes "root: /srv\ncache_control: |\n  max-age=60\n") = .ok cfg ∧
        ¬PlansAlways Crates.plain cfg ∧
        replay Crates.plain cfg State.initial
            [.requestHeaders (getHeaders "/a") [],
              .complete 0 (.openStat (.ok (⟨1⟩, ⟨3, 0, 0, false⟩, [97, 98, 99]))), .commit] =
          some s ∧
        step Crates.plain cfg s (.scheduled []) = none := by
  have hpanics : ((replay Crates.plain
      { Config.defaults ⟨"/srv"⟩ with cacheControl := some "max-age=60\n" } State.initial
      [.requestHeaders (getHeaders "/a") [],
        .complete 0 (.openStat (.ok (⟨1⟩, ⟨3, 0, 0, false⟩, [97, 98, 99]))), .commit]).map
      fun s => (step Crates.plain
        { Config.defaults ⟨"/srv"⟩ with cacheControl := some "max-age=60\n" } s
        (.scheduled [])).isNone) = some true := by
    decide
  obtain ⟨s, hs, hnone⟩ := Option.map_eq_some_iff.mp hpanics
  refine ⟨_, s, parse_document rfl, ?_, hs, Option.isNone_iff_eq_none.mp hnone⟩
  intro h
  exact absurd ((headerSafe_of_plansAlways plain_formatsText h).cacheControl _ rfl) (by decide)

/-! ## Runs -/

section Runs

variable {crates : Crates} {cfg : Config} {env : Env} {headers : List (Bytes × Bytes)}
  {data : RequestData}

/-- The opens that a phase has left carry what a request plans with. -/
def Phase.Plans (crates : Crates) (cfg : Config) (headers : List (Bytes × Bytes))
    (data : RequestData) : Phase → Prop
  | .resolvingFile pending =>
      ∀ candidate ∈ pending, Planned crates cfg headers data candidate.openCtx
  | .resolvingIndex _ pending =>
      ∀ entry ∈ pending, Planned crates cfg headers data ⟨none, entry.2, false⟩
  | _ => True

/-- Nothing but what the request plans with is opened. -/
structure OpensPlanned (crates : Crates) (cfg : Config) (env : Env) (data : RequestData)
    (phase : Phase) (op : Op) (headers : List (Bytes × Bytes)) : Prop where
  requests : env.requests headers
  accepted : refusal cfg headers = none ∧
    ∃ candidates, Accepts crates cfg headers data candidates
  pending : phase.Plans crates cfg headers data
  opened : ∀ request ctx, op = .openStat request ctx → Planned crates cfg headers data ctx

theorem IndexLeft.plans {before : Phase} {dirFs : PathBuf} {pending : List (PathBuf × String)}
    (hrefusal : refusal cfg headers = none) {candidates : List Candidate}
    (haccepts : Accepts crates cfg headers data candidates)
    (hbefore : before.Plans crates cfg headers data)
    (h : IndexLeft crates cfg data before dirFs pending) :
    ∀ entry ∈ pending, Planned crates cfg headers data ⟨none, entry.2, false⟩ := by
  cases h with
  | rest hphase =>
      rw [hphase] at hbefore
      exact hbefore
  | all _ hmode =>
      intro entry hentry
      exact .index hrefusal haccepts hmode hentry

/-- Every further open carries what the request plans with. -/
theorem react_plans {before phase : Phase} {event : IoEvent} {path : PathBuf} {ctx : OpenCtx}
    (hrefusal : refusal cfg headers = none) {candidates : List Candidate}
    (haccepts : Accepts crates cfg headers data candidates)
    (hbefore : before.Plans crates cfg headers data)
    (h : react crates cfg data before event = some (.seek phase path ctx)) :
    phase.Plans crates cfg headers data ∧ Planned crates cfg headers data ctx := by
  cases react_cases h with
  | candidate hphase =>
      rw [hphase] at hbefore
      exact ⟨fun c hc => hbefore c (List.mem_cons_of_mem _ hc), hbefore _ List.mem_cons_self⟩
  | index hleft =>
      have hpending := hleft.plans hrefusal haccepts hbefore
      exact ⟨fun e he => hpending e (List.mem_cons_of_mem _ he), hpending _ List.mem_cons_self⟩

theorem planned_lookupRule (crates : Crates) (cfg : Config) (env : Env) :
    LookupRule crates cfg env
      (fun data phase op => ∃ headers, OpensPlanned crates cfg env data phase op headers)
      (fun _ => True) where
  refuse _ _ _ _ := trivial
  start headers data candidate rest hrequests hrefusal haccepts := by
    refine ⟨headers, hrequests, ⟨hrefusal, _, haccepts⟩, ?_, ?_⟩
    · intro c hc
      exact .candidate hrefusal haccepts (List.mem_cons_of_mem _ hc)
    · intro request ctx hop
      cases hop
      exact .candidate hrefusal haccepts List.mem_cons_self
  next data phase op event reaction phase' op' _ h _ hreact hawaits := by
    obtain ⟨headers, hrequests, ⟨hrefusal, candidates, haccepts⟩, hpending, -⟩ := h
    cases reaction with
    | seek next path ctx =>
        cases hawaits
        obtain ⟨hplans, hctx⟩ := react_plans hrefusal haccepts hpending hreact
        refine ⟨headers, hrequests, ⟨hrefusal, candidates, haccepts⟩, hplans, ?_⟩
        intro request ctx' hop
        cases hop
        exact hctx
    | list path =>
        cases hawaits
        exact ⟨headers, hrequests, ⟨hrefusal, candidates, haccepts⟩, hpending, nofun⟩
    | reply status replyHeaders body => nomatch hawaits
    | serve plan handle prefetched => nomatch hawaits
    | ignore => nomatch hawaits
  answer _ _ _ _ _ _ _ _ _ _ _ := trivial

/-- Whatever file a run opens, the planner is asked about what its request plans with. -/
theorem planned_of_run {actions : List Action} {s : State} {handle : FileHandle}
    {stat : FileStat} {ctx : OpenCtx} {prefetched : Bytes}
    (hrun : StreamRun crates cfg env State.initial actions s) (hactive : s.complete = false)
    (hresolving : s.phase.isResolving = true) (hrequest : s.request = some data)
    (hevents : s.bridge.events = [.opened handle stat ctx prefetched]) :
    ∃ headers, env.requests headers ∧ Planned crates cfg headers data ctx := by
  have hnone := unanswered_of_resolving (run_obeys hrun) hresolving
  cases lookup_rule (planned_lookupRule crates cfg env) hrun with
  | idle hunasked =>
      rw [hunasked.phase] at hresolving
      nomatch hresolving
  | @seeking data' op hawaiting hplace =>
      cases hrequest.symm.trans hawaiting.request
      obtain ⟨headers, hrequests, -, -, hopened⟩ := hplace
      cases hawaiting.outstanding with
      | submitted _ hempty => nomatch hempty.symm.trans hevents
      | completed hyields _ hevent =>
          obtain ⟨w, completion, -, hdone⟩ := hyields
          cases hevent.symm.trans hevents
          refine ⟨headers, hrequests, ?_⟩
          cases op with
          | openStat request ctx' =>
              cases completion with
              | openStat result =>
                  cases result with
                  | ok opened =>
                      cases hdone
                      exact hopened _ _ rfl
                  | error error => nomatch hdone
              | read result => nomatch hdone
              | readDir result => nomatch hdone
          | read handle' offset len seq => cases completion <;> nomatch hdone
          | readDir path => cases completion <;> nomatch hdone
  | answered _ _ _ _ hanswer => nomatch hnone.symm.trans hanswer
  | gone hcomplete _ => nomatch hactive.symm.trans hcomplete

end Runs

end Filter

end EnvoyFiles
