import EnvoyFiles.Filter.Integrity
import EnvoyFiles.Filter.Resolution

/-!
# The lookup behind a resolution

While the filter resolves a request, what it does with an event depends on the
request, the phase and the event alone.  `react` is that function, and
`lookup_rule` is the rule for runs: an invariant of the awaited operation that
every reaction keeps decides how the request is answered.
-/

namespace EnvoyFiles.Filter

/-! ## Reactions -/

/-- What a resolving filter does with an event. -/
inductive Reaction where
  /-- The next path is opened. -/
  | seek (phase : Phase) (path : PathBuf) (ctx : OpenCtx)
  /-- A directory is read. -/
  | list (path : PathBuf)
  /-- A complete response is sent. -/
  | reply (status : ℕ) (headers : List (String × String)) (body : Option Bytes)
  /-- An opened file is served by its plan. -/
  | serve (plan : ResponsePlan) (handle : FileHandle) (prefetched : Bytes)
  /-- The event is dropped. -/
  | ignore

def Reaction.fallback (cfg : Config) (dirFs : PathBuf) : Reaction :=
  match cfg.directory with
  | .listing => .list dirFs
  | .index | .deny => .reply 404 [] none

def Reaction.nextCandidate : List Candidate → Reaction
  | [] => .reply 404 [] none
  | candidate :: rest => .seek (.resolvingFile rest) candidate.fsPath candidate.openCtx

def Reaction.nextIndex (cfg : Config) (dirFs : PathBuf) :
    List (PathBuf × String) → Reaction
  | [] => .fallback cfg dirFs
  | (fsPath, contentType) :: rest =>
      .seek (.resolvingIndex dirFs rest) fsPath ⟨none, contentType, false⟩

def Reaction.afterMiss (cfg : Config) : Phase → Reaction
  | .resolvingFile pending => .nextCandidate pending
  | .resolvingIndex dirFs pending => .nextIndex cfg dirFs pending
  | _ => .ignore

def Reaction.afterError (cfg : Config) (error : IoError) : Phase → Reaction
  | .resolvingFile [] => .reply (statusForIoError error.kind error.rawOsError) [] none
  | phase => .afterMiss cfg phase

def Reaction.atDirectory (crates : Crates) (cfg : Config) (data : RequestData) :
    Reaction :=
  if !data.trailingSlash && cfg.redirectTrailingSlash then
    .reply 301 [("location", urlFor cfg data.relative ++ "/")] none
  else if cfg.directory = .deny then
    .reply 403 [] none
  else
    .nextIndex cfg (requestDir cfg data)
      (indexCandidates crates cfg (requestDir cfg data))

/-- The listing page of a directory; `none` where a date in it cannot be
formatted. -/
def listingPage (crates : Crates) (cfg : Config) (data : RequestData)
    (entries : List DirEntryInfo) : Option Bytes :=
  (Listing.renderListing crates (urlFor cfg data.relative) data.relative.isEmpty
    (entries.map fun e => ⟨e.name, e.isDir, e.size, e.mtimeUnix⟩)).map Text.asBytes

def Reaction.ofListing (crates : Crates) (cfg : Config) (data : RequestData) :
    ReadDirResult → Option Reaction
  | .error error =>
      some (.reply (statusForIoError error.kind error.rawOsError) [] none)
  | .ok entries =>
      (listingPage crates cfg data entries).map fun html =>
        .reply 200 [("content-type", "text/html; charset=utf-8")] (some html)

/-- The reaction to an event; `none` where the source panics. -/
def react (crates : Crates) (cfg : Config) (data : RequestData) (phase : Phase) :
    IoEvent → Option Reaction
  | .opened handle stat ctx prefetched =>
      if stat.isDir then
        if ctx.encoding.isSome then some (.afterMiss cfg phase)
        else some (.atDirectory crates cfg data)
      else
        (planResponse crates (requestFacts cfg data stat ctx) (fileMeta stat)).map
          fun plan => .serve plan handle prefetched
  | .openError error => some (.afterError cfg error phase)
  | .dir result => Reaction.ofListing crates cfg data result
  | .read _ _ => some .ignore

/-- A reaction, carried out; the Boolean says whether it ends the stream. -/
def Reaction.apply (cfg : Config) (s : State) : Reaction → State × Bool
  | .seek phase path ctx =>
      ((s.setPhase phase).submit (.openStat (openRequest cfg s.request path) ctx)
        (.openStat (openRequest cfg s.request path)), false)
  | .list path => (s.submit (.readDir path) (.readDir path), false)
  | .reply status headers body =>
      ((s.setPhase .done).send (.sendResponse status headers body), true)
  | .serve plan handle prefetched => executePlan cfg s plan handle prefetched
  | .ignore => (s, false)

/-- The call that starts the response of a reaction. -/
def Reaction.answer (cfg : Config) : Reaction → Option Call
  | .reply status headers body => some (.sendResponse status headers body)
  | .serve plan _ _ =>
      some (.sendResponseHeaders (responseHeaders plan) (bodyChunks cfg plan.body).isEmpty)
  | _ => none

section Reacting

variable {crates : Crates} {cfg : Config} {data : RequestData} {s : State}

theorem submitOpen_apply (hwaker : s.waker = true) (phase : Phase) (path : PathBuf)
    (ctx : OpenCtx) :
    (submitOpen cfg (s.setPhase phase) path ctx).bind (fun t => some (t, false)) =
      some ((Reaction.seek phase path ctx).apply cfg s) := by
  rw [submitOpen]
  have hphase : (s.setPhase phase).waker = true := hwaker
  rw [if_pos hphase]
  rfl

theorem openNextCandidate_react (hwaker : s.waker = true) {pending : List Candidate}
    (hphase : s.phase = .resolvingFile pending) :
    openNextCandidate cfg s = some ((Reaction.nextCandidate pending).apply cfg s) := by
  rw [openNextCandidate]
  rw [hphase]
  cases pending with
  | nil => rfl
  | cons candidate rest => exact submitOpen_apply hwaker _ _ _

theorem directoryFallback_react (hwaker : s.waker = true) (dirFs : PathBuf) :
    directoryFallback cfg s dirFs = some ((Reaction.fallback cfg dirFs).apply cfg s) := by
  rw [directoryFallback, Reaction.fallback]
  cases cfg.directory with
  | listing =>
      dsimp only
      rw [if_pos hwaker]
      rfl
  | index => rfl
  | deny => rfl

theorem openNextIndex_react (hwaker : s.waker = true) {dirFs : PathBuf}
    {pending : List (PathBuf × String)} (hphase : s.phase = .resolvingIndex dirFs pending) :
    openNextIndex cfg s = some ((Reaction.nextIndex cfg dirFs pending).apply cfg s) := by
  rw [openNextIndex]
  rw [hphase]
  cases pending with
  | nil => exact directoryFallback_react hwaker dirFs
  | cons candidate rest => exact submitOpen_apply hwaker _ _ _

theorem advanceAfterOpenMiss_react (hwaker : s.waker = true) :
    advanceAfterOpenMiss cfg s = some ((Reaction.afterMiss cfg s.phase).apply cfg s) := by
  rw [advanceAfterOpenMiss, resolver]
  cases hphase : s.phase with
  | resolvingFile pending => exact openNextCandidate_react hwaker hphase
  | resolvingIndex dirFs pending => exact openNextIndex_react hwaker hphase
  | idle => rfl
  | streaming st => rfl
  | done => rfl

theorem handleOpenError_react (hwaker : s.waker = true) (error : IoError) :
    handleOpenError cfg s error =
      some ((Reaction.afterError cfg error s.phase).apply cfg s) := by
  rw [handleOpenError, resolver]
  cases hphase : s.phase with
  | resolvingFile pending =>
      cases pending with
      | nil => rfl
      | cons candidate rest => exact openNextCandidate_react hwaker hphase
  | resolvingIndex dirFs pending => exact openNextIndex_react hwaker hphase
  | idle => rfl
  | streaming st => rfl
  | done => rfl

theorem handleDirectory_react (hwaker : s.waker = true) (hrequest : s.request = some data) :
    handleDirectory crates cfg s =
      some ((Reaction.atDirectory crates cfg data).apply cfg s) := by
  rw [handleDirectory, Reaction.atDirectory, requestDir]
  rw [hrequest]
  dsimp only
  split
  · rfl
  · split
    · rfl
    · cases hpending : indexCandidates crates cfg (cfg.root.join data.relative) with
      | nil => exact directoryFallback_react hwaker _
      | cons candidate rest => exact submitOpen_apply hwaker _ _ _

theorem handleDir_react (hrequest : s.request = some data) (result : ReadDirResult) :
    handleDir crates cfg s result =
      (Reaction.ofListing crates cfg data result).map fun reaction => reaction.apply cfg s := by
  cases result with
  | error error => rfl
  | ok entries =>
      rw [handleDir, Reaction.ofListing, listingPage]
      dsimp only
      rw [hrequest, Option.map_map, Option.map_map]
      exact Option.map_eq_bind.symm

/-- While it resolves, the filter does with an event what `react` says. -/
theorem handleEvent_react (hresolving : s.phase.isResolving = true)
    (hwaker : s.waker = true) (hrequest : s.request = some data) (event : IoEvent) :
    handleEvent crates cfg s event =
      (react crates cfg data s.phase event).map fun reaction => reaction.apply cfg s := by
  cases event with
  | opened handle stat ctx prefetched =>
      unfold handleEvent handleOpened react
      dsimp only
      split
      · split
        · exact advanceAfterOpenMiss_react hwaker
        · exact handleDirectory_react hwaker hrequest
      · rw [serveFile]
        rw [hrequest, Option.map_map]
        exact Option.map_eq_bind.symm
  | openError error => exact handleOpenError_react hwaker error
  | dir result => exact handleDir_react hrequest result
  | read seq result =>
      unfold handleEvent handleRead react
      dsimp only
      split
      · next st hphase =>
          rw [hphase] at hresolving
          nomatch hresolving
      · rfl

/-- A regular file is planned for. -/
theorem react_file {phase : Phase} {handle : FileHandle} {stat : FileStat} {ctx : OpenCtx}
    {prefetched : Bytes} (hfile : stat.isDir = false) :
    react crates cfg data phase (.opened handle stat ctx prefetched) =
      (planResponse crates (requestFacts cfg data stat ctx) (fileMeta stat)).map
        fun plan => .serve plan handle prefetched := by
  apply if_neg
  rw [hfile]
  nofun

end Reacting

/-! ## Answers -/

/-- The call that has started the response. -/
def State.answer (s : State) : Option Call :=
  s.trace.find? Call.startsResponse

section Answers

variable {crates : Crates} {cfg : Config} {env : Env} {s t : State}

theorem move_trace (hmove : Move crates cfg env s t) : s.trace <+: t.trace := by
  cases hmove with
  | hook hook =>
      obtain ⟨depth, commits, -, heq⟩ := onHook_eq s hook
      rw [heq]
      exact List.prefix_append _ _
  | @complete before after _ _ event _ _ _ =>
      have htrace := deliver_trace { s with pending := before ++ after } event
      exact ⟨[], (List.append_nil _).trans htrace.symm⟩
  | reentry _ => exact List.prefix_rfl
  | commit _ => exact List.prefix_rfl
  | drain _ _ => exact List.prefix_rfl
  | readOk _ _ => exact List.prefix_rfl
  | ignore _ _ _ => exact List.prefix_rfl
  | discard _ => exact List.prefix_rfl
  | issueSkip _ _ _ _ => exact List.prefix_rfl
  | streamComplete _ => exact List.prefix_rfl
  | _ => exact List.prefix_append _ _

/-- The trace only grows. -/
theorem moves_trace (hmoves : Moves crates cfg env s t) : s.trace <+: t.trace := by
  induction hmoves with
  | refl => exact List.prefix_rfl
  | tail _ hlast ih => exact ih.trans (move_trace hlast)

/-- The first response stays the first. -/
theorem answer_of_trace {call : Call} (htrace : s.trace <+: t.trace)
    (hanswer : s.answer = some call) : t.answer = some call := by
  obtain ⟨later, hlater⟩ := htrace
  rw [State.answer] at hanswer ⊢
  rw [← hlater, List.find?_append, hanswer, Option.some_or]

/-- A call that starts a response is the answer where there was none. -/
theorem answer_of_record {call : Call} (hnone : s.answer = none)
    (hcall : call.startsResponse = true) (htrace : s.trace ++ [call] <+: t.trace) :
    t.answer = some call := by
  obtain ⟨later, hlater⟩ := htrace
  rw [State.answer] at hnone ⊢
  rw [← hlater, List.find?_append, List.find?_append, hnone, Option.none_or,
    List.find?_singleton, if_pos hcall, Option.some_or]

theorem answer_of_append {calls : List Call} (hnone : s.answer = none)
    (hcalls : ∀ call ∈ calls, call.startsResponse = false)
    (htrace : t.trace = s.trace ++ calls) : t.answer = none := by
  rw [State.answer] at hnone ⊢
  rw [htrace, List.find?_append, hnone, Option.none_or, List.find?_eq_none]
  intro call hmem
  rw [hcalls call hmem]
  nofun

/-- A response has not started while the filter resolves. -/
theorem unanswered_of_resolving (hobeys : Obeys s) (hresolving : s.phase.isResolving = true) :
    s.answer = none := by
  rw [Obeys] at hobeys
  rw [stage_of_resolving hresolving] at hobeys
  rw [State.answer]
  rw [List.find?_eq_none]
  intro call hmem hstarts
  obtain ⟨before, after, htrace⟩ := List.append_of_mem hmem
  rw [htrace] at hobeys
  obtain ⟨u, v, -, -, hnext, hafter⟩ := hobeys.split_middle
  exact (next_startsResponse hstarts hnext).2 (stageRun_waiting hafter)

theorem executePlan_trace (plan : ResponsePlan) (handle : FileHandle) (prefetched : Bytes) :
    s.trace ++ [.sendResponseHeaders (responseHeaders plan) (bodyChunks cfg plan.body).isEmpty]
      <+: (executePlan cfg s plan handle prefetched).1.trace := by
  rw [executePlan]
  split
  · next hbody =>
      rw [hbody]
      exact send_trace (s.setPhase .done) _
  · rw [beginStreaming]
    split
    · next hempty =>
        rw [hempty]
        exact send_trace (s.setPhase .done) _
    · next hchunks =>
        rw [Bool.not_eq_true] at hchunks
        rw [hchunks]
        exact send_trace (s.setPhase (.streaming _)) _

theorem answer_of_hook (hnone : s.answer = none) {hook : Hook}
    (htrace : t.trace = s.trace ++ [.hook hook]) : t.answer = none := by
  apply answer_of_append hnone ?_ htrace
  intro call hcall
  rw [List.mem_singleton.mp hcall]
  rfl

theorem answer_of_submit (hnone : s.answer = none) {op : Op} {call : Call}
    (hcall : call.startsResponse = false) (htrace : t.trace = s.trace) :
    (t.submit op call).answer = none := by
  refine answer_of_append hnone ?_ (congrArg (· ++ [call]) htrace)
  intro other hother
  rw [List.mem_singleton.mp hother]
  exact hcall

/-- A reaction that answers records its answer first. -/
theorem apply_trace {reaction : Reaction} {call : Call}
    (hanswer : reaction.answer cfg = some call) :
    call.startsResponse = true ∧ s.trace ++ [call] <+: (reaction.apply cfg s).1.trace := by
  cases reaction with
  | reply status headers body =>
      cases hanswer
      exact ⟨rfl, send_trace (s.setPhase .done) _⟩
  | serve plan handle prefetched =>
      cases hanswer
      exact ⟨rfl, executePlan_trace plan handle prefetched⟩
  | seek phase path ctx => nomatch hanswer
  | list path => nomatch hanswer
  | ignore => nomatch hanswer

/-- Only a reply is answered with a complete response. -/
theorem reply_of_answer {reaction : Reaction} {status : ℕ} {headers : List (String × String)}
    {body : Option Bytes}
    (hanswer : reaction.answer cfg = some (.sendResponse status headers body)) :
    reaction = .reply status headers body := by
  cases reaction with
  | reply status' headers' body' =>
      cases hanswer
      rfl
  | _ => nomatch hanswer

/-- After a reaction that answers, its answer is the first. -/
theorem answer_of_apply {reaction : Reaction} {call : Call} {u : State}
    (hnone : s.answer = none) (hanswer : reaction.answer cfg = some call)
    (hlater : (reaction.apply cfg u).1.trace <+: t.trace) (htrace : u.trace = s.trace) :
    t.answer = some call := by
  obtain ⟨hstarts, hfirst⟩ := @apply_trace cfg u reaction call hanswer
  rw [htrace] at hfirst
  exact answer_of_record hnone hstarts (hfirst.trans hlater)

end Answers

/-! ## Runs -/

/-- The reply to a request that is refused without a lookup. -/
def refusal (cfg : Config) (headers : List (Bytes × Bytes)) : Option Reaction :=
  let raw := RawRequestHeaders.collect headers
  if raw.method ≠ some (Text.asBytes "HEAD") ∧ raw.method ≠ some (Text.asBytes "GET") then
    some (.reply 405 [("allow", "GET, HEAD")] none)
  else
    match mountedPath cfg (raw.path.getD "") with
    | none => some (.reply 404 [] none)
    | some rawPath =>
        match Path.resolveRequestPath rawPath (pathPolicy cfg) with
        | .reject reason => some (.reply (rejectStatus reason) [] none)
        | .ok _ _ => none

/-- A refusal is a complete response without a body. -/
theorem refusal_reply {cfg : Config} {headers : List (Bytes × Bytes)} {reaction : Reaction}
    (h : refusal cfg headers = some reaction) :
    ∃ status replyHeaders, reaction = .reply status replyHeaders none ∧
      status ∈ [400, 404, 405, 414] := by
  simp only [refusal] at h
  split at h
  · cases h
    exact ⟨_, _, rfl, by decide⟩
  · split at h
    · cases h
      exact ⟨_, _, rfl, by decide⟩
    · split at h
      · next reason _ =>
          cases h
          refine ⟨_, _, rfl, ?_⟩
          cases reason <;> decide
      · nomatch h

/-- The event is what some completion of the operation delivers. -/
def Env.yields (env : Env) (op : Op) (event : IoEvent) : Prop :=
  ∃ w completion, env.completes w op completion ∧ op.onDone completion = some event

/-- One open or directory read is outstanding, with the engine or as its event in the
bridge. -/
inductive Outstanding (env : Env) (op : Op) (s : State) : Prop where
  | submitted : s.pending = [op] → s.bridge.events = [] → Outstanding env op s
  | completed {event : IoEvent} : env.yields op event →
      s.pending = [] → s.bridge.events = [event] → Outstanding env op s

/-- An environment that sends no other request headers than those of a run. -/
def Env.sending (env : Env) (actions : List Action) : Env where
  requests headers := ∃ reentry, .requestHeaders headers reentry ∈ actions
  completes := env.completes

/-- The request headers have not come. -/
structure Unasked (s : State) : Prop where
  phase : s.phase = .idle
  active : s.complete = false
  bridge : s.bridge ≠ .closed
  pending : s.pending = []
  events : s.bridge.events = []
  unanswered : s.answer = none

/-- A resolving filter waits for one operation, which is no read. -/
structure Awaiting (env : Env) (data : RequestData) (op : Op) (s : State) : Prop where
  resolving : s.phase.isResolving = true
  active : s.complete = false
  bridge : s.bridge ≠ .closed
  request : s.request = some data
  waker : s.waker = true
  noRead : op.isRead = false
  outstanding : Outstanding env op s
  unanswered : s.answer = none

/-- How far a request has come.  `place` is known of the awaited operation and its
phase, `good` of the reaction that answers. -/
inductive Looking (crates : Crates) (cfg : Config) (env : Env)
    (place : RequestData → Phase → Op → Prop) (good : Reaction → Prop) (s : State) :
    Prop where
  | idle : Unasked s → Looking crates cfg env place good s
  | seeking {data : RequestData} {op : Op} :
      Awaiting env data op s → place data s.phase op → Looking crates cfg env place good s
  | answered {w : State} {reaction : Reaction} {call : Call} :
      Fresh w → good reaction → reaction.answer cfg = some call →
      Moves crates cfg env (reaction.apply cfg w).1 s → s.answer = some call →
      Looking crates cfg env place good s
  | gone : s.complete = true → s.answer = none → Looking crates cfg env place good s

/-- What is awaited after a reaction that does not answer. -/
def Reaction.awaits (cfg : Config) (data : RequestData) (phase : Phase) :
    Reaction → Option (Phase × Op)
  | .seek phase' path ctx => some (phase', .openStat (openRequest cfg (some data) path) ctx)
  | .list path => some (phase, .readDir path)
  | _ => none

/-- What an invariant of the awaited operation has to satisfy: the first open has it,
every reaction keeps it, and every reaction that answers is good. -/
structure LookupRule (crates : Crates) (cfg : Config) (env : Env)
    (place : RequestData → Phase → Op → Prop) (good : Reaction → Prop) : Prop where
  refuse : ∀ headers reaction, env.requests headers →
    refusal cfg headers = some reaction → good reaction
  start : ∀ headers data candidate rest, env.requests headers → refusal cfg headers = none →
    Accepts crates cfg headers data (candidate :: rest) →
    place data (.resolvingFile rest)
      (.openStat (openRequest cfg (some data) candidate.fsPath) candidate.openCtx)
  next : ∀ data phase op event reaction phase' op', phase.isResolving = true →
    place data phase op → env.yields op event →
    react crates cfg data phase event = some reaction →
    reaction.awaits cfg data phase = some (phase', op') → place data phase' op'
  answer : ∀ data phase op event reaction call, phase.isResolving = true →
    place data phase op → env.yields op event →
    react crates cfg data phase event = some reaction →
    reaction.answer cfg = some call → good reaction

section Runs

variable {crates : Crates} {cfg : Config} {env : Env}
  {place : RequestData → Phase → Op → Prop} {good : Reaction → Prop} {s t : State}

theorem run_sending_of_subset {actions all : List Action}
    (hsub : ∀ action ∈ actions, action ∈ all) (hrun : StreamRun crates cfg env s actions t) :
    StreamRun crates cfg (env.sending all) s actions t := by
  apply hrun.mono_of_mem
  intro u action hmem hok
  cases action with
  | requestHeaders headers reentry => exact ⟨reentry, hsub _ hmem⟩
  | _ => exact hok

theorem run_sending {actions : List Action} (hrun : StreamRun crates cfg env s actions t) :
    StreamRun crates cfg (env.sending actions) s actions t :=
  run_sending_of_subset (fun _ hmem => hmem) hrun

/-- Request headers are refused, or lead to the open of the first candidate. -/
theorem onRequestHeaders_cases {headers : List (Bytes × Bytes)}
    (h : onRequestHeaders crates cfg s headers = some t) :
    (∃ reaction call, refusal cfg headers = some reaction ∧
        reaction.answer cfg = some call ∧ t = (reaction.apply cfg s).1) ∨
      ∃ data candidate rest, refusal cfg headers = none ∧
        Accepts crates cfg headers data (candidate :: rest) ∧
        t = { s with request := some data, waker := true,
                     phase := .resolvingFile rest }.submit
          (.openStat (openRequest cfg (some data) candidate.fsPath) candidate.openCtx)
          (.openStat (openRequest cfg (some data) candidate.fsPath)) := by
  rw [onRequestHeaders] at h
  unfold refusal
  dsimp only at h ⊢
  split at h
  · next hmethod =>
      left
      rw [if_pos hmethod]
      cases h
      exact ⟨_, _, rfl, rfl, rfl⟩
  · next hmethod =>
      rw [if_neg hmethod]
      cases hmounted : mountedPath cfg ((RawRequestHeaders.collect headers).path.getD "") with
      | none =>
          left
          rw [hmounted] at h
          cases h
          exact ⟨_, _, rfl, rfl, rfl⟩
      | some rawPath =>
          rw [hmounted] at h
          dsimp only at h ⊢
          cases hresolved : Path.resolveRequestPath rawPath (pathPolicy cfg) with
          | reject reason =>
              left
              rw [hresolved] at h
              cases h
              exact ⟨_, _, rfl, rfl, rfl⟩
          | ok relative trailingSlash =>
              right
              rw [hresolved] at h
              have hne : buildFileCandidates crates cfg relative trailingSlash
                  (RawRequestHeaders.collect headers).acceptEncoding ≠ [] := by
                simp [buildFileCandidates]
              obtain ⟨candidate, rest, hcandidates⟩ := List.exists_cons_of_ne_nil hne
              dsimp only at h
              rw [startResolving] at h
              rw [hcandidates] at h
              cases h
              exact ⟨_, candidate, rest, rfl,
                ⟨rawPath, relative, trailingSlash, hmounted, hresolved, rfl, hcandidates.symm⟩,
                rfl⟩

theorem Outstanding.of_eq {op : Op} (h : Outstanding env op s)
    (hpending : t.pending = s.pending) (hevents : t.bridge.events = s.bridge.events) :
    Outstanding env op t := by
  cases h with
  | submitted hops hbridge => exact .submitted (hpending.trans hops) (hevents.trans hbridge)
  | completed hyields hops hbridge =>
      exact .completed hyields (hpending.trans hops) (hevents.trans hbridge)

/-- The completion of the outstanding operation puts its event into the bridge. -/
theorem Outstanding.complete {op : Op} {index : ℕ} {completion : Completion}
    (h : Outstanding env op s) (hbridge : s.bridge ≠ .closed)
    (hok : ∀ op, s.pending[index]? = some op → env.completes s op completion)
    (hstep : completeOp s index completion = some t) :
    Outstanding env op t ∧ t.bridge ≠ .closed ∧ t.phase = s.phase ∧
      t.request = s.request ∧ t.waker = s.waker ∧ t.complete = s.complete ∧
      t.trace = s.trace := by
  obtain ⟨before, op', after, event, hpending, hget, hevent, rfl⟩ := completeOp_cases hstep
  cases h with
  | completed _ hops _ =>
      rw [hops] at hpending
      exact absurd hpending.symm (by simp)
  | submitted hops hevents =>
      rw [hops] at hpending
      obtain ⟨rfl, hrest⟩ : before = [] ∧ [op] = op' :: after := by
        cases before with
        | nil => exact ⟨rfl, hpending⟩
        | cons first before => simp at hpending
      obtain ⟨rfl, rfl⟩ := List.cons.inj hrest
      obtain ⟨bridge, delivering, heq, ⟨-, hopen, hqueued, -⟩ | ⟨hclosed, -, -⟩⟩ :=
        deliver_eq { s with pending := [] ++ [] } event
      · rw [heq]
        refine ⟨.completed ⟨s, completion, hok op hget, hevent⟩ rfl ?_, hopen, rfl, rfl, rfl, rfl,
          rfl⟩
        rw [hqueued]
        exact congrArg (· ++ [event]) hevents
      · exact absurd hclosed hbridge

/-- The event of an operation that is no read is none of a read. -/
theorem yields_isRead {op : Op} {event : IoEvent} (hread : op.isRead = false)
    (hyields : env.yields op event) : event.isRead = false := by
  obtain ⟨w, completion, -, hevent⟩ := hyields
  cases event with
  | read seq result =>
      obtain ⟨handle, offset, len, rfl, -⟩ := onDone_read hevent
      nomatch hread
  | _ => rfl

/-! ### Reactions by cases -/

/-- The index files that may be looked for next: those that are left, or all of the
requested directory. -/
inductive IndexLeft (crates : Crates) (cfg : Config) (data : RequestData) (phase : Phase) :
    PathBuf → List (PathBuf × String) → Prop where
  | rest {dirFs : PathBuf} {pending : List (PathBuf × String)} :
      phase = .resolvingIndex dirFs pending → IndexLeft crates cfg data phase dirFs pending
  | all : (!data.trailingSlash && cfg.redirectTrailingSlash) = false → cfg.directory ≠ .deny →
      IndexLeft crates cfg data phase (requestDir cfg data)
        (indexCandidates crates cfg (requestDir cfg data))

/-- Everything that an event can lead to. -/
inductive Reacts (crates : Crates) (cfg : Config) (data : RequestData) (phase : Phase) :
    IoEvent → Reaction → Prop where
  | candidate {event : IoEvent} {candidate : Candidate} {rest : List Candidate} :
      phase = .resolvingFile (candidate :: rest) →
      Reacts crates cfg data phase event
        (.seek (.resolvingFile rest) candidate.fsPath candidate.openCtx)
  | index {event : IoEvent} {dirFs fsPath : PathBuf} {contentType : String}
      {rest : List (PathBuf × String)} :
      IndexLeft crates cfg data phase dirFs ((fsPath, contentType) :: rest) →
      Reacts crates cfg data phase event
        (.seek (.resolvingIndex dirFs rest) fsPath ⟨none, contentType, false⟩)
  | list {event : IoEvent} {dirFs : PathBuf} : IndexLeft crates cfg data phase dirFs [] →
      cfg.directory = .listing → Reacts crates cfg data phase event (.list dirFs)
  | missing {event : IoEvent} : Reacts crates cfg data phase event (.reply 404 [] none)
  | redirect {event : IoEvent} : data.trailingSlash = false → cfg.redirectTrailingSlash = true →
      Reacts crates cfg data phase event
        (.reply 301 [("location", urlFor cfg data.relative ++ "/")] none)
  | denied {event : IoEvent} : cfg.directory = .deny →
      Reacts crates cfg data phase event (.reply 403 [] none)
  | failed {event : IoEvent} {error : IoError} :
      Reacts crates cfg data phase event
        (.reply (statusForIoError error.kind error.rawOsError) [] none)
  | page {entries : List DirEntryInfo} {html : Bytes} :
      listingPage crates cfg data entries = some html →
      Reacts crates cfg data phase (.dir (.ok entries))
        (.reply 200 [("content-type", "text/html; charset=utf-8")] (some html))
  | serve {handle : FileHandle} {stat : FileStat} {ctx : OpenCtx} {prefetched : Bytes}
      {plan : ResponsePlan} : stat.isDir = false →
      planResponse crates (requestFacts cfg data stat ctx) (fileMeta stat) = some plan →
      Reacts crates cfg data phase (.opened handle stat ctx prefetched)
        (.serve plan handle prefetched)
  | ignore {event : IoEvent} : event.isRead = true ∨ phase.isResolving = false →
      Reacts crates cfg data phase event .ignore

section ByCases

variable {data : RequestData} {phase : Phase} {event : IoEvent} {reaction : Reaction}

theorem nextIndex_reacts {dirFs : PathBuf} {pending : List (PathBuf × String)}
    (h : IndexLeft crates cfg data phase dirFs pending) :
    Reacts crates cfg data phase event (.nextIndex cfg dirFs pending) := by
  rcases pending with _ | ⟨⟨fsPath, contentType⟩, rest⟩
  · rw [Reaction.nextIndex, Reaction.fallback]
    split
    · next hlisting => exact .list h hlisting
    · exact .missing
    · exact .missing
  · exact .index h

theorem afterMiss_reacts : Reacts crates cfg data phase event (.afterMiss cfg phase) := by
  cases hphase : phase with
  | resolvingFile pending =>
      rcases pending with _ | ⟨candidate, rest⟩
      · exact .missing
      · exact .candidate rfl
  | resolvingIndex dirFs pending => exact nextIndex_reacts (.rest rfl)
  | idle => exact .ignore (Or.inr rfl)
  | streaming st => exact .ignore (Or.inr rfl)
  | done => exact .ignore (Or.inr rfl)

theorem afterError_reacts (error : IoError) :
    Reacts crates cfg data phase event (.afterError cfg error phase) := by
  simp only [Reaction.afterError]
  split
  · exact .failed
  · exact afterMiss_reacts

theorem atDirectory_reacts :
    Reacts crates cfg data phase event (.atDirectory crates cfg data) := by
  rw [Reaction.atDirectory]
  split
  · next hredirect =>
      rw [Bool.and_eq_true, Bool.not_eq_true'] at hredirect
      exact .redirect hredirect.1 hredirect.2
  · next hstay =>
      split
      · next hdeny => exact .denied hdeny
      · next hallowed =>
          exact nextIndex_reacts (.all (Bool.eq_false_iff.mpr hstay) hallowed)

/-- What the filter does with an event is one of the cases. -/
theorem react_cases (h : react crates cfg data phase event = some reaction) :
    Reacts crates cfg data phase event reaction := by
  cases event with
  | opened handle stat ctx prefetched =>
      by_cases hdir : stat.isDir = true
      · rw [react, if_pos hdir] at h
        split at h
        · cases h
          exact afterMiss_reacts
        · cases h
          exact atDirectory_reacts
      · rw [Bool.not_eq_true] at hdir
        rw [react_file hdir] at h
        obtain ⟨plan, hplan, rfl⟩ := Option.map_eq_some_iff.mp h
        exact .serve hdir hplan
  | openError error =>
      cases h
      exact afterError_reacts error
  | dir result =>
      rcases result with error | entries
      · cases h
        exact .failed
      · obtain ⟨html, hpage, rfl⟩ := Option.map_eq_some_iff.mp h
        exact .page hpage
  | read seq result =>
      cases h
      exact .ignore (Or.inl rfl)

/-- Every further open is awaited in a resolving phase. -/
theorem react_resolving {before : Phase} {path : PathBuf} {ctx : OpenCtx}
    (h : react crates cfg data before event = some (.seek phase path ctx)) :
    phase.isResolving = true := by
  cases react_cases h with
  | candidate _ => rfl
  | index _ => rfl

/-- A resolving filter drops no event but that of a read. -/
theorem react_ne_ignore (hresolving : phase.isResolving = true) (hread : event.isRead = false) :
    react crates cfg data phase event ≠ some .ignore := by
  intro h
  cases react_cases h with
  | ignore hdrops =>
      rcases hdrops with hisRead | hidle
      · nomatch hread.symm.trans hisRead
      · nomatch hresolving.symm.trans hidle

/-- Only a regular file that has opened is served, by its plan. -/
theorem react_serve {plan : ResponsePlan} {handle : FileHandle} {prefetched : Bytes}
    (h : react crates cfg data phase event = some (.serve plan handle prefetched)) :
    ∃ stat ctx, event = .opened handle stat ctx prefetched ∧ stat.isDir = false ∧
      planResponse crates (requestFacts cfg data stat ctx) (fileMeta stat) = some plan := by
  cases react_cases h with
  | serve hfile hplan => exact ⟨_, _, rfl, hfile, hplan⟩

end ByCases

/-- A reaction that sends no content. -/
def Reaction.Bare : Reaction → Prop
  | .reply _ _ (some _) => False
  | .serve _ _ _ => False
  | _ => True

section Bare

variable {data : RequestData}

theorem nextCandidate_bare (pending : List Candidate) :
    (Reaction.nextCandidate pending).Bare := by
  cases pending <;> trivial

theorem nextIndex_bare (dirFs : PathBuf) (pending : List (PathBuf × String)) :
    (Reaction.nextIndex cfg dirFs pending).Bare := by
  cases pending with
  | nil =>
      change (Reaction.fallback cfg dirFs).Bare
      rw [Reaction.fallback]
      split <;> trivial
  | cons entry rest => trivial

theorem afterMiss_bare (phase : Phase) : (Reaction.afterMiss cfg phase).Bare := by
  cases phase with
  | resolvingFile pending => exact nextCandidate_bare pending
  | resolvingIndex dirFs pending => exact nextIndex_bare dirFs pending
  | idle => trivial
  | streaming st => trivial
  | done => trivial

theorem afterError_bare (error : IoError) (phase : Phase) :
    (Reaction.afterError cfg error phase).Bare := by
  simp only [Reaction.afterError]
  split
  · trivial
  · exact afterMiss_bare _

theorem atDirectory_bare : (Reaction.atDirectory crates cfg data).Bare := by
  rw [Reaction.atDirectory]
  split
  · trivial
  · split
    · trivial
    · exact nextIndex_bare _ _

end Bare

theorem not_streaming {phase : Phase} (hresolving : phase.isResolving = true) (st : Streaming) :
    phase ≠ .streaming st := by
  rintro rfl
  nomatch hresolving

/-- A reaction without an answer leaves the filter resolving. -/
theorem apply_resolving {data : RequestData} {phase : Phase} {event : IoEvent}
    {reaction : Reaction} (hresolving : s.phase.isResolving = true)
    (hreact : react crates cfg data phase event = some reaction)
    (hanswer : reaction.answer cfg = none) :
    (reaction.apply cfg s).2 = false ∧ (reaction.apply cfg s).1.phase.isResolving = true := by
  cases reaction with
  | seek phase' path ctx => exact ⟨rfl, react_resolving hreact⟩
  | list path => exact ⟨rfl, hresolving⟩
  | ignore => exact ⟨rfl, hresolving⟩
  | reply status headers body => nomatch hanswer
  | serve plan handle prefetched => nomatch hanswer

theorem executePlan_batch (plan : ResponsePlan) (handle : FileHandle) (prefetched : Bytes) :
    (executePlan cfg s plan handle prefetched).1.batch = s.batch := by
  rw [executePlan]
  split
  · exact send_batch _ _
  · rw [beginStreaming]
    split
    · exact send_batch _ _
    · exact send_batch _ _

/-- A reaction takes nothing from the batch. -/
theorem apply_batch (reaction : Reaction) : (reaction.apply cfg s).1.batch = s.batch := by
  cases reaction with
  | seek phase path ctx => rfl
  | list path => rfl
  | reply status headers body => exact send_batch _ _
  | serve plan handle prefetched => exact executePlan_batch plan handle prefetched
  | ignore => rfl

/-- The cells of the filter when it handles the events of the bridge. -/
def State.drained (s : State) : State :=
  { s with bridge := .empty, batch := [] }

/-- `on_scheduled` carries out the reaction to the only event in the bridge and, if a
body is streamed, pumps. -/
theorem onScheduled_eq {data : RequestData} {event : IoEvent}
    (hresolving : s.phase.isResolving = true) (hwaker : s.waker = true)
    (hrequest : s.request = some data) (hevents : s.bridge.events = [event]) :
    onScheduled crates cfg s =
      (react crates cfg data s.phase event).bind fun reaction =>
        let (u, ended) := reaction.apply cfg s.drained
        if ended then some u
        else
          match u.phase with
          | .streaming _ => pump cfg u
          | _ => some u := by
  have hevent : handleEvent crates cfg { s with bridge := .empty, batch := [] } event =
      (react crates cfg data s.phase event).map fun reaction =>
        reaction.apply cfg s.drained :=
    @handleEvent_react crates cfg data s.drained hresolving hwaker hrequest event
  rw [onScheduled]
  simp only [EventBridge.process_fst, EventBridge.process_snd, hevents, handleBatch]
  rw [hevent]
  cases react crates cfg data s.phase event with
  | none => rfl
  | some reaction =>
      have hbatch := @apply_batch cfg s.drained reaction
      rw [Option.map_some, Option.bind_some]
      generalize reaction.apply cfg s.drained = result at hbatch
      obtain ⟨u, ended⟩ := result
      cases ended with
      | true =>
          have hsame : ({ u with batch := [] } : State) = u := by
            rw [show ([] : List IoEvent) = u.batch from hbatch.symm]
          exact congrArg some hsame
      | false => rfl

/-- `on_scheduled` carries out the reaction to the only event in the bridge. -/
theorem onScheduled_react {data : RequestData} {event : IoEvent}
    (hresolving : s.phase.isResolving = true) (hwaker : s.waker = true)
    (hrequest : s.request = some data) (hevents : s.bridge.events = [event])
    (h : onScheduled crates cfg s = some t) :
    ∃ reaction, react crates cfg data s.phase event = some reaction ∧
      Moves crates cfg env (reaction.apply cfg s.drained).1 t ∧
      (reaction.answer cfg = none → t = (reaction.apply cfg s.drained).1) := by
  rw [onScheduled_eq hresolving hwaker hrequest hevents] at h
  obtain ⟨reaction, hreact, h⟩ := Option.bind_eq_some_iff.mp h
  refine ⟨reaction, hreact, ?_⟩
  have hgoes : reaction.answer cfg = none → (reaction.apply cfg s.drained).2 = false ∧
      (reaction.apply cfg s.drained).1.phase.isResolving = true :=
    apply_resolving hresolving hreact
  generalize reaction.apply cfg s.drained = result at h hgoes ⊢
  obtain ⟨u, ended⟩ := result
  dsimp only at h hgoes ⊢
  split at h
  · cases h
    exact ⟨.refl, fun _ => rfl⟩
  · split at h
    · next st hphase =>
        obtain ⟨hmoves, -⟩ : Moves crates cfg env u t ∧ _ := pump_moves h
        refine ⟨hmoves, ?_⟩
        intro hanswer
        exact absurd hphase (not_streaming (hgoes hanswer).2 st)
    · cases h
      exact ⟨.refl, fun _ => rfl⟩

/-- A filter that has sent nothing, and to which nothing is outstanding. -/
theorem fresh_of_waiting (hobeys : Obeys s) (hstage : s.phase.stage = .waiting)
    (hpending : t.pending = []) (hevents : t.bridge.events = []) (hbridge : t.bridge ≠ .closed)
    (hbatch : t.batch = []) (hactive : t.complete = false) (htrace : t.trace = s.trace) :
    Fresh t := by
  refine ⟨hpending, hevents, hbridge, hbatch, hactive, ?_⟩
  rw [Obeys] at hobeys
  rw [hstage, ← htrace] at hobeys
  exact dataSends_of_waiting hobeys

/-- The next operation is awaited where nothing else is outstanding. -/
theorem awaiting_submit {data : RequestData} {op : Op} {call : Call}
    (hresolving : s.phase.isResolving = true) (hactive : s.complete = false)
    (hbridge : s.bridge ≠ .closed) (hrequest : s.request = some data) (hwaker : s.waker = true)
    (hread : op.isRead = false) (hpending : s.pending = []) (hevents : s.bridge.events = [])
    (hnone : s.answer = none) (hcall : call.startsResponse = false) :
    Awaiting env data op (s.submit op call) where
  resolving := hresolving
  active := hactive
  bridge := hbridge
  request := hrequest
  waker := hwaker
  noRead := hread
  outstanding := .submitted (congrArg (· ++ [op]) hpending) hevents
  unanswered := answer_of_submit hnone hcall rfl

/-- What a reaction without an answer leads to: another operation is awaited. -/
theorem awaiting_apply {data : RequestData} {op : Op} {event : IoEvent} {reaction : Reaction}
    (h : Awaiting env data op s) (hpending : s.pending = []) (hyields : env.yields op event)
    (hreact : react crates cfg data s.phase event = some reaction)
    (hanswer : reaction.answer cfg = none) :
    ∃ next, reaction.awaits cfg data s.phase =
        some ((reaction.apply cfg s.drained).1.phase, next) ∧
      Awaiting env data next (reaction.apply cfg s.drained).1 := by
  cases reaction with
  | seek phase path ctx =>
      refine ⟨_, rfl, ?_⟩
      rw [← h.request]
      exact @awaiting_submit env (s.drained.setPhase phase) data _ _ (react_resolving hreact)
        h.active nofun h.request h.waker rfl hpending rfl h.unanswered rfl
  | list path =>
      refine ⟨_, rfl, ?_⟩
      exact @awaiting_submit env s.drained data _ _ h.resolving h.active nofun h.request
        h.waker rfl hpending rfl h.unanswered rfl
  | ignore =>
      exact absurd hreact (react_ne_ignore h.resolving (yields_isRead h.noRead hyields))
  | reply status headers body => nomatch hanswer
  | serve plan handle prefetched => nomatch hanswer

/-- The step of `on_scheduled` while an operation is outstanding. -/
theorem awaiting_scheduled (hrule : LookupRule crates cfg env place good)
    {data : RequestData} {op : Op} (hobeys : Obeys s) (h : Awaiting env data op s)
    (hplace : place data s.phase op) (hstep : onScheduled crates cfg s = some t) :
    Looking crates cfg env place good t := by
  cases h.outstanding with
  | submitted hpending hevents =>
      -- Nothing has arrived yet: the bridge is drained in vain.
      rw [onScheduled] at hstep
      simp only [EventBridge.process_fst, EventBridge.process_snd, hevents, handleBatch] at hstep
      split at hstep
      · next st hphase => exact absurd hphase (not_streaming h.resolving st)
      · cases hstep
        exact .seeking ⟨h.resolving, h.active, by simp, h.request, h.waker, h.noRead,
          .submitted hpending rfl, h.unanswered⟩ hplace
  | @completed event hyields hpending hevents =>
      obtain ⟨reaction, hreact, hmoves, happlies⟩ :=
        @onScheduled_react crates cfg env s t data event h.resolving h.waker h.request hevents
          hstep
      cases hanswer : reaction.answer cfg with
      | some call =>
          refine .answered ?_ ?_ hanswer hmoves ?_
          · exact fresh_of_waiting hobeys (stage_of_resolving h.resolving) hpending rfl
              (by simp [State.drained])
              rfl h.active rfl
          · exact hrule.answer data s.phase op event reaction call h.resolving hplace hyields
              hreact hanswer
          · exact answer_of_apply h.unanswered hanswer (moves_trace hmoves) rfl
      | none =>
          obtain ⟨next, hnext, hawaiting⟩ := awaiting_apply h hpending hyields hreact hanswer
          rw [happlies hanswer]
          exact .seeking hawaiting (hrule.next data s.phase op event reaction _ _ h.resolving
            hplace hyields hreact hnext)

/-- Outside a stream a hook is only recorded. -/
theorem onHook_unstreamed (hphase : s.phase.isStreaming = false) (hook : Hook) :
    ∃ commits, s.onHook hook = { s with commits, trace := s.trace ++ [.hook hook] } := by
  obtain ⟨depth, commits, -, heq⟩ := onHook_eq s hook
  have hsame : s.phase.withDepth depth = s.phase := by
    cases hcases : s.phase with
    | streaming st =>
        rw [hcases] at hphase
        nomatch hphase
    | _ => rfl
  exact ⟨commits, by rw [heq, hsame]⟩

/-- After the stream is complete nothing is sent. -/
theorem step_gone {action : Action} (hcomplete : s.complete = true)
    (h : step crates cfg s action = some t) : t.complete = true ∧ t.trace = s.trace := by
  cases action with
  | requestHeaders headers reentry => simp [step, hcomplete] at h
  | complete index completion =>
      obtain ⟨before, op, after, event, -, -, -, rfl⟩ := completeOp_cases h
      exact ⟨(deliver_complete _ _).trans hcomplete, deliver_trace _ _⟩
  | commit =>
      simp only [step] at h
      split at h
      · cases h
      · cases h
        exact ⟨hcomplete, rfl⟩
  | scheduled reentry => simp [step, hcomplete] at h
  | hook hook => simp [step, hcomplete] at h
  | streamComplete => simp [step, hcomplete] at h

theorem gone_step {action : Action} (hcomplete : s.complete = true) (hnone : s.answer = none)
    (h : step crates cfg s action = some t) : Looking crates cfg env place good t := by
  obtain ⟨hgone, htrace⟩ := step_gone hcomplete h
  refine .gone hgone ?_
  rw [State.answer]
  rw [htrace]
  exact hnone

theorem unasked_step (hrule : LookupRule crates cfg env place good) {action : Action}
    (hobeys : Obeys s) (hbatch : s.batch = []) (h : Unasked s)
    (hok : env.allows s action) (hstep : step crates cfg s action = some t) :
    Looking crates cfg env place good t := by
  have hactive := h.active
  cases action with
  | requestHeaders headers reentry =>
      simp only [step, h.phase, hactive] at hstep
      rcases onRequestHeaders_cases hstep with
        ⟨reaction, call, hrefusal, hanswer, ht⟩ |
          ⟨data, candidate, rest, hnone, haccepts, rfl⟩
      · rw [ht]
        refine .answered ?_ (hrule.refuse headers reaction hok hrefusal) hanswer .refl ?_
        · exact fresh_of_waiting hobeys (by rw [h.phase]; rfl) h.pending h.events h.bridge
            hbatch rfl rfl
        · exact answer_of_apply h.unanswered hanswer List.prefix_rfl rfl
      · refine .seeking ?_ (hrule.start headers data candidate rest hok hnone haccepts)
        exact @awaiting_submit env
          { s with request := some data, waker := true, phase := .resolvingFile rest, reentry,
                   complete := false } data _ _
          rfl rfl h.bridge rfl rfl rfl h.pending h.events h.unanswered rfl
  | complete index completion =>
      obtain ⟨before, op, after, event, hsplit, -⟩ := completeOp_cases hstep
      rw [h.pending] at hsplit
      exact absurd hsplit.symm (by simp)
  | commit =>
      simp only [step] at hstep
      split at hstep
      · cases hstep
      · cases hstep
        exact .idle ⟨h.phase, hactive, h.bridge, h.pending, h.events, h.unanswered⟩
  | scheduled reentry =>
      simp only [step, hactive, Bool.false_eq_true, if_false] at hstep
      rw [onScheduled] at hstep
      simp only [EventBridge.process_fst, EventBridge.process_snd, h.events, handleBatch,
        h.phase] at hstep
      cases hstep
      exact .idle ⟨rfl, rfl, by simp, h.pending, rfl, h.unanswered⟩
  | hook hook =>
      simp only [step, hactive, Bool.false_eq_true, if_false] at hstep
      obtain ⟨commits, heq⟩ := onHook_unstreamed (by rw [h.phase]; rfl) hook
      rw [heq] at hstep
      cases hstep
      exact .idle ⟨h.phase, hactive, h.bridge, h.pending, h.events,
        answer_of_hook h.unanswered rfl⟩
  | streamComplete =>
      simp only [step, hactive, Bool.false_eq_true, if_false] at hstep
      cases hstep
      exact .gone rfl h.unanswered

theorem awaiting_step (hrule : LookupRule crates cfg env place good) {action : Action}
    {data : RequestData} {op : Op} (hobeys : Obeys s) (h : Awaiting env data op s)
    (hplace : place data s.phase op) (hok : env.allows s action)
    (hstep : step crates cfg s action = some t) : Looking crates cfg env place good t := by
  have hactive := h.active
  cases action with
  | requestHeaders headers reentry =>
      simp only [step] at hstep
      split at hstep
      · next hphase _ =>
          have hresolving := h.resolving
          rw [hphase] at hresolving
          cases hresolving
      · cases hstep
  | complete index completion =>
      obtain ⟨hout, hopen, hphase, hrequest, hwaker, hcomplete, htrace⟩ :=
        h.outstanding.complete h.bridge hok hstep
      refine .seeking ⟨hphase ▸ h.resolving, hcomplete.trans hactive, hopen,
        hrequest.trans h.request, hwaker.trans h.waker, h.noRead, hout, ?_⟩ (hphase ▸ hplace)
      rw [State.answer]
      rw [htrace]
      exact h.unanswered
  | commit =>
      simp only [step] at hstep
      split at hstep
      · cases hstep
      · cases hstep
        exact .seeking ⟨h.resolving, hactive, h.bridge, h.request, h.waker, h.noRead,
          h.outstanding.of_eq rfl rfl, h.unanswered⟩ hplace
  | scheduled reentry =>
      simp only [step, hactive, Bool.false_eq_true, if_false] at hstep
      have hawaiting : Awaiting env data op
          { s with reentry, commits := s.commits - 1, complete := false } :=
        ⟨h.resolving, rfl, h.bridge, h.request, h.waker, h.noRead, h.outstanding.of_eq rfl rfl,
          h.unanswered⟩
      refine awaiting_scheduled hrule ?_ hawaiting hplace hstep
      exact hobeys
  | hook hook =>
      simp only [step, hactive, Bool.false_eq_true, if_false] at hstep
      obtain ⟨commits, heq⟩ := onHook_unstreamed (not_streaming_of_resolving h.resolving) hook
      rw [heq] at hstep
      cases hstep
      exact .seeking ⟨h.resolving, hactive, h.bridge, h.request, h.waker, h.noRead,
        h.outstanding.of_eq rfl rfl, answer_of_hook h.unanswered rfl⟩ hplace
  | streamComplete =>
      simp only [step, hactive, Bool.false_eq_true, if_false] at hstep
      cases hstep
      exact .gone rfl h.unanswered

theorem looking_step (hrule : LookupRule crates cfg env place good) {action : Action}
    (hlooking : Looking crates cfg env place good s) (hobeys : Obeys s) (hbatch : s.batch = [])
    (hok : env.allows s action) (h : step crates cfg s action = some t) :
    Looking crates cfg env place good t := by
  cases hlooking with
  | idle hunasked => exact unasked_step hrule hobeys hbatch hunasked hok h
  | seeking hawaiting hplace => exact awaiting_step hrule hobeys hawaiting hplace hok h
  | answered hfresh hgood hreaction hmoves hanswer =>
      have hnext : Moves crates cfg env s t := (step_moves hbatch hok h).1
      exact .answered hfresh hgood hreaction (hmoves.trans hnext)
        (answer_of_trace (moves_trace hnext) hanswer)
  | gone hcomplete hnone => exact gone_step hcomplete hnone h

/-- Along every run, what the rule's invariant says of the awaited operation decides
how the request is answered. -/
theorem lookup_rule (hrule : LookupRule crates cfg env place good) {actions : List Action}
    (hrun : StreamRun crates cfg env State.initial actions s) :
    Looking crates cfg env place good s := by
  have hinvariant : Looking crates cfg env place good s ∧
      (Accounted cfg s ∧ Obeys s) ∧ s.batch = [] := by
    refine hrun.invariant (I := fun s => Looking crates cfg env place good s ∧
      (Accounted cfg s ∧ Obeys s) ∧ s.batch = []) ?_ ?_
    · exact ⟨.idle ⟨rfl, rfl, nofun, rfl, rfl, rfl⟩,
        ⟨accounted_initial cfg, Transition.Run.nil _⟩, rfl⟩
    · rintro u action v ⟨hlooking, hprotocol, hbatch⟩ hok hnext
      obtain ⟨hmoves, hempty⟩ := step_moves hbatch hok hnext
      refine ⟨looking_step hrule hlooking hprotocol.2 hbatch hok hnext, ?_, hempty⟩
      refine Transition.closure_invariant (I := fun s => Accounted cfg s ∧ Obeys s) hmoves ?_
        hprotocol
      rintro w x hmove ⟨haccount, hobeys⟩
      exact ⟨accounted_move hmove haccount, obeys_move hmove haccount hobeys⟩
  exact hinvariant.1

/-- An answer comes from a good reaction, and the filter has gone on from there. -/
theorem Looking.answer_good (h : Looking crates cfg env place good s) {call : Call}
    (hanswer : s.answer = some call) :
    ∃ w reaction, Fresh w ∧ good reaction ∧ reaction.answer cfg = some call ∧
      Moves crates cfg env (reaction.apply cfg w).1 s := by
  cases h with
  | idle hunasked => cases hunasked.unanswered.symm.trans hanswer
  | seeking hawaiting _ => cases hawaiting.unanswered.symm.trans hanswer
  | answered hfresh hgood hreaction hmoves hanswer' =>
      cases hanswer'.symm.trans hanswer
      exact ⟨_, _, hfresh, hgood, hreaction, hmoves⟩
  | gone _ hnone => cases hnone.symm.trans hanswer

end Runs

/-! ## Progress -/

/-- What makes every lookup end: the engine completes what is awaited, every completion has
a reaction, and what is awaited next is of lower rank. -/
structure LookupRank (crates : Crates) (cfg : Config) (env : Env)
    (place : RequestData → Phase → Op → Prop) (rank : Phase → Op → ℕ) : Prop where
  requests : ∃ headers, env.requests headers
  completes : ∀ data phase op, place data phase op → ∃ completion event,
    (∀ w, env.completes w op completion) ∧ op.onDone completion = some event
  reacts : ∀ data phase op event, phase.isResolving = true → place data phase op →
    env.yields op event → ∃ reaction, react crates cfg data phase event = some reaction
  decreases : ∀ data phase op event reaction phase' op', phase.isResolving = true →
    place data phase op → env.yields op event →
    react crates cfg data phase event = some reaction →
    reaction.awaits cfg data phase = some (phase', op') → rank phase' op' < rank phase op

section Progress

variable {crates : Crates} {cfg : Config} {env : Env}
  {place : RequestData → Phase → Op → Prop} {good : Reaction → Prop}
  {rank : Phase → Op → ℕ} {s t : State}

theorem step_scheduled (hactive : s.complete = false) (reentry : List (List Hook)) :
    step crates cfg s (.scheduled reentry) =
      onScheduled crates cfg { s with reentry, commits := s.commits - 1 } := by
  apply if_neg
  rw [hactive]
  nofun

theorem completeOp_eq {op : Op} {index : ℕ} {completion : Completion} {event : IoEvent}
    (hget : s.pending[index]? = some op) (hevent : op.onDone completion = some event) :
    completeOp s index completion =
      some (deliver { s with pending := s.pending.eraseIdx index } event) := by
  rw [completeOp]
  rw [hget, Option.bind_eq_bind, Option.bind_some, hevent]
  rfl

theorem flush_waker (fuel : ℕ) (s : State) : (flush fuel s).1.waker = s.waker := by
  induction fuel generalizing s with
  | zero => rfl
  | succ fuel ih =>
      rw [flush]
      split
      · split
        · split
          · dsimp only
            split
            · exact send_waker _ _
            · rw [ih, send_waker]
              rfl
          · rfl
        · rfl
      · rfl

/-- A pump with a waker does not panic. -/
theorem pump_isSome (hwaker : s.waker = true) : ∃ t, pump cfg s = some t := by
  have hflush := flush_waker (flushFuel s) s
  rw [pump]
  generalize flush (flushFuel s) s = result at hflush
  obtain ⟨u, goes⟩ := result
  cases goes with
  | false => exact ⟨u, rfl⟩
  | true =>
      have hu : u.waker = true := hflush.trans hwaker
      dsimp only
      rw [issueReads]
      rw [if_pos hu]
      split <;> exact ⟨_, rfl⟩

theorem executePlan_waker (plan : ResponsePlan) (handle : FileHandle) (prefetched : Bytes) :
    (executePlan cfg s plan handle prefetched).1.waker = s.waker := by
  rw [executePlan]
  split
  · exact send_waker _ _
  · rw [beginStreaming]
    split
    · exact send_waker _ _
    · exact send_waker _ _

theorem apply_waker (reaction : Reaction) : (reaction.apply cfg s).1.waker = s.waker := by
  cases reaction with
  | seek phase path ctx => rfl
  | list path => rfl
  | reply status headers body => exact send_waker _ _
  | serve plan handle prefetched => exact executePlan_waker plan handle prefetched
  | ignore => rfl

/-- Where the event has a reaction, `on_scheduled` carries it out. -/
theorem onScheduled_isSome {data : RequestData} {event : IoEvent} {reaction : Reaction}
    (hresolving : s.phase.isResolving = true) (hwaker : s.waker = true)
    (hrequest : s.request = some data) (hevents : s.bridge.events = [event])
    (hreact : react crates cfg data s.phase event = some reaction) :
    ∃ t, onScheduled crates cfg s = some t := by
  rw [onScheduled_eq hresolving hwaker hrequest hevents, hreact, Option.bind_some]
  have happly : (reaction.apply cfg s.drained).1.waker = true :=
    (apply_waker reaction).trans hwaker
  generalize reaction.apply cfg s.drained = result at happly
  obtain ⟨u, ended⟩ := result
  dsimp only
  split
  · exact ⟨u, rfl⟩
  · split
    · exact pump_isSome happly
    · exact ⟨u, rfl⟩

theorem onRequestHeaders_isSome (headers : List (Bytes × Bytes)) :
    ∃ t, onRequestHeaders crates cfg s headers = some t := by
  unfold onRequestHeaders
  dsimp only
  split
  · exact ⟨_, rfl⟩
  · split
    · exact ⟨_, rfl⟩
    · split
      · exact ⟨_, rfl⟩
      · next relative trailingSlash _ =>
          have hne : buildFileCandidates crates cfg relative trailingSlash
              (RawRequestHeaders.collect headers).acceptEncoding ≠ [] := by
            simp [buildFileCandidates]
          obtain ⟨candidate, rest, hcandidates⟩ := List.exists_cons_of_ne_nil hne
          rw [startResolving]
          rw [hcandidates]
          exact ⟨_, rfl⟩

/-- What is awaited can complete. -/
theorem awaiting_complete {data : RequestData} {op : Op} {completion : Completion}
    {event : IoEvent} (h : Awaiting env data op s) (hpending : s.pending = [op])
    (hok : env.completes s op completion) (hevent : op.onDone completion = some event) :
    ∃ action t, env.allows s action ∧ step crates cfg s action = some t ∧
      Awaiting env data op t ∧ t.phase = s.phase ∧ t.pending = [] := by
  have hget : s.pending[0]? = some op := by rw [hpending]; rfl
  have hallowed : ∀ op', s.pending[0]? = some op' → env.completes s op' completion := by
    intro op' hop'
    cases hget.symm.trans hop'
    exact hok
  have hstep : completeOp s 0 completion = some (deliver { s with pending := [] } event) := by
    rw [completeOp_eq hget hevent, hpending]
    rfl
  obtain ⟨hout, hopen, hphase, hrequest, hwaker, hcomplete, htrace⟩ :=
    h.outstanding.complete h.bridge hallowed hstep
  have hrest : (deliver { s with pending := [] } event).pending = [] := by
    rw [deliver]
    split <;> rfl
  refine ⟨.complete 0 completion, _, hallowed, hstep, ?_, hphase, hrest⟩
  refine ⟨?_, hcomplete.trans h.active, hopen, hrequest.trans h.request,
    hwaker.trans h.waker, h.noRead, hout, ?_⟩
  · rw [hphase]
    exact h.resolving
  · rw [State.answer]
    rw [htrace]
    exact h.unanswered

/-- Where the event that has arrived has a reaction, `on_scheduled` carries it out. -/
theorem awaiting_reacts {data : RequestData} {op : Op} {event : IoEvent} {reaction : Reaction}
    (h : Awaiting env data op s) (hevents : s.bridge.events = [event])
    (hreact : react crates cfg data s.phase event = some reaction) :
    ∃ t, step crates cfg s (.scheduled []) = some t ∧
      (∀ call, reaction.answer cfg = some call → t.answer = some call) ∧
      (reaction.answer cfg = none → t = (reaction.apply cfg
        { s with reentry := [], commits := s.commits - 1 }.drained).1) := by
  obtain ⟨t, ht⟩ := @onScheduled_isSome crates cfg
    { s with reentry := [], commits := s.commits - 1 } data event reaction h.resolving h.waker
    h.request hevents hreact
  obtain ⟨reaction', hreact', hmoves, happlies⟩ :=
    @onScheduled_react crates cfg env { s with reentry := [], commits := s.commits - 1 } t data
      event h.resolving h.waker h.request hevents ht
  cases hreact.symm.trans hreact'
  refine ⟨t, (step_scheduled h.active []).trans ht, ?_, happlies⟩
  intro call hanswer
  exact answer_of_apply h.unanswered hanswer (moves_trace hmoves) rfl

/-- Where it has no reaction, `on_scheduled` panics. -/
theorem awaiting_panics {data : RequestData} {op : Op} {event : IoEvent}
    (h : Awaiting env data op s) (hevents : s.bridge.events = [event])
    (hreact : react crates cfg data s.phase event = none) :
    step crates cfg s (.scheduled []) = none := by
  have hreact' : react crates cfg data
      ({ s with reentry := [], commits := s.commits - 1 } : State).phase event = none := hreact
  rw [step_scheduled h.active, @onScheduled_eq crates cfg
    { s with reentry := [], commits := s.commits - 1 } data event h.resolving h.waker h.request
    hevents, hreact']
  rfl

/-- What has completed is answered, or something of lower rank is awaited. -/
theorem awaiting_react (hrule : LookupRule crates cfg env place good)
    (hrank : LookupRank crates cfg env place rank)
    {data : RequestData} {op : Op} (h : Awaiting env data op s) (hplace : place data s.phase op)
    (hpending : s.pending = []) :
    ∃ t, step crates cfg s (.scheduled []) = some t ∧ ((∃ call, t.answer = some call) ∨
      ∃ next, Awaiting env data next t ∧ place data t.phase next ∧
        rank t.phase next < rank s.phase op) := by
  cases h.outstanding with
  | submitted hops _ => exact absurd (hops.symm.trans hpending) (by simp)
  | @completed event hyields _ hevents =>
      obtain ⟨reaction, hreact⟩ := hrank.reacts data s.phase op event h.resolving hplace hyields
      obtain ⟨t, hstep, hanswers, happlies⟩ := awaiting_reacts h hevents hreact
      refine ⟨t, hstep, ?_⟩
      cases hanswer : reaction.answer cfg with
      | some call => exact Or.inl ⟨call, hanswers call hanswer⟩
      | none =>
          have hawaiting : Awaiting env data op
              { s with reentry := [], commits := s.commits - 1 } :=
            ⟨h.resolving, h.active, h.bridge, h.request, h.waker, h.noRead,
              h.outstanding.of_eq rfl rfl, h.unanswered⟩
          obtain ⟨next, hnext, hthen⟩ :=
            awaiting_apply hawaiting hpending hyields hreact hanswer
          rw [happlies hanswer]
          refine Or.inr ⟨next, hthen, ?_, ?_⟩
          · exact hrule.next data s.phase op event reaction _ _ h.resolving hplace hyields
              hreact hnext
          · exact hrank.decreases data s.phase op event reaction _ _ h.resolving hplace hyields
              hreact hnext

theorem awaiting_reaches (hrule : LookupRule crates cfg env place good)
    (hrank : LookupRank crates cfg env place rank)
    {data : RequestData} {op : Op} (h : Awaiting env data op s)
    (hplace : place data s.phase op) :
    ∃ actions t call, StreamRun crates cfg env s actions t ∧ t.answer = some call := by
  induction hn : rank s.phase op using Nat.strongRecOn generalizing s op with
  | ind n ih =>
      -- Once the operation has completed, `on_scheduled` reacts to it.
      have hcompleted : ∀ u, Awaiting env data op u → u.phase = s.phase → u.pending = [] →
          ∃ actions t call, StreamRun crates cfg env u actions t ∧ t.answer = some call := by
        intro u hu hphase hpending
        obtain ⟨t, hstep, ⟨call, hanswer⟩ | ⟨next, hnext, hplace', hless⟩⟩ :=
          awaiting_react hrule hrank hu (hphase ▸ hplace) hpending
        · exact ⟨[.scheduled []], t, call, .single trivial hstep, hanswer⟩
        · rw [hphase, hn] at hless
          obtain ⟨actions, v, call, hrun, hanswer⟩ := ih _ hless hnext hplace' rfl
          exact ⟨.scheduled [] :: actions, v, call, .cons trivial hstep hrun, hanswer⟩
      cases h.outstanding with
      | submitted hpending _ =>
          obtain ⟨completion, event, hok, hevent⟩ := hrank.completes data s.phase op hplace
          obtain ⟨action, u, hok, hstep, hu, hphase, hrest⟩ :=
            awaiting_complete h hpending (hok s) hevent
          obtain ⟨actions, t, call, hrun, hanswer⟩ := hcompleted u hu hphase hrest
          exact ⟨action :: actions, t, call, .cons hok hstep hrun, hanswer⟩
      | completed _ hpending _ => exact hcompleted s h rfl hpending

/-- A request that arrives is refused, or awaits the open of its first candidate. -/
theorem unasked_request (h : Unasked s) (headers : List (Bytes × Bytes)) :
    ∃ t, step crates cfg s (.requestHeaders headers []) = some t ∧
      ((∃ reaction call, refusal cfg headers = some reaction ∧ reaction.answer cfg = some call ∧
          t.answer = some call) ∨
        ∃ data candidate rest, refusal cfg headers = none ∧
          Accepts crates cfg headers data (candidate :: rest) ∧
          t.phase = .resolvingFile rest ∧ Awaiting env data (.openStat
            (openRequest cfg (some data) candidate.fsPath) candidate.openCtx) t ∧
          t.pending = [.openStat (openRequest cfg (some data) candidate.fsPath)
            candidate.openCtx]) := by
  obtain ⟨t, ht⟩ := @onRequestHeaders_isSome crates cfg
    { s with phase := .idle, reentry := [], complete := false } headers
  have hstep : step crates cfg s (.requestHeaders headers []) = some t := by
    simp only [step, h.phase, h.active]
    exact ht
  refine ⟨t, hstep, ?_⟩
  rcases onRequestHeaders_cases ht with
    ⟨reaction, call, hrefusal, hanswer, rfl⟩ | ⟨data, candidate, rest, hnone, haccepts, rfl⟩
  · exact Or.inl ⟨reaction, call, hrefusal, hanswer,
      answer_of_apply h.unanswered hanswer List.prefix_rfl rfl⟩
  · refine Or.inr ⟨data, candidate, rest, hnone, haccepts, rfl, ?_, ?_⟩
    · exact @awaiting_submit env
        { s with request := some data, waker := true, phase := .resolvingFile rest,
                 reentry := [], complete := false } data
        (.openStat (openRequest cfg (some data) candidate.fsPath) candidate.openCtx)
        (.openStat (openRequest cfg (some data) candidate.fsPath))
        rfl rfl h.bridge rfl rfl rfl h.pending h.events h.unanswered rfl
    · exact congrArg (· ++ [Op.openStat (openRequest cfg (some data) candidate.fsPath)
        candidate.openCtx]) h.pending

/-- Every lookup that has not been given up can go on to an answer. -/
theorem lookup_reaches (hrule : LookupRule crates cfg env place good)
    (hrank : LookupRank crates cfg env place rank) {actions : List Action}
    (hrun : StreamRun crates cfg env State.initial actions s) (hactive : s.complete = false) :
    ∃ more t call, StreamRun crates cfg env s more t ∧ t.answer = some call := by
  cases lookup_rule hrule hrun with
  | idle h =>
      obtain ⟨headers, hrequests⟩ := hrank.requests
      obtain ⟨t, hstep, ⟨reaction, call, -, -, hanswer⟩ |
        ⟨data, candidate, rest, hnone, haccepts, hphase, hawaiting, -⟩⟩ :=
        @unasked_request crates cfg env s h headers
      · exact ⟨[.requestHeaders headers []], t, call, .single hrequests hstep, hanswer⟩
      · have hplace := hrule.start headers data candidate rest hrequests hnone haccepts
        rw [← hphase] at hplace
        obtain ⟨more, u, call, hrest, hanswer⟩ := awaiting_reaches hrule hrank hawaiting hplace
        exact ⟨.requestHeaders headers [] :: more, u, call, .cons hrequests hstep hrest, hanswer⟩
  | seeking h hplace => exact awaiting_reaches hrule hrank h hplace
  | @answered _ _ call _ _ _ _ hanswer => exact ⟨[], s, call, .nil s, hanswer⟩
  | gone hcomplete _ => cases hactive.symm.trans hcomplete

end Progress

end EnvoyFiles.Filter
