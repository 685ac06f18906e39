import EnvoyFiles.Filter.Step

/-!
# The moves a callback is made of

A callback drains the bridge, handles each event and pumps; a handler has one
effect, followed by the hooks its send fires.  `Move` lists these effects with
the conditions under which the code has them.  Every action is a sequence of
moves, so an invariant is checked against the moves and not against the
callbacks.
-/

namespace EnvoyFiles.Filter

/-- Completions of reads, the only events a streaming filter waits for. -/
def IoEvent.isRead : IoEvent → Bool
  | .read _ _ => true
  | _ => false

def Op.isRead : Op → Bool
  | .read _ _ _ _ => true
  | _ => false

def Phase.isResolving : Phase → Bool
  | .resolvingFile _ => true
  | .resolvingIndex _ _ => true
  | _ => false

def Phase.isStreaming : Phase → Bool
  | .streaming _ => true
  | _ => false

theorem not_streaming_of_resolving {phase : Phase}
    (h : phase.isResolving = true) : phase.isStreaming = false := by
  cases phase with
  | streaming st => cases h
  | _ => rfl

/-- What stays in a list when an element is taken out was there before. -/
theorem mem_of_mem_rest {α : Type} {before after list : List α} {element other : α}
    (hlist : list = before ++ element :: after) (hother : other ∈ before ++ after) :
    other ∈ list := by
  rw [hlist]
  rcases List.mem_append.mp hother with hbefore | hafter
  · exact List.mem_append_left _ hbefore
  · exact List.mem_append_right _ (List.mem_cons_of_mem _ hafter)

/-- The events that wait while an event of the batch is handled. -/
theorem mem_events_of_rest {s : State} {event other : IoEvent} {rest : List IoEvent}
    (hbatch : s.batch = event :: rest) (hother : other ∈ s.bridge.events ++ rest) :
    other ∈ s.bridge.events ++ s.batch := by
  rw [hbatch]
  exact mem_of_mem_rest rfl hother

/-- Open events after which the next candidate is tried. -/
def IoEvent.isMiss : IoEvent → Bool
  | .opened _ stat ctx _ => stat.isDir && ctx.encoding.isSome
  | .openError _ => true
  | _ => false

/-- The request headers lead to a resolution: the request data that is kept and
the candidates that are tried. -/
def Accepts (crates : Crates) (cfg : Config) (headers : List (Bytes × Bytes))
    (data : RequestData) (candidates : List Candidate) : Prop :=
  let raw := RawRequestHeaders.collect headers
  ∃ rawPath relative trailingSlash,
    mountedPath cfg (raw.path.getD "") = some rawPath ∧
      Path.resolveRequestPath rawPath (pathPolicy cfg) =
        .ok relative trailingSlash ∧
      data = requestData raw relative trailingSlash ∧
      candidates = buildFileCandidates crates cfg relative trailingSlash
        raw.acceptEncoding

/-- What `open_next_candidate` carries through the open of a candidate. -/
def Candidate.openCtx (candidate : Candidate) : OpenCtx :=
  ⟨candidate.encoding, candidate.contentType, candidate.addVary⟩

/-- The open an event leads to: the phase in which it is awaited, its path and
what it carries. -/
inductive NextOpen (crates : Crates) (cfg : Config) (s : State)
    (event : IoEvent) : Phase → PathBuf → OpenCtx → Prop where
  | candidate {candidate : Candidate} {pending : List Candidate} :
      s.phase = .resolvingFile (candidate :: pending) → event.isMiss = true →
      NextOpen crates cfg s event (.resolvingFile pending) candidate.fsPath
        candidate.openCtx
  | index {dirFs fsPath : PathBuf} {contentType : String}
      {pending : List (PathBuf × String)} :
      s.phase = .resolvingIndex dirFs ((fsPath, contentType) :: pending) →
      event.isMiss = true →
      NextOpen crates cfg s event (.resolvingIndex dirFs pending) fsPath
        ⟨none, contentType, false⟩
  /-- `handle_directory` builds a fresh index queue, in any phase. -/
  | directory {handle : FileHandle} {stat : FileStat} {ctx : OpenCtx}
      {prefetched : Bytes} {request : RequestData} {fsPath : PathBuf}
      {contentType : String} {pending : List (PathBuf × String)} :
      event = .opened handle stat ctx prefetched → stat.isDir = true →
      ctx.encoding = none → s.request = some request →
      (!request.trailingSlash && cfg.redirectTrailingSlash) = false →
      cfg.directory ≠ .deny →
      indexCandidates crates cfg (cfg.root.join request.relative) =
        (fsPath, contentType) :: pending →
      NextOpen crates cfg s event
        (.resolvingIndex (cfg.root.join request.relative) pending) fsPath
        ⟨none, contentType, false⟩

/-- The streaming state after the chunk at `nextSend` has been taken out. -/
def Streaming.advance (st : Streaming) : Streaming :=
  { st with
    ready := st.ready.erase st.nextSend
    nextSend := st.nextSend + 1 }

/-- One effect of a callback or of an engine thread. -/
inductive Move (crates : Crates) (cfg : Config) (env : Env) :
    State → State → Prop where
  /-- The hooks scheduled for the next sends change. -/
  | reentry (s : State) (reentry : List (List Hook)) :
      Move crates cfg env s { s with reentry }
  | hook (s : State) (hook : Hook) : Move crates cfg env s (s.onHook hook)
  /-- A request is answered without opening anything. -/
  | refuse {s : State} (status : ℕ) (headers : List (String × String)) :
      s.phase = .idle →
      Move crates cfg env s
        ((s.setPhase .done).record (.sendResponse status headers none))
  /-- A request is accepted and its first candidate opened. -/
  | accept {s : State} {headers : List (Bytes × Bytes)} {data : RequestData}
      {candidate : Candidate} {rest : List Candidate} :
      s.phase = .idle → env.requests headers →
      Accepts crates cfg headers data (candidate :: rest) →
      Move crates cfg env s
        ({ s with request := some data, waker := true,
                  phase := .resolvingFile rest }.submit
          (.openStat (openRequest cfg (some data) candidate.fsPath)
            candidate.openCtx)
          (.openStat (openRequest cfg (some data) candidate.fsPath)))
  | complete {s : State} {before after : List Op} {op : Op}
      {completion : Completion} {event : IoEvent} :
      s.pending = before ++ op :: after → env.completes s op completion →
      op.onDone completion = some event →
      Move crates cfg env s (deliver { s with pending := before ++ after } event)
  | commit {s : State} :
      0 < s.delivering →
      Move crates cfg env s
        { s with delivering := s.delivering - 1, commits := s.commits + 1 }
  /-- `on_scheduled` starts: the bridge is drained into the batch. -/
  | drain {s : State} :
      s.batch = [] → s.complete = false →
      Move crates cfg env s
        { s with bridge := .empty, batch := s.bridge.events,
                 commits := s.commits - 1 }
  /-- An open event leads to the next open. -/
  | openNext {s : State} {event : IoEvent} {rest : List IoEvent} {phase : Phase}
      {fsPath : PathBuf} {ctx : OpenCtx} :
      s.batch = event :: rest → event.isRead = false → s.waker = true →
      NextOpen crates cfg s event phase fsPath ctx →
      Move crates cfg env s
        ({ s with batch := rest, phase }.submit
          (.openStat (openRequest cfg s.request fsPath) ctx)
          (.openStat (openRequest cfg s.request fsPath)))
  /-- An open event leads to a directory read. -/
  | readDir {s : State} {event : IoEvent} {rest : List IoEvent}
      (path : PathBuf) :
      s.batch = event :: rest → event.isRead = false →
      Move crates cfg env s
        ({ s with batch := rest }.submit (.readDir path) (.readDir path))
  /-- An event leads to a complete response. -/
  | respond {s : State} {event : IoEvent} {rest : List IoEvent} (status : ℕ)
      (headers : List (String × String)) (body : Option Bytes) :
      s.batch = event :: rest → event.isRead = false →
      Move crates cfg env s
        (({ s with batch := rest }.setPhase .done).record
          (.sendResponse status headers body))
  /-- An opened file is answered with headers only. -/
  | sendHeaders {s : State} {event : IoEvent} {rest : List IoEvent}
      (headers : List (String × String)) :
      s.batch = event :: rest → event.isRead = false →
      Move crates cfg env s
        (({ s with batch := rest }.setPhase .done).record
          (.sendResponseHeaders headers true))
  /-- `begin_streaming` of an opened file. -/
  | beginStreaming {s : State} {handle : FileHandle} {stat : FileStat}
      {ctx : OpenCtx} {prefetched : Bytes} {rest : List IoEvent}
      {request : RequestData} {plan : ResponsePlan} :
      s.batch = .opened handle stat ctx prefetched :: rest →
      s.request = some request → stat.isDir = false →
      planResponse crates (requestFacts cfg request stat ctx) (fileMeta stat) =
        some plan →
      bodyChunks cfg plan.body ≠ [] →
      Move crates cfg env s
        (({ s with batch := rest }.setPhase (.streaming
          (initialStreaming handle (bodyChunks cfg plan.body)
            (usablePrefetch plan.body prefetched)))).record
          (.sendResponseHeaders (responseHeaders plan) false))
  /-- A successful read is stored. -/
  | readOk {s : State} {seq : ℕ} {data : Bytes} {rest : List IoEvent}
      {st : Streaming} :
      s.batch = .read seq (.ok data) :: rest → s.phase = .streaming st →
      Move crates cfg env s
        ({ s with batch := rest }.setPhase (.streaming
          { st with inflight := st.inflight - 1
                    ready := st.ready.insert seq data }))
  /-- A failed read truncates the stream. -/
  | readError {s : State} {seq : ℕ} {error : IoError} {rest : List IoEvent}
      {st : Streaming} :
      s.batch = .read seq (.error error) :: rest → s.phase = .streaming st →
      Move crates cfg env s
        (({ s with batch := rest }.setPhase .done).record
          (.sendResponseData .handleRead [] true))
  /-- An event that its phase does not wait for has no effect. -/
  | ignore {s : State} {event : IoEvent} {rest : List IoEvent} :
      s.batch = event :: rest →
      (event.isRead = true → s.phase.isStreaming = false) →
      (event.isRead = false → s.phase.isResolving = false) →
      Move crates cfg env s { s with batch := rest }
  /-- The events behind the end of the stream are dropped. -/
  | discard {s : State} :
      s.phase = .done → Move crates cfg env s { s with batch := [] }
  /-- The flush loop sends a chunk that is not the last. -/
  | flushMore {s : State} {st : Streaming} {bytes : Bytes} :
      s.phase = .streaming st → st.watermarkDepth = 0 →
      st.ready.lookup st.nextSend = some bytes →
      st.nextSend ≠ st.chunks.length - 1 →
      Move crates cfg env s
        ((s.setPhase (.streaming st.advance)).record
          (.sendResponseData .pump bytes false))
  /-- The flush loop sends the last chunk. -/
  | flushLast {s : State} {st : Streaming} {bytes : Bytes} :
      s.phase = .streaming st → st.watermarkDepth = 0 →
      st.ready.lookup st.nextSend = some bytes →
      st.nextSend = st.chunks.length - 1 →
      Move crates cfg env s
        ((s.setPhase .done).record (.sendResponseData .pump bytes true))
  /-- The issue loop passes over a chunk that needs no read. -/
  | issueSkip {s : State} {st : Streaming} {chunk : Chunk} :
      s.phase = .streaming st → st.inflight < cfg.maxInflightReads →
      st.chunks[st.issueCursor]? = some chunk →
      (st.issueCursor ∈ st.ready ∨ ∃ bytes, chunk = .inline bytes) →
      Move crates cfg env s
        (s.setPhase (.streaming { st with issueCursor := st.issueCursor + 1 }))
  /-- The issue loop submits a read. -/
  | issueRead {s : State} {st : Streaming} {offset len : ℕ} :
      s.phase = .streaming st → st.inflight < cfg.maxInflightReads →
      st.chunks[st.issueCursor]? = some (.file offset len) →
      st.issueCursor ∉ st.ready →
      Move crates cfg env s
        ((s.setPhase (.streaming
          { st with issueCursor := st.issueCursor + 1
                    inflight := st.inflight + 1 })).submit
          (.read st.handle offset len st.issueCursor)
          (.read st.handle offset len st.issueCursor))
  | streamComplete {s : State} :
      s.batch = [] → Move crates cfg env s (onStreamComplete s)

/-- Any number of moves. -/
abbrev Moves (crates : Crates) (cfg : Config) (env : Env) :
    State → State → Prop :=
  Relation.ReflTransGen (Move crates cfg env)

/-! ## Hooks and sends -/

/-- The phase with another watermark depth, if it has one. -/
def Phase.withDepth (phase : Phase) (depth : ℕ) : Phase :=
  match phase with
  | .streaming st => .streaming { st with watermarkDepth := depth }
  | phase => phase

/-- A watermark hook changes nothing but the depth, the commits and the
trace. -/
theorem onHook_eq (s : State) (hook : Hook) :
    ∃ depth commits, s.commits ≤ commits ∧
      s.onHook hook =
        { s with phase := s.phase.withDepth depth
                 commits := commits
                 trace := s.trace ++ [.hook hook] } := by
  cases hook with
  | above =>
      cases hphase : s.phase with
      | streaming st =>
          refine ⟨st.watermarkDepth + 1, s.commits, le_rfl, ?_⟩
          simp [State.onHook, onAboveHighWatermark, State.record, hphase,
            State.setPhase, Phase.withDepth]
      | _ =>
          refine ⟨0, s.commits, le_rfl, ?_⟩
          simp [State.onHook, onAboveHighWatermark, State.record, hphase,
            Phase.withDepth]
  | below =>
      cases hphase : s.phase with
      | streaming st =>
          by_cases hresume : st.watermarkDepth - 1 = 0 ∧ s.waker = true
          · refine ⟨st.watermarkDepth - 1, s.commits + 1, Nat.le_succ _, ?_⟩
            simp [State.onHook, onBelowLowWatermark, State.record, hphase,
              State.setPhase, Phase.withDepth, hresume]
          · refine ⟨st.watermarkDepth - 1, s.commits, le_rfl, ?_⟩
            simp only [State.onHook, onBelowLowWatermark, State.record, hphase,
              State.setPhase, Phase.withDepth, if_neg hresume]
      | _ =>
          refine ⟨0, s.commits, le_rfl, ?_⟩
          simp [State.onHook, onBelowLowWatermark, State.record, hphase,
            Phase.withDepth]

/-- So do any number of hooks. -/
theorem hooks_eq (hooks : List Hook) (s : State) :
    ∃ depth commits, s.commits ≤ commits ∧
      hooks.foldl State.onHook s =
        { s with phase := s.phase.withDepth depth
                 commits := commits
                 trace := s.trace ++ hooks.map Call.hook } := by
  induction hooks generalizing s with
  | nil =>
      have hsame : ∃ depth, s.phase.withDepth depth = s.phase := by
        rcases s.phase with _ | _ | _ | st | _
        · exact ⟨0, rfl⟩
        · exact ⟨0, rfl⟩
        · exact ⟨0, rfl⟩
        · exact ⟨st.watermarkDepth, rfl⟩
        · exact ⟨0, rfl⟩
      obtain ⟨depth, hdepth⟩ := hsame
      refine ⟨depth, s.commits, le_rfl, ?_⟩
      rw [hdepth, List.map_nil, List.append_nil]
      rfl
  | cons hook hooks ih =>
      obtain ⟨depth, commits, hcommits, heq⟩ := onHook_eq s hook
      obtain ⟨depth', commits', hcommits', heq'⟩ := ih (s.onHook hook)
      refine ⟨depth', commits', ?_, ?_⟩
      · rw [heq] at hcommits'
        exact Nat.le_trans hcommits hcommits'
      · have hdepth : (s.phase.withDepth depth).withDepth depth' = s.phase.withDepth depth' := by
          cases s.phase <;> rfl
        rw [List.foldl_cons, heq', heq]
        dsimp only
        rw [hdepth, List.map_cons, List.append_assoc]
        rfl

/-- A send adds its call and its hooks to the trace, and changes nothing else but the depth,
the commits and the hooks to come. -/
theorem send_eq (s : State) (call : Call) :
    ∃ depth commits, s.commits ≤ commits ∧
      s.send call =
        { s with phase := s.phase.withDepth depth
                 commits := commits
                 reentry := s.reentry.tail
                 trace := s.trace ++ call :: (s.reentry.headD []).map Call.hook } := by
  obtain ⟨depth, commits, hcommits, heq⟩ :=
    hooks_eq (s.reentry.headD []) { s.record call with reentry := s.reentry.tail }
  refine ⟨depth, commits, hcommits, ?_⟩
  rw [State.send, heq]
  simp only [State.record, List.append_assoc, List.singleton_append]

@[simp] theorem onHook_batch (s : State) (hook : Hook) :
    (s.onHook hook).batch = s.batch := by
  obtain ⟨depth, commits, -, heq⟩ := onHook_eq s hook
  rw [heq]

@[simp] theorem send_batch (s : State) (call : Call) :
    (s.send call).batch = s.batch := by
  obtain ⟨depth, commits, -, heq⟩ := send_eq s call
  rw [heq]

theorem send_waker (s : State) (call : Call) : (s.send call).waker = s.waker := by
  obtain ⟨depth, commits, -, heq⟩ := send_eq s call
  rw [heq]

theorem send_complete (s : State) (call : Call) :
    (s.send call).complete = s.complete := by
  obtain ⟨depth, commits, -, heq⟩ := send_eq s call
  rw [heq]

/-- A send changes the phase at most in its depth. -/
theorem send_phase (s : State) (call : Call) :
    ∃ depth, (s.send call).phase = s.phase.withDepth depth := by
  obtain ⟨depth, commits, -, heq⟩ := send_eq s call
  exact ⟨depth, congrArg State.phase heq⟩

theorem send_done {s : State} (call : Call) (hphase : s.phase = .done) :
    (s.send call).phase = .done := by
  obtain ⟨depth, hsend⟩ := send_phase s call
  rw [hsend, hphase]
  rfl

theorem send_trace (s : State) (call : Call) :
    s.trace ++ [call] <+: (s.send call).trace := by
  obtain ⟨depth, commits, -, heq⟩ := send_eq s call
  rw [heq]
  exact ⟨(s.reentry.headD []).map Call.hook, List.append_assoc _ _ _⟩

end EnvoyFiles.Filter
