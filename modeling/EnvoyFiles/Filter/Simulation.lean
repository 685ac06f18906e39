import EnvoyFiles.Filter.Moves

/-!
# Callbacks as sequences of moves

Each handler of the event loop, the pump and the entry points is shown to be a
sequence of moves, which gives `step_moves` and the invariant rule
`run_invariant`.  This is the only module that looks inside the callbacks'
control flow.
-/

namespace EnvoyFiles.Filter

section Handlers

variable {crates : Crates} {cfg : Config} {env : Env}

theorem hooks_moves (hooks : List Hook) (s : State) :
    Moves crates cfg env s (hooks.foldl State.onHook s) := by
  induction hooks generalizing s with
  | nil => exact Relation.ReflTransGen.refl
  | cons hook hooks ih =>
      exact Relation.ReflTransGen.head (Move.hook s hook) (ih (s.onHook hook))

/-- A send is the recorded call followed by the hooks it fires. -/
theorem send_moves (s : State) (call : Call) :
    Moves crates cfg env (s.record call) (s.send call) :=
  Relation.ReflTransGen.head (Move.reentry (s.record call) s.reentry.tail)
    (hooks_moves _ _)

/-- What a handler does with the event at the head of the batch: a sequence of
moves that leaves the rest of the batch, after which the phase is `done` if the
handler ended the stream. -/
structure Handled (crates : Crates) (cfg : Config) (env : Env)
    (s t : State) (rest : List IoEvent) (ended : Bool) : Prop where
  moves : Moves crates cfg env s t
  batch : t.batch = rest
  done : ended = true → t.phase = .done

theorem handled_send {s t : State} {call : Call} {rest : List IoEvent}
    (ended : Bool) (hmove : Move crates cfg env s (t.record call))
    (hbatch : t.batch = rest) (hdone : ended = true → t.phase = .done) :
    Handled crates cfg env s (t.send call) rest ended where
  moves := Relation.ReflTransGen.head hmove (send_moves t call)
  batch := (send_batch t call).trans hbatch
  done hended := send_done call (hdone hended)

theorem handled_move {s t : State} {rest : List IoEvent}
    (hmove : Move crates cfg env s t) (hbatch : t.batch = rest) :
    Handled crates cfg env s t rest false where
  moves := Relation.ReflTransGen.single hmove
  batch := hbatch
  done h := by contradiction

/-- The resolver is the phase's, and there is none outside the resolving
phases. -/
theorem resolver_cases (s : State) :
    (∃ pending, s.phase = .resolvingFile pending ∧
        resolver s = some (.file pending.isEmpty)) ∨
      (∃ dirFs pending, s.phase = .resolvingIndex dirFs pending ∧
        resolver s = some .index) ∨
      (s.phase.isResolving = false ∧ resolver s = none) := by
  cases hphase : s.phase with
  | resolvingFile pending =>
      exact Or.inl ⟨pending, rfl, by simp [resolver, hphase]⟩
  | resolvingIndex dirFs pending =>
      exact Or.inr (Or.inl ⟨dirFs, pending, rfl, by simp [resolver, hphase]⟩)
  | idle => exact Or.inr (Or.inr ⟨rfl, by simp [resolver, hphase]⟩)
  | streaming st => exact Or.inr (Or.inr ⟨rfl, by simp [resolver, hphase]⟩)
  | done => exact Or.inr (Or.inr ⟨rfl, by simp [resolver, hphase]⟩)

/-! ## Handlers of the opening events

`s` is the state with the event still at the head of its batch; the handler
runs on the state without it. -/

section Opening

variable {s t : State} {event : IoEvent} {rest : List IoEvent} {ended : Bool}
  (hbatch : s.batch = event :: rest) (hread : event.isRead = false)

include hbatch hread

theorem respondStatus_handled (status : ℕ) :
    Handled crates cfg env s (respondStatus { s with batch := rest } status).1 rest
      (respondStatus { s with batch := rest } status).2 :=
  handled_send true (Move.respond status [] none hbatch hread) rfl fun _ => rfl

theorem submitOpen_handled {phase : Phase} {fsPath : PathBuf} {ctx : OpenCtx}
    (hnext : NextOpen crates cfg s event phase fsPath ctx)
    (h : submitOpen cfg ({ s with batch := rest }.setPhase phase) fsPath ctx =
      some t) :
    Handled crates cfg env s t rest false := by
  rw [submitOpen] at h
  split at h
  · next hwaker =>
      cases h
      exact handled_move
        (Move.openNext hbatch hread hwaker hnext) rfl
  · cases h

theorem openNextCandidate_handled {pending : List Candidate}
    (hphase : s.phase = .resolvingFile pending) (hmiss : event.isMiss = true)
    (h : openNextCandidate cfg { s with batch := rest } = some (t, ended)) :
    Handled crates cfg env s t rest ended := by
  rw [openNextCandidate] at h
  simp only [hphase] at h
  cases pending with
  | nil =>
      cases h
      exact respondStatus_handled hbatch hread 404
  | cons candidate rest' =>
      obtain ⟨t', hopen, ht⟩ := Option.bind_eq_some_iff.mp h
      cases ht
      exact submitOpen_handled hbatch hread (NextOpen.candidate hphase hmiss) hopen

theorem directoryFallback_handled {dirFs : PathBuf}
    (h : directoryFallback cfg { s with batch := rest } dirFs =
      some (t, ended)) :
    Handled crates cfg env s t rest ended := by
  rw [directoryFallback] at h
  cases hmode : cfg.directory with
  | listing =>
      simp only [hmode] at h
      split at h
      · cases h
        exact handled_move (Move.readDir dirFs hbatch hread) rfl
      · cases h
  | index =>
      simp only [hmode] at h
      cases h
      exact respondStatus_handled hbatch hread 404
  | deny =>
      simp only [hmode] at h
      cases h
      exact respondStatus_handled hbatch hread 404

theorem openNextIndex_cons_handled {dirFs : PathBuf}
    {candidate : PathBuf × String} {pending : List (PathBuf × String)}
    (hnext : NextOpen crates cfg s event (.resolvingIndex dirFs pending)
      candidate.1 ⟨none, candidate.2, false⟩)
    (h : openNextIndex cfg ({ s with batch := rest }.setPhase
      (.resolvingIndex dirFs (candidate :: pending))) = some (t, ended)) :
    Handled crates cfg env s t rest ended := by
  obtain ⟨t', hopen, ht⟩ := Option.bind_eq_some_iff.mp h
  cases ht
  exact submitOpen_handled hbatch hread hnext hopen

theorem openNextIndex_handled {dirFs : PathBuf}
    {pending : List (PathBuf × String)}
    (hphase : s.phase = .resolvingIndex dirFs pending)
    (hmiss : event.isMiss = true)
    (h : openNextIndex cfg { s with batch := rest } = some (t, ended)) :
    Handled crates cfg env s t rest ended := by
  cases pending with
  | nil =>
      rw [openNextIndex] at h
      simp only [hphase] at h
      rw [← hphase] at h
      exact directoryFallback_handled hbatch hread h
  | cons candidate pending =>
      have hset : ({ s with batch := rest } : State).setPhase
          (.resolvingIndex dirFs (candidate :: pending)) =
          { s with batch := rest } := by
        rw [State.setPhase, ← hphase]
      rw [← hset] at h
      exact openNextIndex_cons_handled hbatch hread
        (NextOpen.index hphase hmiss) h

theorem ignore_handled (hphase : s.phase.isResolving = false) :
    Handled crates cfg env s { s with batch := rest } rest false :=
  handled_move (Move.ignore hbatch (by simp [hread]) fun _ => hphase) rfl

theorem handleOpenError_handled {error : IoError}
    (hmiss : event.isMiss = true)
    (h : handleOpenError cfg { s with batch := rest } error = some (t, ended)) :
    Handled crates cfg env s t rest ended := by
  rw [handleOpenError] at h
  rcases resolver_cases { s with batch := rest } with
    ⟨pending, hphase, hres⟩ | ⟨dirFs, pending, hphase, hres⟩ | ⟨hphase, hres⟩
  · rw [hres] at h
    cases pending with
    | nil =>
        cases h
        exact respondStatus_handled hbatch hread _
    | cons candidate pending =>
        exact openNextCandidate_handled hbatch hread hphase hmiss h
  · rw [hres] at h
    exact openNextIndex_handled hbatch hread hphase hmiss h
  · rw [hres] at h
    cases h
    exact ignore_handled hbatch hread hphase

theorem advanceAfterOpenMiss_handled (hmiss : event.isMiss = true)
    (h : advanceAfterOpenMiss cfg { s with batch := rest } = some (t, ended)) :
    Handled crates cfg env s t rest ended := by
  rw [advanceAfterOpenMiss] at h
  rcases resolver_cases { s with batch := rest } with
    ⟨pending, hphase, hres⟩ | ⟨dirFs, pending, hphase, hres⟩ | ⟨hphase, hres⟩
  · rw [hres] at h
    exact openNextCandidate_handled hbatch hread hphase hmiss h
  · rw [hres] at h
    exact openNextIndex_handled hbatch hread hphase hmiss h
  · rw [hres] at h
    cases h
    exact ignore_handled hbatch hread hphase

theorem handleDirectory_handled {handle : FileHandle} {stat : FileStat}
    {ctx : OpenCtx} {prefetched : Bytes}
    (hevent : event = .opened handle stat ctx prefetched)
    (hdir : stat.isDir = true) (hencoding : ctx.encoding = none)
    (h : handleDirectory crates cfg { s with batch := rest } = some (t, ended)) :
    Handled crates cfg env s t rest ended := by
  rw [handleDirectory] at h
  cases hrequest : s.request with
  | none => simp [hrequest] at h
  | some request =>
      simp only [hrequest] at h
      rw [← hrequest] at h
      split at h
      · cases h
        exact handled_send true (Move.respond 301 _ none hbatch hread) rfl fun _ => rfl
      · next hredirect =>
        split at h
        · cases h
          exact respondStatus_handled hbatch hread 403
        · next hmode =>
          cases hpending : indexCandidates crates cfg
              (cfg.root.join request.relative) with
          | nil =>
              simp only [hpending, List.isEmpty_nil, ↓reduceIte] at h
              exact directoryFallback_handled hbatch hread h
          | cons candidate pending =>
              simp only [hpending, List.isEmpty_cons, Bool.false_eq_true,
                ↓reduceIte] at h
              exact openNextIndex_cons_handled hbatch hread
                (NextOpen.directory hevent hdir hencoding hrequest
                  (by simpa using hredirect) hmode hpending) h

end Opening

section Serving

variable {s t : State} {handle : FileHandle} {stat : FileStat} {ctx : OpenCtx}
  {prefetched : Bytes} {rest : List IoEvent} {ended : Bool}
  (hbatch : s.batch = .opened handle stat ctx prefetched :: rest)

include hbatch

theorem beginStreaming_handled {request : RequestData} {plan : ResponsePlan}
    (hrequest : s.request = some request) (hfile : stat.isDir = false)
    (hplan : planResponse crates (requestFacts cfg request stat ctx)
      (fileMeta stat) = some plan)
    (h : beginStreaming { s with batch := rest } (responseHeaders plan) handle
      (bodyChunks cfg plan.body) (usablePrefetch plan.body prefetched) =
      (t, ended)) :
    Handled crates cfg env s t rest ended := by
  rw [beginStreaming] at h
  split at h
  · cases h
    exact handled_send true (Move.sendHeaders _ hbatch rfl) rfl fun _ => rfl
  · next hchunks =>
      cases h
      have hne : bodyChunks cfg plan.body ≠ [] := by simpa using hchunks
      exact handled_send false (Move.beginStreaming hbatch hrequest hfile hplan hne)
        rfl fun h => by contradiction

theorem executePlan_handled {request : RequestData} {plan : ResponsePlan}
    (hrequest : s.request = some request) (hfile : stat.isDir = false)
    (hplan : planResponse crates (requestFacts cfg request stat ctx)
      (fileMeta stat) = some plan)
    (h : executePlan cfg { s with batch := rest } plan handle prefetched =
      (t, ended)) :
    Handled crates cfg env s t rest ended := by
  rw [executePlan] at h
  split at h
  · cases h
    exact handled_send true (Move.sendHeaders _ hbatch rfl) rfl fun _ => rfl
  · exact beginStreaming_handled hbatch hrequest hfile hplan h

theorem serveFile_handled (hfile : stat.isDir = false)
    (h : serveFile crates cfg { s with batch := rest } handle stat ctx
      prefetched = some (t, ended)) :
    Handled crates cfg env s t rest ended := by
  obtain ⟨request, hrequest, h⟩ := Option.bind_eq_some_iff.mp h
  obtain ⟨plan, hplan, h⟩ := Option.bind_eq_some_iff.mp h
  exact executePlan_handled hbatch hrequest hfile hplan (Option.some.inj h)

theorem handleOpened_handled
    (h : handleOpened crates cfg { s with batch := rest } handle stat ctx
      prefetched = some (t, ended)) :
    Handled crates cfg env s t rest ended := by
  rw [handleOpened] at h
  split at h
  · next hdir =>
      split at h
      · next hencoding =>
          have hmiss : (IoEvent.opened handle stat ctx prefetched).isMiss = true := by
            simp [IoEvent.isMiss, hdir, hencoding]
          exact advanceAfterOpenMiss_handled hbatch rfl hmiss h
      · next hencoding =>
          exact handleDirectory_handled hbatch rfl rfl hdir (by simpa using hencoding) h
  · next hfile => exact serveFile_handled hbatch (by simpa using hfile) h

end Serving

theorem handleDir_handled {s t : State} {rest : List IoEvent} {ended : Bool}
    {result : ReadDirResult} (hbatch : s.batch = .dir result :: rest)
    (h : handleDir crates cfg { s with batch := rest } result =
      some (t, ended)) :
    Handled crates cfg env s t rest ended := by
  cases result with
  | error error =>
      cases h
      exact respondStatus_handled hbatch rfl _
  | ok entries =>
      obtain ⟨request, -, h⟩ := Option.bind_eq_some_iff.mp h
      obtain ⟨html, -, h⟩ := Option.bind_eq_some_iff.mp h
      cases h
      exact handled_send true (Move.respond 200 _ _ hbatch rfl) rfl fun _ => rfl

/-! ## The event loop -/

theorem handleRead_handled {s t : State} {rest : List IoEvent} {seq : ℕ}
    {result : ReadResult} {ended : Bool}
    (hbatch : s.batch = .read seq result :: rest)
    (h : handleRead { s with batch := rest } seq result = (t, ended)) :
    Handled crates cfg env s t rest ended := by
  rw [handleRead] at h
  split at h
  · next st hphase =>
      cases result with
      | ok data =>
          cases h
          exact handled_move (Move.readOk hbatch hphase) rfl
      | error error =>
          cases h
          exact handled_send true (Move.readError hbatch hphase) rfl fun _ => rfl
  · next hphase =>
      cases h
      refine handled_move (Move.ignore hbatch (fun _ => ?_) (by simp [IoEvent.isRead])) rfl
      cases hs : s.phase with
      | streaming st => exact absurd hs (hphase st)
      | idle => rfl
      | resolvingFile pending => rfl
      | resolvingIndex dirFs pending => rfl
      | done => rfl

/-- Handling one event of the batch is a sequence of moves. -/
theorem handleEvent_handled {s t : State} {event : IoEvent}
    {rest : List IoEvent} {ended : Bool} (hbatch : s.batch = event :: rest)
    (h : handleEvent crates cfg { s with batch := rest } event =
      some (t, ended)) :
    Handled crates cfg env s t rest ended := by
  cases event with
  | opened handle stat ctx prefetched =>
      exact handleOpened_handled hbatch h
  | openError error => exact handleOpenError_handled hbatch rfl rfl h
  | dir result => exact handleDir_handled hbatch h
  | read seq result =>
      exact handleRead_handled hbatch (Option.some.inj h)

/-- The event loop is a sequence of moves that leaves an empty batch. -/
theorem handleBatch_handled {events : List IoEvent} {s t : State} {ended : Bool}
    (hbatch : s.batch = events)
    (h : handleBatch crates cfg events s = some (t, ended)) :
    Handled crates cfg env s t [] ended := by
  induction events generalizing s with
  | nil =>
      cases h
      exact ⟨Relation.ReflTransGen.refl, hbatch, nofun⟩
  | cons event rest ih =>
      obtain ⟨⟨u, stop⟩, hevent, h⟩ := Option.bind_eq_some_iff.mp h
      have hhandled : Handled crates cfg env s u rest stop :=
        handleEvent_handled hbatch hevent
      cases stop with
      | true =>
          cases h
          exact ⟨hhandled.moves.tail (Move.discard (hhandled.done rfl)), rfl,
            hhandled.done⟩
      | false =>
          have hrest := ih hhandled.batch h
          exact ⟨hhandled.moves.trans hrest.moves, hrest.batch, hrest.done⟩

/-! ## The pump -/

theorem flush_moves (fuel : ℕ) (s : State) :
    Moves crates cfg env s (flush fuel s).1 ∧
      (flush fuel s).1.batch = s.batch := by
  induction fuel generalizing s with
  | zero => exact ⟨Relation.ReflTransGen.refl, rfl⟩
  | succ fuel ih =>
      rw [flush]
      split
      · next st hphase =>
          split
          · next hdepth =>
              split
              · next bytes hready =>
                  split
                  · next hlast =>
                      have hmove : Move crates cfg env s _ :=
                        Move.flushLast hphase hdepth hready hlast
                      exact ⟨Relation.ReflTransGen.head hmove (send_moves _ _),
                        send_batch _ _⟩
                  · next hlast =>
                      have hmove : Move crates cfg env s _ :=
                        Move.flushMore hphase hdepth hready hlast
                      have hsend := Relation.ReflTransGen.head hmove
                        (send_moves (s.setPhase (.streaming st.advance))
                          (.sendResponseData .pump bytes false))
                      obtain ⟨hmoves, hbatch⟩ :=
                        ih ((s.setPhase (.streaming st.advance)).send
                          (.sendResponseData .pump bytes false))
                      exact ⟨hsend.trans hmoves,
                        hbatch.trans (send_batch _ _)⟩
              · exact ⟨Relation.ReflTransGen.refl, rfl⟩
          · exact ⟨Relation.ReflTransGen.refl, rfl⟩
      · exact ⟨Relation.ReflTransGen.refl, rfl⟩

/-- The state the issue loop leaves: its cursor, its count and its requests. -/
def afterIssue (s : State) (st : Streaming)
    (result : ℕ × ℕ × List ReadRequest) : State :=
  submitReads st.handle result.2.2
    (s.setPhase (.streaming
      { st with issueCursor := result.1, inflight := result.2.1 }))

/-- The issue loop is one move for each chunk it passes. -/
theorem issueLoop_moves (chunks : List Chunk) {s : State} (st : Streaming)
    (hphase : s.phase = .streaming st)
    (hchunks : st.chunks.drop st.issueCursor = chunks) :
    Moves crates cfg env s (afterIssue s st
      (issueLoop cfg.maxInflightReads st.ready chunks st.issueCursor
        st.inflight)) := by
  induction chunks generalizing s st with
  | nil =>
      have hsame : afterIssue s st (st.issueCursor, st.inflight, []) = s := by
        show s.setPhase (.streaming st) = s
        rw [State.setPhase, ← hphase]
      rw [issueLoop, hsame]
  | cons chunk rest ih =>
      have hget : st.chunks[st.issueCursor]? = some chunk := by
        rw [← List.head?_drop, hchunks]
        rfl
      have hdrop : st.chunks.drop (st.issueCursor + 1) = rest := by
        rw [← List.tail_drop, hchunks]
        rfl
      have hskip (hneeded : st.issueCursor ∈ st.ready ∨
          ∃ bytes, chunk = .inline bytes)
          (hroom : st.inflight < cfg.maxInflightReads) :
          Moves crates cfg env s (afterIssue s st
            (issueLoop cfg.maxInflightReads st.ready rest (st.issueCursor + 1)
              st.inflight)) := by
        exact Relation.ReflTransGen.head
          (Move.issueSkip hphase hroom hget hneeded)
          (ih { st with issueCursor := st.issueCursor + 1 } rfl hdrop)
      simp only [issueLoop]
      split
      · next hroom =>
          split
          · next hready => exact hskip (Or.inl hready) hroom
          · next hready =>
              cases chunk with
              | inline bytes => exact hskip (Or.inr ⟨bytes, rfl⟩) hroom
              | file offset len =>
                  exact Relation.ReflTransGen.head
                    (Move.issueRead hphase hroom hget hready)
                    (ih { st with issueCursor := st.issueCursor + 1
                                  inflight := st.inflight + 1 }
                      rfl hdrop)
      · have hsame : afterIssue s st (st.issueCursor, st.inflight, []) = s := by
          show s.setPhase (.streaming st) = s
          rw [State.setPhase, ← hphase]
        rw [hsame]

theorem submitReads_batch (handle : FileHandle) (requests : List ReadRequest)
    (s : State) : (submitReads handle requests s).batch = s.batch := by
  rw [submitReads]
  induction requests generalizing s with
  | nil => rfl
  | cons request requests ih => exact ih _

theorem issueReads_moves {s t : State} (h : issueReads cfg s = some t) :
    Moves crates cfg env s t ∧ t.batch = s.batch := by
  rw [issueReads] at h
  split at h
  · split at h
    · next st hphase =>
        cases h
        exact ⟨issueLoop_moves _ st hphase rfl, submitReads_batch _ _ _⟩
    · cases h
      exact ⟨Relation.ReflTransGen.refl, rfl⟩
  · cases h

theorem pump_moves {s t : State} (h : pump cfg s = some t) :
    Moves crates cfg env s t ∧ t.batch = s.batch := by
  obtain ⟨hflush, hbatch⟩ :
      Moves crates cfg env s (flush (flushFuel s) s).1 ∧ _ :=
    flush_moves (flushFuel s) s
  rw [pump] at h
  split at h
  · next u hu =>
      rw [hu] at hflush hbatch
      obtain ⟨hissue, hbatch'⟩ : Moves crates cfg env u t ∧ _ :=
        issueReads_moves h
      exact ⟨hflush.trans hissue, hbatch'.trans hbatch⟩
  · next u hu =>
      rw [hu] at hflush hbatch
      cases h
      exact ⟨hflush, hbatch⟩

/-! ## The entry points -/

/-- `on_scheduled` drains the bridge, handles the batch and, if it leaves a
stream, pumps. -/
theorem onScheduled_cases {s t : State} (hbatch : s.batch = [])
    (hcomplete : s.complete = false)
    (h : onScheduled crates cfg { s with commits := s.commits - 1 } = some t) :
    ∃ u, Moves crates cfg env s u ∧ u.batch = [] ∧
      (u.phase.isStreaming = false ∧ t = u ∨ pump cfg u = some t) := by
  have hdrain : Move crates cfg env s _ := Move.drain hbatch hcomplete
  rw [onScheduled] at h
  simp only [EventBridge.process_fst, EventBridge.process_snd] at h
  have hloop {u : State} {ended : Bool}
      (hu : handleBatch crates cfg s.bridge.events
        { s with bridge := .empty, batch := s.bridge.events,
                 commits := s.commits - 1 } = some (u, ended)) :
      Handled crates cfg env { s with bridge := .empty, batch := s.bridge.events,
                                      commits := s.commits - 1 } u [] ended :=
    handleBatch_handled rfl hu
  split at h
  · cases h
  · next u hu =>
      cases h
      have hhandled := hloop hu
      refine ⟨t, Relation.ReflTransGen.head hdrain hhandled.moves, hhandled.batch,
        Or.inl ⟨?_, rfl⟩⟩
      rw [hhandled.done rfl]
      rfl
  · next u hu =>
      have hhandled := hloop hu
      refine ⟨u, Relation.ReflTransGen.head hdrain hhandled.moves,
        hhandled.batch, ?_⟩
      split at h
      · exact Or.inr h
      · next hphase =>
          cases h
          refine Or.inl ⟨?_, rfl⟩
          cases ht : t.phase with
          | streaming st => exact absurd ht (hphase st)
          | _ => rfl

/-- Between callbacks the batch is empty; `on_scheduled` keeps this. -/
theorem onScheduled_moves {s t : State} (hbatch : s.batch = [])
    (hcomplete : s.complete = false)
    (h : onScheduled crates cfg { s with commits := s.commits - 1 } = some t) :
    Moves crates cfg env s t ∧ t.batch = [] := by
  obtain ⟨u, hmoves, hempty, ⟨-, rfl⟩ | hpump⟩ :=
    onScheduled_cases hbatch hcomplete h
  · exact ⟨hmoves, hempty⟩
  · obtain ⟨hpumped, hsame⟩ : Moves crates cfg env u t ∧ _ := pump_moves hpump
    exact ⟨hmoves.trans hpumped, hsame.trans hempty⟩

/-- A refused request is answered at once. -/
theorem refuse_moves {s : State} (hphase : s.phase = .idle) (status : ℕ)
    (headers : List (String × String)) :
    let t := (s.setPhase .done).send (.sendResponse status headers none)
    Moves crates cfg env s t ∧ t.batch = s.batch ∧
      t.phase.isStreaming = false := by
  refine ⟨Relation.ReflTransGen.head (Move.refuse status headers hphase)
    (send_moves _ _), send_batch _ _, ?_⟩
  rw [send_done _ rfl]
  rfl

theorem startResolving_moves {s t : State} {headers : List (Bytes × Bytes)}
    {rawPath relative : String} {trailingSlash : Bool} (hphase : s.phase = .idle)
    (hheaders : env.requests headers)
    (hmounted : mountedPath cfg
      ((RawRequestHeaders.collect headers).path.getD "") = some rawPath)
    (hresolved : Path.resolveRequestPath rawPath (pathPolicy cfg) =
      .ok relative trailingSlash)
    (h : startResolving crates cfg s (RawRequestHeaders.collect headers) relative
      trailingSlash = some t) :
    Moves crates cfg env s t ∧ t.batch = s.batch ∧
      t.phase.isStreaming = false := by
  obtain ⟨⟨u, ended⟩, hopen, ht⟩ := Option.map_eq_some_iff.mp h
  rw [openNextCandidate] at hopen
  split at hopen
  · next hpending =>
      -- The candidate list always holds the identity candidate.
      simp [buildFileCandidates] at hpending
  · next candidate rest hpending =>
      obtain ⟨v, hsubmit, hv⟩ := Option.bind_eq_some_iff.mp hopen
      cases hv
      cases hsubmit
      cases ht
      have haccepts : Accepts crates cfg headers
          (requestData (RawRequestHeaders.collect headers) relative trailingSlash)
          (candidate :: rest) :=
        ⟨rawPath, relative, trailingSlash, hmounted, hresolved, rfl,
          (Phase.resolvingFile.inj hpending).symm⟩
      exact ⟨Relation.ReflTransGen.single (Move.accept hphase hheaders haccepts),
        rfl, rfl⟩
  · next hnil hcons =>
      cases hcandidates : buildFileCandidates crates cfg relative trailingSlash
          (RawRequestHeaders.collect headers).acceptEncoding with
      | nil => exact absurd (congrArg Phase.resolvingFile hcandidates) hnil
      | cons candidate rest =>
          exact absurd (congrArg Phase.resolvingFile hcandidates)
            (hcons candidate rest)

/-- `on_request_headers` answers or starts a resolution. -/
theorem onRequestHeaders_moves {s t : State} {headers : List (Bytes × Bytes)}
    (hphase : s.phase = .idle) (hheaders : env.requests headers)
    (h : onRequestHeaders crates cfg s headers = some t) :
    Moves crates cfg env s t ∧ t.batch = s.batch ∧
      t.phase.isStreaming = false := by
  unfold onRequestHeaders at h
  simp only at h
  split at h
  · cases h
    exact refuse_moves hphase _ _
  · split at h
    · cases h
      exact refuse_moves hphase _ _
    · next hmounted =>
      split at h
      · cases h
        exact refuse_moves hphase _ _
      · next hresolved =>
          exact startResolving_moves hphase hheaders hmounted hresolved h

theorem completeOp_cases {s t : State} {index : ℕ} {completion : Completion}
    (h : completeOp s index completion = some t) :
    ∃ before op after event, s.pending = before ++ op :: after ∧
      s.pending[index]? = some op ∧ op.onDone completion = some event ∧
      t = deliver { s with pending := before ++ after } event := by
  obtain ⟨op, hop, h⟩ := Option.bind_eq_some_iff.mp h
  obtain ⟨event, hevent, h⟩ := Option.bind_eq_some_iff.mp h
  cases h
  obtain ⟨hlt, hget⟩ := List.getElem?_eq_some_iff.mp hop
  have hsplit : s.pending =
      s.pending.take index ++ op :: s.pending.drop (index + 1) := by
    rw [← hget, ← List.drop_eq_getElem_cons hlt, List.take_append_drop]
  refine ⟨_, op, _, event, hsplit, hop, hevent, ?_⟩
  rw [← List.eraseIdx_eq_take_drop_succ]

theorem completeOp_moves {s t : State} {index : ℕ} {completion : Completion}
    (hok : ∀ op, s.pending[index]? = some op → env.completes s op completion)
    (h : completeOp s index completion = some t) :
    Moves crates cfg env s t ∧ t.batch = s.batch := by
  obtain ⟨before, op, after, event, hsplit, hop, hevent, rfl⟩ :=
    completeOp_cases h
  refine ⟨Relation.ReflTransGen.single
    (Move.complete hsplit (hok op hop) hevent), ?_⟩
  rw [deliver]
  split <;> rfl

/-- Every action is a sequence of moves, and callbacks leave an empty batch. -/
theorem step_moves {s t : State} {action : Action} (hbatch : s.batch = [])
    (hok : env.allows s action) (h : step crates cfg s action = some t) :
    Moves crates cfg env s t ∧ t.batch = [] := by
  cases action with
  | requestHeaders headers reentry =>
      simp only [step] at h
      split at h
      · next hphase hcomplete =>
          have hmove : Move crates cfg env s { s with reentry } :=
            Move.reentry s reentry
          obtain ⟨hmoves, hsame, -⟩ :
              Moves crates cfg env { s with reentry } t ∧ _ :=
            onRequestHeaders_moves hphase hok h
          exact ⟨Relation.ReflTransGen.head hmove hmoves, hsame.trans hbatch⟩
      · cases h
  | complete index completion =>
      obtain ⟨hmoves, hsame⟩ : Moves crates cfg env s t ∧ _ :=
        completeOp_moves hok h
      exact ⟨hmoves, hsame.trans hbatch⟩
  | commit =>
      simp only [step] at h
      split at h
      · cases h
      · next hdelivering =>
          cases h
          exact ⟨Relation.ReflTransGen.single
            (Move.commit (Nat.pos_of_ne_zero hdelivering)), hbatch⟩
  | scheduled reentry =>
      simp only [step] at h
      split at h
      · cases h
      · next hcomplete =>
          have hmove : Move crates cfg env s { s with reentry } :=
            Move.reentry s reentry
          obtain ⟨hmoves, hempty⟩ :
              Moves crates cfg env { s with reentry } t ∧ _ :=
            onScheduled_moves hbatch (by simpa using hcomplete) h
          exact ⟨Relation.ReflTransGen.head hmove hmoves, hempty⟩
  | hook hook =>
      simp only [step] at h
      split at h
      · cases h
      · cases h
        exact ⟨Relation.ReflTransGen.single (Move.hook s hook),
          (onHook_batch s hook).trans hbatch⟩
  | streamComplete =>
      simp only [step] at h
      split at h
      · cases h
      · cases h
        exact ⟨Relation.ReflTransGen.single (Move.streamComplete hbatch), hbatch⟩

/-- A predicate that every move preserves holds along every run. -/
theorem run_invariant {I : State → Prop} {s t : State} {actions : List Action}
    (hmove : ∀ s t, Move crates cfg env s t → I s → I t)
    (hbatch : s.batch = []) (hs : I s)
    (hrun : StreamRun crates cfg env s actions t) : I t ∧ t.batch = [] := by
  apply hrun.invariant (I := fun s => I s ∧ s.batch = []) ⟨hs, hbatch⟩
  rintro u action v ⟨hu, hempty⟩ hok hnext
  obtain ⟨hmoves, hempty'⟩ := step_moves hempty hok hnext
  exact ⟨Transition.closure_invariant hmoves hmove hu, hempty'⟩

end Handlers

end EnvoyFiles.Filter
