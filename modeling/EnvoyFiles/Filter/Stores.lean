import EnvoyFiles.Filter.Lookup

/-!
# Requests on a filesystem that does not change

A store is what the filter can see of a filesystem that does not change: what opening a
path finds, and what reading a directory finds.  `Responds` says that a request has one
response: every run that answers starts it and sends nothing else, and every run can go
on to an answer.
-/

namespace EnvoyFiles.Filter

/-! ## Stores -/

/-- What opening a path finds. -/
structure StoredFile where
  stat : FileStat
  content : Bytes
  size_eq : stat.isDir = false → stat.size = content.length

/-- Nothing is asked of the size of a directory. -/
theorem directory_size : (⟨0, 0, 0, true⟩ : FileStat).isDir = false →
    (⟨0, 0, 0, true⟩ : FileStat).size = ([] : Bytes).length := by
  intro hfile
  cases hfile

/-- A file of three bytes has the size three. -/
theorem letters_size : (⟨3, 0, 0, false⟩ : FileStat).isDir = false →
    (⟨3, 0, 0, false⟩ : FileStat).size = ([97, 98, 99] : Bytes).length := by
  intro _
  rfl

structure Store where
  opens : PathBuf → Except IoError StoredFile
  lists : PathBuf → ReadDirResult

/-- The environment of one request on a store, where `contents` is what the open files
hold.  A read may fail. -/
def Store.serves (store : Store) (contents : FileHandle → Bytes)
    (headers : List (Bytes × Bytes)) : Env where
  requests h := h = headers
  completes _ op completion :=
    match op, completion with
    | .openStat request _, .openStat (.ok (handle, stat, prefetched)) =>
        ∃ file, store.opens request.path = .ok file ∧ stat = file.stat ∧
          prefetched <+: file.content ∧ (stat.isDir = false → contents handle = file.content)
    | .openStat request _, .openStat (.error error) => store.opens request.path = .error error
    | .readDir path, .readDir result => result = store.lists path
    | .read handle offset len _, .read (.ok data) =>
        data = fileSlice (contents handle) offset len
    | .read _ _ _ _, .read (.error _) => True
    | _, _ => False

/-- What is sent for a request: the call that starts the response, and the data behind
it. -/
structure Response where
  start : Call
  data : Bytes
  deriving DecidableEq

/-- Every answer is the response, and no run is stuck before it. -/
structure Responds (crates : Crates) (cfg : Config) (env : Env)
    (response : Option Response) : Prop where
  answers : ∀ actions s call, StreamRun crates cfg env State.initial actions s →
    s.answer = some call → ∃ data, response = some ⟨call, data⟩ ∧ Sends data s.trace
  reaches : response ≠ none →
    ∀ actions s, StreamRun crates cfg env State.initial actions s → s.complete = false →
      ∃ more t call, StreamRun crates cfg env s more t ∧ t.answer = some call

section Stores

variable {store : Store} {contents : FileHandle → Bytes} {headers : List (Bytes × Bytes)}

/-- What an open of a store delivers. -/
theorem serves_open {request : OpenRequest} {ctx : OpenCtx} {event : IoEvent}
    (h : (store.serves contents headers).yields (.openStat request ctx) event) :
    (∃ handle file prefetched, store.opens request.path = .ok file ∧
        event = .opened handle file.stat ctx prefetched ∧ prefetched <+: file.content ∧
        (file.stat.isDir = false → contents handle = file.content)) ∨
      ∃ error, store.opens request.path = .error error ∧ event = .openError error := by
  obtain ⟨w, completion, hok, hevent⟩ := h
  cases completion with
  | openStat result =>
      cases result with
      | ok opened =>
          obtain ⟨handle, stat, prefetched⟩ := opened
          obtain ⟨file, hopens, rfl, hprefetch, hcontents⟩ := hok
          cases hevent
          exact Or.inl ⟨handle, file, prefetched, hopens, rfl, hprefetch, hcontents⟩
      | error error =>
          cases hevent
          exact Or.inr ⟨error, hok, rfl⟩
  | read result => nomatch hevent
  | readDir result => nomatch hevent

theorem serves_list {path : PathBuf} {event : IoEvent}
    (h : (store.serves contents headers).yields (.readDir path) event) :
    event = .dir (store.lists path) := by
  obtain ⟨w, completion, hok, hevent⟩ := h
  cases completion with
  | readDir result =>
      have hresult : result = store.lists path := hok
      cases hevent
      rw [hresult]
  | read result => nomatch hevent
  | openStat result => nomatch hevent

/-- Where every content has a handle, opens and directory reads complete. -/
theorem serves_completes (hcontents : Function.Surjective contents) {op : Op}
    (hread : op.isRead = false) :
    ∃ completion event,
      (∀ w, (store.serves contents headers).completes w op completion) ∧
        op.onDone completion = some event := by
  cases op with
  | openStat request ctx =>
      cases hopens : store.opens request.path with
      | error error =>
          exact ⟨.openStat (.error error), _, fun _ => hopens, rfl⟩
      | ok file =>
          obtain ⟨handle, hhandle⟩ := hcontents file.content
          refine ⟨.openStat (.ok (handle, file.stat, [])), _, ?_, rfl⟩
          intro w
          exact ⟨file, hopens, rfl, List.nil_prefix, fun _ => hhandle⟩
  | readDir path => exact ⟨.readDir (store.lists path), _, fun _ => rfl, rfl⟩
  | read handle offset len seq => nomatch hread

end Stores

/-! ## The file that is read -/

/-- The environment in which only one open file is read. -/
def Env.reading (env : Env) (handle : FileHandle) : Env where
  requests := env.requests
  completes w op completion := env.completes w op completion ∧
    ∀ handle' offset len seq, op = .read handle' offset len seq → handle' = handle

/-- Only one open file is read. -/
structure ReadsOf (handle : FileHandle) (s : State) : Prop where
  streams : ∀ st, s.phase = .streaming st → st.handle = handle
  pending : ∀ handle' offset len seq, .read handle' offset len seq ∈ s.pending →
    handle' = handle

section Reading

variable {crates : Crates} {cfg : Config} {env : Env} {handle : FileHandle} {s t u w : State}
  {owes : Chunk → Bytes → Prop} {chunks : List Chunk}

theorem ReadsOf.of_phase (h : ReadsOf handle s) (hpending : ∀ op ∈ t.pending, op ∈ s.pending)
    (hstreams : ∀ st, t.phase = .streaming st → st.handle = handle) : ReadsOf handle t where
  streams := hstreams
  pending handle' offset len seq hop := h.pending handle' offset len seq (hpending _ hop)

theorem withDepth_handle {phase : Phase} {depth : ℕ} {st : Streaming}
    (h : phase.withDepth depth = .streaming st) :
    ∃ st', phase = .streaming st' ∧ st'.handle = st.handle := by
  cases phase with
  | streaming st' =>
      cases h
      exact ⟨st', rfl, rfl⟩
  | _ => nomatch h

/-- While the body is sent, every move reads the file that is served. -/
theorem readsOf_move (hmove : Move crates cfg env s t) (haccount : Accounted cfg s)
    (hdelivering : Delivering owes chunks s) (h : ReadsOf handle s) :
    Move crates cfg (env.reading handle) s t ∧ ReadsOf handle t := by
  have hnotIdle : s.phase ≠ .idle := by
    intro hidle
    have hphase := sentAs_phase hdelivering.sent
    rw [hidle] at hphase
    rcases hphase with hphase | hphase <;> nomatch hphase
  have hreads : ∀ {event : IoEvent} {rest : List IoEvent}, s.batch = event :: rest →
      event.isRead ≠ false := by
    intro event rest hbatch hread
    have htrue := hdelivering.not_opening haccount hbatch
    rw [hread] at htrue
    nomatch htrue
  cases hmove with
  | reentry reentry =>
      exact ⟨.reentry s reentry, h.of_phase (fun _ hop => hop) h.streams⟩
  | hook hook =>
      refine ⟨.hook s hook, ?_⟩
      obtain ⟨depth, commits, -, heq⟩ := onHook_eq s hook
      rw [heq]
      refine h.of_phase (fun _ hop => hop) ?_
      intro st hst
      obtain ⟨st', hphase, hhandle⟩ := withDepth_handle hst
      rw [← hhandle]
      exact h.streams st' hphase
  | refuse _ _ hidle => exact absurd hidle hnotIdle
  | accept hidle _ _ => exact absurd hidle hnotIdle
  | @complete before after op completion event hpending hok hevent =>
      have hop : op ∈ s.pending := by
        rw [hpending]
        exact List.mem_append_cons_self
      constructor
      · refine .complete hpending ⟨hok, ?_⟩ hevent
        rintro handle' offset len seq rfl
        exact h.pending handle' offset len seq hop
      · apply h.of_phase
        · obtain ⟨bridge, delivering, heq, -⟩ :=
            deliver_eq { s with pending := before ++ after } event
          rw [heq]
          exact fun _ => mem_of_mem_rest hpending
        · rw [deliver_phase]
          exact h.streams
  | commit hdelivered =>
      exact ⟨.commit hdelivered, h.of_phase (fun _ hop => hop) h.streams⟩
  | drain hbatch hactive =>
      exact ⟨.drain hbatch hactive, h.of_phase (fun _ hop => hop) h.streams⟩
  | openNext hbatch hread _ _ => exact absurd hread (hreads hbatch)
  | readDir _ hbatch hread => exact absurd hread (hreads hbatch)
  | respond _ _ _ hbatch hread => exact absurd hread (hreads hbatch)
  | sendHeaders _ hbatch hread => exact absurd hread (hreads hbatch)
  | beginStreaming hbatch _ _ _ _ => exact absurd rfl (hreads hbatch)
  | @readOk seq data rest st hbatch hphase =>
      refine ⟨.readOk hbatch hphase, h.of_phase (fun _ hop => hop) ?_⟩
      rintro st' ⟨⟩
      exact h.streams st hphase
  | readError hbatch hphase =>
      exact ⟨.readError hbatch hphase, h.of_phase (fun _ hop => hop) nofun⟩
  | ignore hbatch hstream hresolve =>
      exact ⟨.ignore hbatch hstream hresolve, h.of_phase (fun _ hop => hop) h.streams⟩
  | discard hphase =>
      exact ⟨.discard hphase, h.of_phase (fun _ hop => hop) h.streams⟩
  | @flushMore st bytes hphase hdepth hready hmore =>
      refine ⟨.flushMore hphase hdepth hready hmore, h.of_phase (fun _ hop => hop) ?_⟩
      rintro st' ⟨⟩
      exact h.streams st hphase
  | flushLast hphase hdepth hready hlast =>
      exact ⟨.flushLast hphase hdepth hready hlast, h.of_phase (fun _ hop => hop) nofun⟩
  | @issueSkip st chunk hphase hroom hchunk hskip =>
      refine ⟨.issueSkip hphase hroom hchunk hskip, h.of_phase (fun _ hop => hop) ?_⟩
      rintro st' ⟨⟩
      exact h.streams st hphase
  | @issueRead st offset len hphase hroom hchunk hready =>
      refine ⟨.issueRead hphase hroom hchunk hready, ?_, ?_⟩
      · rintro st' ⟨⟩
        exact h.streams st hphase
      · intro handle' offset' len' seq hop
        have hmem : Op.read handle' offset' len' seq ∈
            s.pending ++ [.read st.handle offset len st.issueCursor] := hop
        rcases List.mem_append.mp hmem with hold | hnew
        · exact h.pending handle' offset' len' seq hold
        · cases List.mem_singleton.mp hnew
          exact h.streams st hphase
  | streamComplete hbatch =>
      exact ⟨.streamComplete hbatch, h.of_phase (fun _ hop => hop) h.streams⟩

/-- The delivery of a body, where only the file that is served owes its bytes. -/
theorem delivering_reading (henv : (env.reading handle).Supplies owes)
    (hmoves : Moves crates cfg env u s) (haccount : Accounted cfg u)
    (hdelivering : Delivering owes chunks u) (hreads : ReadsOf handle u) :
    Delivering owes chunks s := by
  have hinvariant : Accounted cfg s ∧ Delivering owes chunks s ∧ ReadsOf handle s := by
    refine Transition.closure_invariant (I := fun s => Accounted cfg s ∧
      Delivering owes chunks s ∧ ReadsOf handle s) hmoves ?_ ⟨haccount, hdelivering, hreads⟩
    rintro v w hmove ⟨haccount, hdelivering, hreads⟩
    obtain ⟨hreading, hreads'⟩ := readsOf_move hmove haccount hdelivering hreads
    exact ⟨accounted_move hmove haccount, delivering_move henv hreading haccount hdelivering,
      hreads'⟩
  exact hinvariant.2.1

end Reading

/-! ## What is sent behind the answer -/

section Answered

variable {crates : Crates} {cfg : Config} {env : Env} {store : Store}
  {contents : FileHandle → Bytes} {headers : List (Bytes × Bytes)} {handle : FileHandle}
  {s w : State}

/-- The reads of one file return its content. -/
theorem serves_supplies :
    ((store.serves contents headers).reading handle).Supplies
      fun chunk data => data = chunk.bytes (contents handle) := by
  rintro s st handle' offset len seq data - - ⟨hok, hhandle⟩
  cases hhandle handle' offset len seq rfl
  exact hok

/-- Nothing is sent behind a complete response. -/
theorem reply_sends {status : ℕ} {replyHeaders : List (String × String)} {body : Option Bytes}
    (hfresh : Fresh w)
    (hmoves : Moves crates cfg (store.serves contents headers)
      ((Reaction.reply status replyHeaders body).apply cfg w).1 s) : Sends [] s.trace := by
  have hcall : (Call.sendResponse status replyHeaders body).dataSend = none := rfl
  obtain ⟨haccount, hdelivering⟩ : Accounted cfg _ ∧
      Delivering (fun chunk data => data = chunk.bytes (contents ⟨0⟩)) [] _ :=
    delivering_done hfresh hcall
  have hsend : Moves crates cfg (store.serves contents headers) _ _ :=
    send_moves (w.setPhase .done) (.sendResponse status replyHeaders body)
  have hreads : ReadsOf ⟨0⟩ ((w.setPhase .done).record
      (.sendResponse status replyHeaders body)) := by
    refine ⟨nofun, ?_⟩
    intro handle' offset len seq hop
    have hpending : _ ∈ w.pending := hop
    rw [hfresh.pending] at hpending
    nomatch hpending
  exact (delivering_reading serves_supplies (hsend.trans hmoves) haccount hdelivering
    hreads).sent.sends

/-- Behind the headers of a served file its planned body is sent. -/
theorem serve_sends {facts : RequestFacts} {fileMeta : FileMeta} {plan : ResponsePlan}
    {content prefetched : Bytes} (hplan : planResponse crates facts fileMeta = some plan)
    (hsize : fileMeta.size = content.length) (hchunk : 1 ≤ cfg.chunkSize)
    (hprefetch : prefetched <+: content) (hcontent : contents handle = content)
    (hfresh : Fresh w)
    (hmoves : Moves crates cfg (store.serves contents headers)
      (executePlan cfg w plan handle prefetched).1 s) :
    Sends (plannedBody content plan.body) s.trace := by
  obtain ⟨phase, call, heq, haccount, hdelivering, hstreams⟩ :=
    @executePlan_start cfg w (fun chunk data => data = chunk.bytes (contents handle)) plan
      handle prefetched hfresh (fun _ => rfl)
      (usablePrefetch_eq plan.body (hcontent ▸ hprefetch))
  rw [heq] at hmoves
  have hsend : Moves crates cfg (store.serves contents headers) _ _ :=
    send_moves (w.setPhase phase) call
  have hreads : ReadsOf handle ((w.setPhase phase).record call) := by
    refine ⟨hstreams, ?_⟩
    intro handle' offset len seq hop
    have hpending : _ ∈ w.pending := hop
    rw [hfresh.pending] at hpending
    nomatch hpending
  have hsent := (delivering_reading serves_supplies (hsend.trans hmoves) haccount hdelivering
    hreads).sent.sends
  rw [hcontent, plannedBody_eq hplan hsize hchunk] at hsent
  exact hsent

end Answered

/-! ## Runs with one open -/

/-- The request is sent, its first open completes with the whole file as prefetch, and the
filter is scheduled. -/
def openedActions (headers : List (Bytes × Bytes)) (handle : FileHandle) (file : StoredFile) :
    List Action :=
  [.requestHeaders headers [], .complete 0 (.openStat (.ok (handle, file.stat, file.content))),
    .commit, .scheduled []]

/-- These actions are a run on a store that has the file. -/
theorem openedActions_run {crates : Crates} {cfg : Config} {store : Store}
    {contents : FileHandle → Bytes} {headers : List (Bytes × Bytes)} {handle : FileHandle}
    {file : StoredFile} {request : OpenRequest} {ctx : OpenCtx} {s : State}
    (hreplay : replay crates cfg State.initial (openedActions headers handle file) = some s)
    (hpending : (step crates cfg State.initial (.requestHeaders headers [])).map (·.pending) =
      some [.openStat request ctx])
    (hopens : store.opens request.path = .ok file) (hcontents : contents handle = file.content) :
    StreamRun crates cfg (store.serves contents headers) State.initial
      (openedActions headers handle file) s := by
  obtain ⟨s₁, hstep₁, hrest⟩ := Transition.Run.foldlM_cons hreplay
  obtain ⟨s₂, hstep₂, hrest⟩ := Transition.Run.foldlM_cons hrest
  obtain ⟨s₃, hstep₃, hrest⟩ := Transition.Run.foldlM_cons hrest
  obtain ⟨s₄, hstep₄, hrest⟩ := Transition.Run.foldlM_cons hrest
  cases hrest
  have hallowed : (store.serves contents headers).allows s₁
      (.complete 0 (.openStat (.ok (handle, file.stat, file.content)))) := by
    intro op hop
    rw [hstep₁] at hpending
    have hsubmitted : s₁.pending = [.openStat request ctx] := Option.some.inj hpending
    rw [hsubmitted] at hop
    cases hop
    exact ⟨file, hopens, rfl, List.prefix_rfl, fun _ => hcontents⟩
  exact .cons (Eq.refl headers) hstep₁ <| .cons hallowed hstep₂ <|
    .cons trivial hstep₃ <| .cons trivial hstep₄ <| .nil _

end EnvoyFiles.Filter
