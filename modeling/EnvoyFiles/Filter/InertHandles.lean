import EnvoyFiles.Core.RangeGrammar
import EnvoyFiles.Filter.Reads
import EnvoyFiles.Filter.SequentialLookup
import EnvoyFiles.Io.Inert

/-!
# Inert handles are not read

An open that has prefetched the whole file returns an inert handle, which no read can use.
The filter does not need one: what it plans to send of such a file is nothing or one chunk,
which the prefetch fills, and the pump sends it before it issues reads, or sends nothing
and issues none.
-/

namespace EnvoyFiles.Filter

open Range

/-! ## The engine's inert opens -/

/-- What an open hands to its callback. -/
def openResult (result : Except IoError Opened) : OpenResult :=
  result.map fun opened => (opened.handle, opened.stat, opened.prefetch)

/-- The environment of one request in which the regular file that opens, a file of
`content` with the attributes `stat`, comes back with an inert handle.  Each open may find
another filesystem; reads and directory reads may return anything. -/
def inertOpens (headers : List (Bytes × Bytes)) (stat : FileStat) (content : Bytes) : Env where
  requests h := h = headers
  completes _ op completion :=
    match op, completion with
    | .openStat request _, .openStat result =>
        ∃ os id state, os.ReadsFiles ∧ id ≠ 0 ∧
          result = openResult (Engine.openStat os id request state).1 ∧
          ∀ opened, (Engine.openStat os id request state).1 = .ok opened →
            opened.stat.isDir = false → opened.handle = ⟨0⟩ ∧ opened.stat = stat ∧
              ∃ modified, os.tree opened.file = some (.file ⟨content, modified⟩)
    | _, _ => True

section Opens

variable {headers : List (Bytes × Bytes)} {stat : FileStat} {content : Bytes}

/-- An open delivers an error, a directory, or the inert handle with the content of the
file, which the prefetch length bounds. -/
theorem inertOpens_open {request : OpenRequest} {ctx : OpenCtx} {event : IoEvent}
    (h : (inertOpens headers stat content).yields (.openStat request ctx) event) :
    (∃ error, event = .openError error) ∨
      ∃ handle stat' prefetched, event = .opened handle stat' ctx prefetched ∧
        (stat'.isDir = false → stat' = stat ∧ prefetched = content ∧
          stat.size = content.length ∧ content.length ≤ request.prefetchLen) := by
  obtain ⟨w, completion, hok, hevent⟩ := h
  cases completion with
  | openStat result =>
      obtain ⟨os, id, state, hos, hid, rfl, hinert⟩ := hok
      cases hopen : (Engine.openStat os id request state).1 with
      | error error =>
          rw [hopen] at hevent
          cases hevent
          exact Or.inl ⟨error, rfl⟩
      | ok opened =>
          rw [hopen] at hevent
          cases hevent
          refine Or.inr ⟨opened.handle, opened.stat, opened.prefetch, rfl, fun hfile => ?_⟩
          obtain ⟨hhandle, hstat, modified, hnode⟩ := hinert opened hopen hfile
          obtain ⟨-, file, hnode', hsize, hprefetch, hle⟩ :=
            Engine.openStat_inert hos hid hopen hhandle
          cases hnode.symm.trans hnode'
          exact ⟨hstat, hprefetch, hstat ▸ hsize, hle⟩
  | read result => nomatch hevent
  | readDir result => nomatch hevent

end Opens

/-! ## The plan of a prefetched file -/

/-- What is planned of a file that the prefetch holds: nothing, or the file as one
chunk. -/
inductive OneChunk (cfg : Config) (content : Bytes) (body : BodyPlan) : Prop where
  | nothing : bodyChunks cfg body = [] → plannedBody content body = [] →
      OneChunk cfg content body
  | file : bodyChunks cfg body = [.file 0 content.length] →
      usablePrefetch body content = content → plannedBody content body = content →
      OneChunk cfg content body

section Plans

variable {crates : Crates} {cfg : Config} {data : RequestData} {ctx : OpenCtx}
  {stat : FileStat} {content : Bytes} {plan : ResponsePlan}

/-- A file of at most one chunk is one chunk. -/
theorem fileChunks_short {len : ℕ} (hpos : 0 < len) (hle : len ≤ cfg.chunkSize) :
    fileChunks cfg 0 len = [.file 0 len] := by
  obtain ⟨n, rfl⟩ : ∃ n, len = n + 1 := ⟨len - 1, by omega⟩
  rw [fileChunks_succ, Nat.min_eq_left hle]
  cases n with
  | zero => rfl
  | succ n => rw [fileChunksLoop, if_neg (Nat.lt_irrefl _)]

/-- What is planned of a file whose size fits into the prefetch of its request: nothing,
or the whole. -/
theorem body_of_prefetched
    (hplan : planResponse crates (requestFacts cfg data stat ctx) (fileMeta stat) = some plan)
    (hle : stat.size ≤ prefetchLen cfg (some data)) :
    plan.body = .empty ∨
      plan.body = .whole stat.size ∧ (stat.size = 0 ∨ stat.size ≤ cfg.chunkSize) := by
  -- Nothing is prefetched for a range, so a file with a range request is empty.
  have hrange (header : String) (outcome : RangeOutcome)
      (hheader : (requestFacts cfg data stat ctx).rangeHeader = some header)
      (hranges : planRanges header (fileMeta stat).size
        (requestFacts cfg data stat ctx).rangePolicy = outcome) :
      outcome = .full ∨ outcome = .unsatisfiable := by
    have hdata : data.rangeHeader = some header := by
      rw [requestFacts] at hheader
      dsimp only at hheader
      split at hheader
      · cases hheader
      · exact hheader
    have hzero : (fileMeta stat).size = 0 := by
      unfold prefetchLen at hle
      dsimp only at hle
      rw [hdata] at hle
      have hzero : stat.size = 0 := by simpa using hle
      exact hzero
    rw [hzero] at hranges
    rw [← hranges]
    exact planRanges_empty header _
  cases planResponse_cases hplan with
  | bare hbody _ => exact Or.inl hbody
  | full hfull =>
      obtain ⟨hbody, -⟩ := planFull_body hfull
      rw [bodyUnlessHead] at hbody
      split at hbody
      · exact Or.inl hbody
      · refine Or.inr ⟨hbody, ?_⟩
        unfold prefetchLen at hle
        dsimp only at hle
        split at hle
        · exact Or.inr hle
        · exact Or.inl (Nat.le_zero.mp hle)
  | single hheader hranges _ =>
      rcases hrange _ _ hheader hranges with hfull | hunsatisfiable
      · cases hfull
      · cases hunsatisfiable
  | multi hheader hranges _ =>
      rcases hrange _ _ hheader hranges with hfull | hunsatisfiable
      · cases hfull
      · cases hunsatisfiable

/-- A file that was opened with the prefetch length of the request and prefetched whole is
sent as one chunk, if at all. -/
theorem oneChunk_of_prefetched
    (hplan : planResponse crates (requestFacts cfg data stat ctx) (fileMeta stat) = some plan)
    (hsize : stat.size = content.length)
    (hle : content.length ≤ prefetchLen cfg (some data)) :
    OneChunk cfg content plan.body := by
  rcases body_of_prefetched hplan (hsize.trans_le hle) with hbody | ⟨hbody, hshort⟩
  · rw [hbody]
    exact .nothing rfl rfl
  · rw [hbody, hsize]
    rw [hsize] at hshort
    rcases Nat.eq_zero_or_pos content.length with hzero | hpos
    · refine .nothing ?_ (List.eq_nil_of_length_eq_zero hzero)
      rw [hzero]
      rfl
    · exact .file (fileChunks_short hpos (by omega)) rfl rfl

end Plans

/-! ## The invariant of a body at hand -/

/-- The stream of a body that is at hand: one chunk that is ready, or all is sent. -/
inductive AtHand (planned : Bytes) : Phase → List (Caller × Bytes × Bool) → Prop where
  | ready {st : Streaming} :
      st.chunks = [.file 0 planned.length] → st.nextSend = 0 →
      st.ready.lookup 0 = some planned → AtHand planned (.streaming st) []
  | sent : AtHand planned .done [(.pump, planned, true)]
  | nothing : planned = [] → AtHand planned .done []

/-- Nothing is read and nothing is outstanding. -/
structure Unread (planned : Bytes) (s : State) : Prop where
  reads : submittedReads s.trace = []
  work : s.work = 0
  body : AtHand planned s.phase (dataSends s.trace)

section Moves

variable {crates : Crates} {cfg : Config} {env : Env} {planned : Bytes} {s t : State}

theorem Unread.batch (h : Unread planned s) : s.batch = [] :=
  (work_eq_zero_iff.mp h.work).2.2

theorem Unread.not_event (h : Unread planned s) {event : IoEvent} {rest : List IoEvent} :
    s.batch ≠ event :: rest := by
  rw [h.batch]
  nofun

theorem Unread.not_idle (h : Unread planned s) : s.phase ≠ .idle := by
  intro hidle
  have hbody := h.body
  rw [hidle] at hbody
  nomatch hbody

theorem Unread.streaming (h : Unread planned s) {st : Streaming}
    (hphase : s.phase = .streaming st) :
    dataSends s.trace = [] ∧ st.chunks = [.file 0 planned.length] ∧ st.nextSend = 0 ∧
      st.ready.lookup 0 = some planned := by
  have hbody := h.body
  rw [hphase] at hbody
  generalize hsends : dataSends s.trace = sends at hbody
  cases hbody with
  | ready hchunks hnext hready => exact ⟨rfl, hchunks, hnext, hready⟩

theorem AtHand.withDepth {phase : Phase} {sends : List (Caller × Bytes × Bool)}
    (h : AtHand planned phase sends) (depth : ℕ) :
    AtHand planned (phase.withDepth depth) sends := by
  cases h with
  | ready hchunks hnext hready => exact .ready hchunks hnext hready
  | sent => exact .sent
  | nothing hempty => exact .nothing hempty

theorem Unread.of_eq (h : Unread planned s) (hphase : t.phase = s.phase)
    (htrace : t.trace = s.trace) (hwork : t.work ≤ s.work) : Unread planned t where
  reads := htrace ▸ h.reads
  work := by
    rw [h.work] at hwork
    exact Multiset.le_zero.mp hwork
  body := by
    rw [hphase, htrace]
    exact h.body

theorem Unread.onHook (h : Unread planned s) (hook : Hook) : Unread planned (s.onHook hook) := by
  have hwork := work_onHook s hook
  obtain ⟨depth, commits, -, heq⟩ := onHook_eq s hook
  rw [heq] at hwork ⊢
  refine ⟨?_, hwork.trans h.work, ?_⟩
  · exact (submittedReads_other _ rfl).trans h.reads
  · rw [dataSends_other _ rfl]
    exact h.body.withDepth depth

theorem Unread.hooks (h : Unread planned s) (hooks : List Hook) :
    Unread planned (hooks.foldl State.onHook s) := by
  induction hooks generalizing s with
  | nil => exact h
  | cons hook hooks ih => exact ih (h.onHook hook)

theorem Unread.send {call : Call} (h : Unread planned (s.record call)) :
    Unread planned (s.send call) := by
  refine Unread.hooks (s := { s.record call with reentry := s.reentry.tail }) ?_ _
  exact h.of_eq rfl rfl le_rfl

/-- No move of a body that is at hand reads. -/
theorem unread_move (hmove : Move crates cfg env s t) (h : Unread planned s) :
    Unread planned t := by
  cases hmove with
  | reentry _ => exact h.of_eq rfl rfl le_rfl
  | hook hook => exact h.onHook hook
  | refuse _ _ hphase => exact absurd hphase h.not_idle
  | accept hphase _ _ => exact absurd hphase h.not_idle
  | complete hpending _ _ =>
      rw [(work_eq_zero_iff.mp h.work).1] at hpending
      exact absurd hpending (by simp)
  | commit _ => exact h.of_eq rfl rfl le_rfl
  | drain hbatch _ => exact h.of_eq rfl rfl (work_drain hbatch _).le
  | openNext hbatch _ _ _ => exact absurd hbatch h.not_event
  | readDir _ hbatch _ => exact absurd hbatch h.not_event
  | respond _ _ _ hbatch _ => exact absurd hbatch h.not_event
  | sendHeaders _ hbatch _ => exact absurd hbatch h.not_event
  | beginStreaming hbatch _ _ _ _ => exact absurd hbatch h.not_event
  | readOk hbatch _ => exact absurd hbatch h.not_event
  | readError hbatch _ => exact absurd hbatch h.not_event
  | ignore hbatch _ _ => exact absurd hbatch h.not_event
  | discard _ => exact h.of_eq rfl rfl (work_discard_le s)
  | flushMore hphase _ _ hlast =>
      -- The chunk at hand is the last.
      obtain ⟨-, hchunks, hnext, -⟩ := h.streaming hphase
      rw [hchunks, hnext] at hlast
      exact absurd rfl hlast
  | flushLast hphase _ hready _ =>
      obtain ⟨hsends, -, hnext, hheld⟩ := h.streaming hphase
      rw [hnext, hheld] at hready
      cases hready
      refine ⟨?_, h.work, ?_⟩
      · exact (submittedReads_other _ rfl).trans h.reads
      · show AtHand planned .done (dataSends (s.trace ++ [_]))
        rw [dataSends_append, hsends]
        exact .sent
  | issueSkip hphase _ _ _ =>
      obtain ⟨hsends, hchunks, hnext, hheld⟩ := h.streaming hphase
      refine ⟨h.reads, h.work, ?_⟩
      show AtHand planned (.streaming _) (dataSends s.trace)
      rw [hsends]
      exact .ready hchunks hnext hheld
  | @issueRead st offset len hphase _ hchunk hready =>
      -- The only chunk is ready, so there is none to be read.
      obtain ⟨-, hchunks, -, hheld⟩ := h.streaming hphase
      rw [hchunks] at hchunk
      cases hcursor : st.issueCursor with
      | zero =>
          rw [hcursor, ← AList.lookup_isSome, hheld] at hready
          exact absurd rfl hready
      | succ cursor =>
          rw [hcursor] at hchunk
          nomatch hchunk
  | streamComplete _ => exact h.of_eq rfl rfl (work_close_le s)

/-- Serving a file that is at hand. -/
theorem unread_executePlan {w : State} {plan : ResponsePlan} {handle : FileHandle}
    {content : Bytes} (hfresh : Fresh w) (hunread : submittedReads w.trace = [])
    (hchunk : OneChunk cfg content plan.body) :
    Unread (plannedBody content plan.body) (executePlan cfg w plan handle content).1 := by
  have hwork : w.work = 0 :=
    work_eq_zero_iff.mpr ⟨hfresh.pending, hfresh.events, hfresh.batch⟩
  have hsends {call : Call} (hcall : call.dataSend = none) :
      dataSends (w.trace ++ [call]) = [] := (dataSends_other _ hcall).trans hfresh.sends
  rw [executePlan_eq]
  cases hchunk with
  | nothing hchunks hplanned =>
      rw [if_pos hchunks, hplanned]
      refine Unread.send ⟨?_, hwork, ?_⟩
      · exact (submittedReads_other _ rfl).trans hunread
      · show AtHand [] .done (dataSends (w.trace ++ [_]))
        rw [hsends rfl]
        exact .nothing rfl
  | file hchunks husable hplanned =>
      rw [hchunks, husable, hplanned, if_neg (List.cons_ne_nil _ _)]
      refine Unread.send ⟨?_, hwork, ?_⟩
      · exact (submittedReads_other _ rfl).trans hunread
      · show AtHand content (.streaming _) (dataSends (w.trace ++ [_]))
        rw [hsends rfl]
        refine .ready rfl rfl ?_
        simp [initialStreaming, seedPrefetch]

/-- At the end of the stream the whole body has been sent. -/
theorem Unread.delivered (h : Unread planned s) (hphase : s.phase = .done) :
    sentBytes s.trace = planned := by
  have hbody := h.body
  rw [hphase] at hbody
  rw [sentBytes]
  generalize dataSends s.trace = sends at hbody
  cases hbody with
  | sent => exact List.append_nil planned
  | nothing hempty => exact hempty.symm

/-- A wakeup that finds the stream unpaused sends the body at hand. -/
theorem Unread.scheduled (h : Unread planned s) (hactive : s.complete = false)
    {st : Streaming} (hphase : s.phase = .streaming st) (hdepth : st.watermarkDepth = 0)
    (reentry : List (List Hook)) :
    ∃ t, step crates cfg s (.scheduled reentry) = some t ∧ t.phase = .done ∧
      sentBytes t.trace = planned := by
  obtain ⟨hsends, hchunks, hnext, hheld⟩ := h.streaming hphase
  obtain ⟨hpending, hevents, -⟩ := work_eq_zero_iff.mp h.work
  let u : State := { s with
    phase := .streaming st, reentry, commits := s.commits - 1, bridge := .empty, batch := [] }
  have hready : st.ready.lookup st.nextSend = some planned := by rw [hnext, hheld]
  have hlast : st.nextSend = st.chunks.length - 1 := by rw [hnext, hchunks]; rfl
  have hfuel : flushFuel u = st.ready.entries.length + 1 := rfl
  have hpump : pump cfg u =
      some ((u.setPhase .done).send (.sendResponseData .pump planned true)) := by
    rw [pump]
    rw [hfuel, @flush_last u st planned _ rfl hdepth hready hlast]
  have hsent : Unread planned ((u.setPhase .done).send (.sendResponseData .pump planned true)) := by
    refine Unread.send ⟨?_, ?_, ?_⟩
    · exact (submittedReads_other _ rfl).trans h.reads
    · exact work_eq_zero_iff.mpr ⟨hpending, rfl, rfl⟩
    · show AtHand planned .done (dataSends (s.trace ++ [_]))
      rw [dataSends_append, hsends]
      exact .sent
  have hdone : ((u.setPhase .done).send (.sendResponseData .pump planned true)).phase = .done :=
    send_done _ rfl
  refine ⟨_, ?_, hdone, hsent.delivered hdone⟩
  rw [step_scheduled hactive, ← hpump, onScheduled]
  simp only [EventBridge.process_fst, EventBridge.process_snd, hevents, handleBatch, hphase]
  rfl

end Moves

/-! ## Runs -/

section Runs

variable {crates : Crates} {cfg : Config} {headers : List (Bytes × Bytes)} {stat : FileStat}
  {content : Bytes} {actions : List Action} {s : State}

/-- What the filter awaits is an open of the request, or no open. -/
def AwaitsOpen (crates : Crates) (cfg : Config) (headers : List (Bytes × Bytes))
    (data : RequestData) (_ : Phase) (op : Op) : Prop :=
  (∃ candidates, Accepts crates cfg headers data candidates) ∧
    ∀ request ctx, op = .openStat request ctx →
      ∃ path, request = openRequest cfg (some data) path

/-- A file that is served is the prefetched one, by the plan for the request. -/
def ServesPrefetched (crates : Crates) (cfg : Config) (headers : List (Bytes × Bytes))
    (stat : FileStat) (content : Bytes) (reaction : Reaction) : Prop :=
  ∀ plan handle prefetched, reaction = .serve plan handle prefetched →
    prefetched = content ∧ OneChunk cfg content plan.body ∧
      ∃ data candidates ctx, Accepts crates cfg headers data candidates ∧
        planResponse crates (requestFacts cfg data stat ctx) (fileMeta stat) = some plan

theorem awaits_openStat {data : RequestData} {phase phase' : Phase} {reaction : Reaction}
    {op : Op} (h : reaction.awaits cfg data phase = some (phase', op)) :
    ∀ request ctx, op = .openStat request ctx →
      ∃ path, request = openRequest cfg (some data) path := by
  rintro request ctx rfl
  cases reaction with
  | seek phase'' path ctx' =>
      cases h
      exact ⟨path, rfl⟩
  | list path => nomatch h
  | reply status headers body => nomatch h
  | serve plan handle prefetched => nomatch h
  | ignore => nomatch h

theorem inert_lookupRule :
    LookupRule crates cfg (inertOpens headers stat content) (AwaitsOpen crates cfg headers)
      (ServesPrefetched crates cfg headers stat content) where
  refuse := by
    rintro headers' reaction - hrefusal plan handle prefetched rfl
    obtain ⟨status, replyHeaders, hreply, -⟩ := refusal_reply hrefusal
    nomatch hreply
  start := by
    rintro headers' data candidate rest rfl - haccepts
    refine ⟨⟨_, haccepts⟩, ?_⟩
    rintro request ctx ⟨⟩
    exact ⟨candidate.fsPath, rfl⟩
  next := by
    rintro data phase op event reaction phase' op' - ⟨haccepts, -⟩ - - hawaits
    exact ⟨haccepts, awaits_openStat hawaits⟩
  answer := by
    rintro data phase op event reaction call - ⟨⟨candidates, haccepts⟩, hrequest⟩ hyields hreact
      - plan handle prefetched rfl
    obtain ⟨stat', ctx, rfl, hfile, hplan⟩ := react_serve hreact
    cases op with
    | openStat request ctx' =>
        obtain ⟨path, rfl⟩ := hrequest request ctx' rfl
        rcases inertOpens_open hyields with ⟨error, herror⟩ |
          ⟨handle', stat'', prefetched', hopened, hinert⟩
        · nomatch herror
        · cases hopened
          obtain ⟨rfl, rfl, hsize, hle⟩ := hinert hfile
          exact ⟨rfl, oneChunk_of_prefetched hplan hsize hle, data, candidates, ctx, haccepts,
            hplan⟩
    | readDir path =>
        obtain ⟨w, completion, -, hevent⟩ := hyields
        cases completion <;> nomatch hevent
    | read handle' offset len seq =>
        obtain ⟨w, completion, -, hevent⟩ := hyields
        cases completion <;> nomatch hevent

/-- Without a call that starts the response it is still waited for. -/
theorem stageRun_unanswered {stage stage' : Stage} {calls : List Call}
    (h : StageRun stage calls stage') (hcalls : ∀ call ∈ calls, call.startsResponse = false)
    (hstage : stage = .waiting) : stage' = .waiting := by
  induction h with
  | nil => exact hstage
  | @cons stage next last call calls _ hnext _ ih =>
      subst hstage
      apply ih (fun other hother => hcalls other (List.mem_cons_of_mem _ hother))
      have hcall := hcalls call List.mem_cons_self
      cases call with
      | hook hook => exact (Option.some.inj hnext).symm
      | openStat request => exact (Option.some.inj hnext).symm
      | readDir path => exact (Option.some.inj hnext).symm
      | sendResponse status headers body => nomatch hcall
      | sendResponseHeaders headers endStream => nomatch hcall
      | sendResponseData caller data endStream => nomatch hnext
      | read handle offset len seq => nomatch hnext

/-- A response that has not started has submitted no reads. -/
theorem submittedReads_of_unanswered (hobeys : Obeys s) (hnone : s.answer = none) :
    submittedReads s.trace = [] := by
  have hstarts : ∀ call ∈ s.trace, call.startsResponse = false := by
    intro call hcall
    simpa using List.find?_eq_none.mp hnone call hcall
  rw [Obeys] at hobeys
  rw [stageRun_unanswered hobeys hstarts rfl] at hobeys
  exact submittedReads_of_waiting hobeys

/-- Before the call that starts the response nothing is read. -/
theorem submittedReads_before {w : State} {call : Call} (hobeys : Obeys s)
    (hstarts : call.startsResponse = true) (htrace : w.trace ++ [call] <+: s.trace) :
    submittedReads w.trace = [] := by
  obtain ⟨later, hlater⟩ := htrace
  rw [Obeys] at hobeys
  rw [← hlater, List.append_assoc, List.singleton_append] at hobeys
  obtain ⟨u, v, hbefore, -, hnext, -⟩ := hobeys.split_middle
  obtain ⟨rfl, -⟩ := next_startsResponse hstarts hnext
  exact submittedReads_of_waiting hbefore

/-- A response has been sent, or is at hand and goes out with the next wakeup that finds
the stream unpaused; that wakeup is on its way unless the stream is paused. -/
structure DeliversAtHand (crates : Crates) (cfg : Config) (planned : Bytes) (s : State) :
    Prop where
  sent : s.phase = .done → sentBytes s.trace = planned
  held : s.phase ≠ .done → ∃ st, s.phase = .streaming st ∧ sentBytes s.trace = [] ∧
    (s.complete = false → st.watermarkDepth = 0 → 0 < s.delivering + s.commits ∧
      ∀ reentry, ∃ t, step crates cfg s (.scheduled reentry) = some t ∧ t.phase = .done ∧
        sentBytes t.trace = planned)

theorem Unread.delivers {planned : Bytes} (h : Unread planned s) (hsettled : Settled s) :
    DeliversAtHand crates cfg planned s where
  sent := h.delivered
  held hphase := by
    cases hcases : s.phase with
    | streaming st =>
        obtain ⟨hsends, -⟩ := h.streaming hcases
        refine ⟨st, rfl, ?_, fun hactive hdepth => ⟨?_, ?_⟩⟩
        · rw [sentBytes]
          rw [hsends]
          rfl
        · rcases hsettled hactive st hcases hdepth with hcommit | hwork
          · exact hcommit
          · exact absurd h.work hwork
        · exact h.scheduled hactive hcases hdepth
    | done => exact absurd hcases hphase
    | idle => exact absurd hcases h.not_idle
    | resolvingFile pending =>
        have hbody := h.body
        rw [hcases] at hbody
        cases hbody
    | resolvingIndex dirFs pending =>
        have hbody := h.body
        rw [hcases] at hbody
        cases hbody

/-- A request whose file the prefetch of its open holds never reads, and is answered with
the complete body. -/
theorem inert_handle_never_read (hmax : 1 ≤ cfg.maxInflightReads)
    (hrun : StreamRun crates cfg (inertOpens headers stat content) State.initial actions s) :
    submittedReads s.trace = [] ∧
      ∀ replyHeaders endStream,
        s.answer = some (.sendResponseHeaders replyHeaders endStream) →
          ∃ data candidates ctx plan, Accepts crates cfg headers data candidates ∧
            planResponse crates (requestFacts cfg data stat ctx) (fileMeta stat) = some plan ∧
            replyHeaders = responseHeaders plan ∧
            DeliversAtHand crates cfg (plannedBody content plan.body) s := by
  have hobeys : Obeys s := run_obeys hrun
  have hsettled : Settled s := (live_run hmax hrun).settled
  have hwaiting (hnone : s.answer = none) : submittedReads s.trace = [] ∧
      ∀ replyHeaders endStream,
        s.answer = some (.sendResponseHeaders replyHeaders endStream) →
          ∃ data candidates ctx plan, Accepts crates cfg headers data candidates ∧
            planResponse crates (requestFacts cfg data stat ctx) (fileMeta stat) = some plan ∧
            replyHeaders = responseHeaders plan ∧
            DeliversAtHand crates cfg (plannedBody content plan.body) s := by
    refine ⟨submittedReads_of_unanswered hobeys hnone, fun replyHeaders endStream hsome => ?_⟩
    nomatch hnone.symm.trans hsome
  cases lookup_rule inert_lookupRule hrun with
  | idle hunasked => exact hwaiting hunasked.unanswered
  | seeking hawaiting _ => exact hwaiting hawaiting.unanswered
  | gone _ hnone => exact hwaiting hnone
  | @answered w reaction call hfresh hgood hreaction hmoves hanswer =>
      obtain ⟨hstarts, htrace⟩ := @apply_trace cfg w reaction call hreaction
      have hunread := submittedReads_before hobeys hstarts (htrace.trans (moves_trace hmoves))
      have hclosure {planned : Bytes} (hstart : Unread planned (reaction.apply cfg w).1) :
          Unread planned s :=
        Transition.closure_invariant hmoves (fun _ _ => unread_move) hstart
      cases reaction with
      | reply status replyHeaders body =>
          cases hreaction
          have hstart : Unread [] ((w.setPhase .done).send
              (.sendResponse status replyHeaders body)) := by
            refine Unread.send ⟨?_, ?_, ?_⟩
            · exact (submittedReads_other _ rfl).trans hunread
            · exact work_eq_zero_iff.mpr ⟨hfresh.pending, hfresh.events, hfresh.batch⟩
            · show AtHand [] .done (dataSends (w.trace ++ [_]))
              rw [dataSends_other _ rfl, hfresh.sends]
              exact .nothing rfl
          refine ⟨(hclosure hstart).reads, fun replyHeaders' endStream hsome => ?_⟩
          nomatch hanswer.symm.trans hsome
      | serve plan handle prefetched =>
          cases hreaction
          obtain ⟨rfl, hchunk, data, candidates, ctx, haccepts, hplan⟩ := hgood _ _ _ rfl
          have hs := hclosure (unread_executePlan hfresh hunread hchunk)
          refine ⟨hs.reads, fun replyHeaders endStream hsome => ?_⟩
          cases hanswer.symm.trans hsome
          exact ⟨data, candidates, ctx, plan, haccepts, hplan, rfl, hs.delivers hsettled⟩
      | seek phase path ctx => nomatch hreaction
      | list path => nomatch hreaction
      | ignore => nomatch hreaction

end Runs

/-! ### Witness -/

/-- `/srv` with one file of three bytes. -/
def smallFileOs : Os :=
  .ofTree fun location =>
    match location with
    | [] => some (.directory ⟨0, .ok 0⟩)
    | ["srv"] => some (.directory ⟨0, .ok 0⟩)
    | ["srv", "a"] => some (.file ⟨[1, 2, 3], .ok 0⟩)
    | _ => none

/-- What the filter asks the engine for first. -/
def smallFileOpen : OpenRequest where
  path := ⟨"/srv/a"⟩
  containmentRoot := some ⟨"/srv"⟩
  denySymlinks := false
  prefetchLen := 65536

/-- The stream is paused and resumed as the response headers are sent. -/
def inertActions : List Action :=
  [.requestHeaders (getHeaders "/a") [],
    .complete 0 (.openStat (.ok (⟨0⟩, ⟨3, 0, 0, false⟩, [1, 2, 3]))),
    .commit, .scheduled [[.above, .below]]]

def inertRun : Option State :=
  replay Crates.plain (Config.defaults ⟨"/srv"⟩) State.initial inertActions

theorem inert_handle_never_read_small_file :
    ∃ s, inertRun = some s ∧ sentBytes s.trace = [1, 2, 3] ∧
      submittedReads s.trace = [] := by
  have hsent : inertRun.map (fun s => sentBytes s.trace) = some [1, 2, 3] := by
    decide
  obtain ⟨s, hs, hbytes⟩ := Option.map_eq_some_iff.mp hsent
  refine ⟨s, hs, hbytes, ?_⟩
  have hopened : openResult (Engine.openStat smallFileOs 1 smallFileOpen ⟨[], []⟩).1 =
      .ok (⟨0⟩, ⟨3, 0, 0, false⟩, [1, 2, 3]) := by
    decide
  have hfile : (Engine.openStat smallFileOs 1 smallFileOpen ⟨[], []⟩).1.map Opened.file =
      .ok ["srv", "a"] := by
    decide
  have hpending : (step Crates.plain (Config.defaults ⟨"/srv"⟩) State.initial
      (.requestHeaders (getHeaders "/a") [])).map (·.pending) =
        some [.openStat smallFileOpen ⟨none, "application/octet-stream", false⟩] := by
    decide
  obtain ⟨s₁, hstep₁, hrest⟩ := Transition.Run.foldlM_cons hs
  obtain ⟨s₂, hstep₂, hrest⟩ := Transition.Run.foldlM_cons hrest
  obtain ⟨s₃, hstep₃, hrest⟩ := Transition.Run.foldlM_cons hrest
  obtain ⟨s₄, hstep₄, hrest⟩ := Transition.Run.foldlM_cons hrest
  cases hrest
  have hinert : (inertOpens (getHeaders "/a") ⟨3, 0, 0, false⟩ [1, 2, 3]).allows s₁
      (.complete 0 (.openStat (.ok (⟨0⟩, ⟨3, 0, 0, false⟩, [1, 2, 3])))) := by
    intro op hop
    rw [hstep₁] at hpending
    have hsubmitted : s₁.pending = [.openStat smallFileOpen
        ⟨none, "application/octet-stream", false⟩] := Option.some.inj hpending
    rw [hsubmitted] at hop
    cases hop
    refine ⟨smallFileOs, 1, ⟨[], []⟩, Os.ofTree_readsFiles _, Nat.one_ne_zero,
      hopened.symm, fun opened hopen _ => ?_⟩
    rw [hopen] at hopened hfile
    obtain ⟨handle, stat, bytes, file⟩ := opened
    cases hopened
    cases hfile
    exact ⟨rfl, rfl, .ok 0, rfl⟩
  have hrun : StreamRun Crates.plain (Config.defaults ⟨"/srv"⟩)
      (inertOpens (getHeaders "/a") ⟨3, 0, 0, false⟩ [1, 2, 3]) State.initial inertActions s :=
    .cons (Eq.refl (getHeaders "/a")) hstep₁ <| .cons hinert hstep₂ <|
      .cons trivial hstep₃ <| .cons trivial hstep₄ <| .nil _
  exact (inert_handle_never_read (by decide) hrun).1

end EnvoyFiles.Filter
